import HeapAudit.Analyzer
import HeapAudit.Frontends
import HeapAudit.Proofs.Fates
import HeapAudit.Proofs.Forms
import HeapAudit.Proofs.ScanSteps

namespace HeapAudit
open Text

/-- An event of the line scan: on a word, with its arguments as they are written. -/
structure Event.Scanned (e : Event) : Prop where
  name : IsName e.var.toList
  written : ∃ text, e.arguments = .text text
  kind : (e.kind = .allocation ∧ e.primitive ∈ acquiring ∧
    (e.isArray = true ↔ e.primitive = "new[]")) ∨ e.kind = .deallocation

namespace LineScan

theorem acquisition?_scanned {tables : Tables} {scopes : List Scope} {number : Nat}
    {head segment : Chars} {e : Event}
    (h : acquisition? tables scopes number head segment = some e) : e.Scanned := by
  obtain ⟨found, hf, rfl⟩ := Option.map_eq_some_iff.mp h
  obtain ⟨form, -, hform⟩ := List.exists_of_findSome?_eq_some hf
  obtain ⟨hname, hin, harray, -⟩ := AcquisitionForm.find?_some hform
  exact ⟨by simpa using hname, ⟨_, rfl⟩, .inl ⟨rfl, hin, harray⟩⟩

theorem release?_scanned {tables : Tables} {scopes : List Scope} {number : Nat}
    {head segment : Chars} {e : Event}
    (h : release? tables scopes number head segment = some e) : e.Scanned := by
  obtain ⟨⟨form, var⟩, hf, rfl⟩ := Option.map_eq_some_iff.mp h
  obtain ⟨form', -, hform⟩ := List.exists_of_findSome?_eq_some hf
  obtain ⟨var', hfind, heq⟩ := Option.map_eq_some_iff.mp hform
  cases heq
  exact ⟨by simpa using ReleaseForm.find?_some hfind, ⟨_, rfl⟩, .inr rfl⟩

theorem extract_scanned (language : Language) (tables : Tables) (source : String) :
    ∀ e ∈ extract language tables source, e.Scanned := by
  apply extract_forall
  intro scopes number head segment e he
  rcases List.mem_append.mp he with he | he
  · exact acquisition?_scanned (Option.mem_toList.mp he)
  · exact release?_scanned (Option.mem_toList.mp he)

end LineScan

theorem Event.Scanned.plain {e : Event} (h : e.Scanned) (language : Language) :
    Ledger.Plain .standard language e := by
  refine ⟨?_, ?_, ?_⟩
  · intro hv
    exact h.name.1 (by rw [hv]; rfl)
  · rcases h.kind with ⟨hk, -⟩ | hk
    · simp [hk]
    · simp [hk]
  · intro _
    obtain ⟨text, ht⟩ := h.written
    exact Estimator.standard_written language ht

namespace Ledger

/-- The allocation of an event. -/
structure Records (e : Event) (a : Allocation) : Prop where
  var : a.var = e.var
  line : a.line = e.line
  primitive : a.primitive = e.primitive
  size : 1 ≤ a.size

/-- What a release comes to: it frees an allocation, or it is remarked for having none to free. -/
inductive Answers (e : Event) : Free ⊕ Warning → Prop
  | freed {f : Free} (hv : f.var = e.var) (hl : f.line = e.line)
      (hp : f.primitive = e.primitive) : Answers e (.inl f)
  | remarked {w : Warning} (hk : w.kind = .potentialDoubleFree) (hv : w.var = some e.var)
      (hl : w.line = e.line) : Answers e (.inr w)

theorem moments_event (events : List Event) : (moments events).map (·.event) = events := by
  induction events using List.reverseRecOn with
  | nil => rfl
  | append_singleton events e ih => rw [moments_concat, List.map_append, ih]; rfl

/-- One result for each event of a kind, in the order of the events. -/
theorem forall₂_moments {α : Type} {R : Event → α → Prop} {f : Moment → Option α}
    (kind : EventKind) (ms : List Moment)
    (hf : ∀ m ∈ ms, m.event.kind = kind → ∃ a, f m = some a ∧ R m.event a)
    (hn : ∀ m ∈ ms, m.event.kind ≠ kind → f m = none) :
    List.Forall₂ R ((ms.map (·.event)).filter (·.kind = kind)) (ms.filterMap f) := by
  induction ms with
  | nil => exact .nil
  | cons m ms ih =>
    have hrest := ih (fun n hin => hf n (List.mem_cons_of_mem _ hin))
      fun n hin => hn n (List.mem_cons_of_mem _ hin)
    by_cases hk : m.event.kind = kind
    · obtain ⟨a, ha, hr⟩ := hf m List.mem_cons_self hk
      rw [List.map_cons, List.filter_cons_of_pos (by simpa using hk), List.filterMap_cons, ha]
      exact .cons hr hrest
    · rw [List.map_cons, List.filter_cons_of_neg (by simpa using hk), List.filterMap_cons,
        hn m List.mem_cons_self hk]
      exact hrest

section Traced

variable {language : Language} {serial : Nat} {events : List Event} {l : Ledger}

theorem mem_event {m : Moment} (hm : m ∈ moments events) : m.event ∈ events := by
  rw [← moments_event events]
  exact List.mem_map.mpr ⟨m, hm, rfl⟩

theorem Traced.records (h : Traced .standard language serial events l)
    (hp : ∀ e ∈ events, Plain .standard language e) :
    List.Forall₂ Records (events.filter (·.kind = .allocation)) l.allocations := by
  have hall := forall₂_moments (R := Records) (f := allocationAt .standard language serial)
    .allocation (moments events) ?_ ?_
  · rwa [moments_event, ← h.allocations] at hall
  · intro m hm hk
    obtain ⟨size, hs⟩ := (hp m.event (mem_event hm)).2.2 hk
    refine ⟨recordAt .standard language serial m, by simp [allocationAt, hk], rfl, rfl, rfl, ?_⟩
    change 1 ≤ sizeAt .standard language m
    rw [sizeAt, hs]
    exact Estimator.standard_positive language m.event size hs
  · intro m _ hk
    simp [allocationAt, hk]

/-- The free or the warning of a release. -/
def answerAt (language : Language) (serial : Nat) (m : Moment) : Option (Free ⊕ Warning) :=
  if m.event.kind = .deallocation then
    match held? m.event.var m.earlier with
    | some p => some (.inl (freeOf (recordAt .standard language serial p) m.event))
    | none => (warningAt .standard language serial m).map .inr
  else none

theorem answerAt_answers {m : Moment} (hk : m.event.kind = .deallocation) :
    ∃ answer, answerAt language serial m = some answer ∧ Answers m.event answer := by
  unfold answerAt warningAt
  rw [if_pos hk, if_pos hk]
  cases held? m.event.var m.earlier with
  | some p => exact ⟨_, rfl, .freed rfl rfl rfl⟩
  | none => exact ⟨_, rfl, .remarked rfl rfl rfl⟩

theorem answerAt_free (m : Moment) :
    (answerAt language serial m).bind Sum.getLeft? = freeAt .standard language serial m := by
  unfold answerAt freeAt warningAt
  split
  · cases held? m.event.var m.earlier with
    | some p => rfl
    | none => rfl
  · rfl

theorem answerAt_warning (m : Moment) :
    (answerAt language serial m).bind Sum.getRight? =
      (warningAt .standard language serial m).filter (·.kind = .potentialDoubleFree) := by
  unfold answerAt warningAt
  split
  · cases held? m.event.var m.earlier with
    | some p =>
      dsimp only
      unfold mismatch?
      split
      · rfl
      · rfl
    | none => rfl
  · rfl

/-- Every release is answered, and there are no other frees and no other such warnings. -/
theorem Traced.answers (h : Traced .standard language serial events l) :
    ∃ answers, List.Forall₂ Answers (events.filter (·.kind = .deallocation)) answers ∧
      answers.filterMap Sum.getLeft? = l.frees ∧
      answers.filterMap Sum.getRight? =
        l.warnings.filter (·.kind = .potentialDoubleFree) := by
  refine ⟨(moments events).filterMap (answerAt language serial), ?_, ?_, ?_⟩
  · have hall := forall₂_moments (R := Answers) (f := answerAt language serial)
      .deallocation (moments events) (fun m _ => answerAt_answers)
      (fun m _ hk => by simp [answerAt, hk])
    rwa [moments_event] at hall
  · rw [List.filterMap_filterMap, h.frees]
    exact List.filterMap_congr fun m _ => answerAt_free m
  · rw [List.filterMap_filterMap, h.warnings, List.filter_filterMap]
    exact List.filterMap_congr fun m _ => answerAt_warning m

/-- Releases are remarked for having nothing to free, or for freeing it the wrong way. -/
theorem Traced.remarks (h : Traced .standard language serial events l) :
    ∀ w ∈ l.warnings, w.kind = .potentialDoubleFree ∨ w.kind = .mismatchedDeallocation := by
  intro w hw
  rw [h.warnings] at hw
  obtain ⟨m, -, hm⟩ := List.mem_filterMap.mp hw
  unfold warningAt mismatch? at hm
  split at hm
  · split at hm
    · split at hm
      · cases hm
        exact .inr rfl
      · cases hm
    · cases hm
      exact .inl rfl
  · cases hm

end Traced

theorem length_answers (answers : List (Free ⊕ Warning)) :
    answers.length =
      (answers.filterMap Sum.getLeft?).length + (answers.filterMap Sum.getRight?).length := by
  induction answers with
  | nil => rfl
  | cons answer answers ih =>
    cases answer with
    | inl f =>
      simp only [List.filterMap_cons, Sum.getLeft?_inl, Sum.getRight?_inl, List.length_cons]
      omega
    | inr w =>
      simp only [List.filterMap_cons, Sum.getLeft?_inr, Sum.getRight?_inr, List.length_cons]
      omega

theorem length_kinds {estimate : Estimator} {language : Language} {events : List Event}
    (hp : ∀ e ∈ events, Plain estimate language e) :
    events.length = (events.filter (·.kind = .allocation)).length +
      (events.filter (·.kind = .deallocation)).length := by
  induction events with
  | nil => rfl
  | cons e events ih =>
    have hrest := ih fun x hx => hp x (List.mem_cons_of_mem _ hx)
    rcases (hp e List.mem_cons_self).kind with hk | hk
    · simp [hk, hrest]; omega
    · simp [hk, hrest]; omega

/-- Closing the books adds to the leaks only. -/
theorem run_frame (estimate : Estimator) (language : Language) (serial : Nat)
    (events : List Event) :
    (run estimate (fresh language serial) events).allocations =
        (after estimate language serial events).allocations ∧
      (run estimate (fresh language serial) events).frees =
        (after estimate language serial events).frees ∧
      (run estimate (fresh language serial) events).warnings =
        (after estimate language serial events).warnings := by
  rw [run_eq_after, finish_open (after_open ..)]
  exact ⟨rfl, rfl, rfl⟩

theorem run_lengths (estimate : Estimator) (language : Language) (serial : Nat)
    (events : List Event) :
    (run estimate (fresh language serial) events).timeline.length = events.length ∧
      (run estimate (fresh language serial) events).allocations.length =
        (run estimate (fresh language serial) events).frees.length +
          (run estimate (fresh language serial) events).leaks.length := by
  rw [run_eq_after]
  refine ⟨?_, ?_⟩
  · rw [finish_timeline, after, feed_eq_replay, replay_length, processed_map, List.length_map]
  · exact ((after_kept ..).conserved (after_open ..) fun s => feed_last_sample).count

end Ledger

theorem Quality.scan_kind (rules : List Rule) (lines : List Chars) :
    ∀ w ∈ scan rules lines, w.kind = .unsafeFunction := by
  intro w hw
  unfold scan scanFrom lineWarnings at hw
  obtain ⟨⟨line, n⟩, -, hline⟩ := List.mem_flatMap.mp hw
  obtain ⟨rule, -, hrule⟩ := List.mem_flatMap.mp hline
  obtain ⟨site, -, rfl⟩ := List.mem_map.mp hrule
  rfl

theorem Extraction.run_line (language : Language) (source : String) :
    (Extraction.run [.line language] source).events = LineScan.extract language {} source := by
  simp only [Extraction.run, Extraction.runFrom, Frontend.line]
  cases LineScan.extract language {} source with
  | nil => rfl
  | cons e events => rfl

/-- What a result owes to the events of its source. -/
structure Analysis.Accounts (result : Analysis) (events : List Event) : Prop where
  scanned : ∀ e ∈ events, e.Scanned
  /-- One record for each acquisition, in the order of the source. -/
  allocations : List.Forall₂ Ledger.Records (events.filter (·.kind = .allocation))
    result.allocations
  /-- One free or one warning for each release, and no others. -/
  releases : ∃ answers,
    List.Forall₂ Ledger.Answers (events.filter (·.kind = .deallocation)) answers ∧
      answers.filterMap Sum.getLeft? = result.frees ∧
      answers.filterMap Sum.getRight? = result.warnings.filter (·.kind = .potentialDoubleFree)
  warnings : ∀ w ∈ result.warnings, w.kind ≠ .doubleFree ∧ w.kind ≠ .analysisError
  samples : result.timeline.length = events.length
  events : events.length = result.allocations.length + result.frees.length +
    (result.warnings.filter (·.kind = .potentialDoubleFree)).length
  settled : result.allocations.length = result.frees.length + result.leaks.length

/-- A result that carries the books of a ledger, and remarks of its own beside them. -/
structure Analysis.Carries (result : Analysis) (l : Ledger) (remarks : List Warning) : Prop where
  allocations : result.allocations = l.allocations
  frees : result.frees = l.frees
  leaks : result.leaks = l.leaks
  timeline : result.timeline = l.timeline
  warnings : result.warnings = l.warnings ++ remarks

/-- The books of scanned events account for all of them. -/
theorem Analysis.Carries.accounts {result : Analysis} {language : Language} {serial : Nat}
    {events : List Event} {remarks : List Warning}
    (h : result.Carries (Ledger.run .standard (.fresh language serial) events) remarks)
    (he : ∀ e ∈ events, e.Scanned) (hr : ∀ w ∈ remarks, w.kind = .unsafeFunction) :
    result.Accounts events := by
  have hp : ∀ e ∈ events, Ledger.Plain .standard language e := fun e hm => (he e hm).plain language
  have ht : Ledger.Traced .standard language serial events _ := Ledger.after_traced hp
  obtain ⟨hallocations, hfrees, hwarnings⟩ := Ledger.run_frame .standard language serial events
  obtain ⟨hsamples, hsettled⟩ := Ledger.run_lengths .standard language serial events
  rw [← h.timeline] at hsamples
  rw [← h.allocations, ← h.frees, ← h.leaks] at hsettled
  have hremarks : remarks.filter (·.kind = .potentialDoubleFree) = [] := by
    apply List.filter_eq_nil_iff.mpr
    intro w hw
    simp [hr w hw]
  have hdoubles : result.warnings.filter (·.kind = .potentialDoubleFree) =
      (Ledger.after .standard language serial events).warnings.filter
        (·.kind = .potentialDoubleFree) := by
    rw [h.warnings, hwarnings, List.filter_append, hremarks, List.append_nil]
  have hrecords := ht.records hp
  rw [← hallocations, ← h.allocations] at hrecords
  obtain ⟨answers, hanswers, hleft, hright⟩ := ht.answers
  rw [← hfrees, ← h.frees] at hleft
  rw [← hdoubles] at hright
  refine ⟨he, hrecords, ⟨answers, hanswers, hleft, hright⟩, ?_, hsamples, ?_, hsettled⟩
  · intro w hw
    rw [h.warnings, hwarnings] at hw
    rcases List.mem_append.mp hw with hw | hw
    · rcases ht.remarks w hw with hk | hk
      · simp [hk]
      · simp [hk]
    · simp [hr w hw]
  · rw [Ledger.length_kinds hp, hrecords.length_eq, hanswers.length_eq, Ledger.length_answers,
      hleft, hright, Nat.add_assoc]

namespace Analyzer

/-- Every part of the analyzer is the one it comes with. -/
structure Standard (a : Analyzer) : Prop where
  estimator : a.estimator = .standard
  ledger : a.ledgerFault = none
  quality : a.qualityFault = none

/-- A source that is not refused. -/
structure Admits (a : Analyzer) (source : String) : Prop where
  nonempty : source ≠ ""
  within : ∀ limit, a.maxChars = some limit → (source.length : Int) ≤ limit

theorem check_admitted {a : Analyzer} {source : String} (h : a.Admits source) :
    a.check (.text source) = .ok source := by
  dsimp only [check]
  rw [if_neg h.nonempty]
  cases hm : a.maxChars with
  | none => rfl
  | some limit => simp [h.within limit hm]

/-- What only the line scan reads is entered in the books event by event. -/
theorem analyzeText_carries {a : Analyzer} (ha : a.Standard) (serial : Nat)
    (source filename requested : String) {language : Language}
    (hl : Language.resolve (.text requested) = language)
    (hc : a.chain language = [.line language]) :
    (a.analyzeText serial source filename requested).1.Carries
      (Ledger.run .standard (.fresh language serial)
        (LineScan.extract language {} (Comment.strip source))) (quality source) := by
  have hbooks : a.ledger language serial source = Ledger.run .standard (.fresh language serial)
      (LineScan.extract language {} (Comment.strip source)) := by
    rw [ledger, extraction, ha.estimator, hc, Extraction.run_line]
    rfl
  simp only [analyzeText, ha.ledger, ha.quality, hl, hbooks]
  exact ⟨rfl, rfl, rfl, rfl, rfl⟩

/-- A source that is not refused has a result, and the result carries the books of its events. -/
theorem analyze_carries {a : Analyzer} {source : String} {language : Language} (ha : a.Standard)
    (hs : a.Admits source) (serial : Nat) (filename : String) (requested : Value)
    (hl : Language.resolve (.text (a.requested requested)) = language)
    (hc : a.chain language = [.line language]) :
    ∃ result next, a.analyze serial (.text source) filename requested = .ok (result, next) ∧
      result.Carries (Ledger.run .standard (.fresh language serial)
        (LineScan.extract language {} (Comment.strip source))) (quality source) := by
  refine ⟨_, (a.analyzeText serial source filename (a.requested requested)).2, ?_,
    analyzeText_carries ha serial source filename (a.requested requested) hl hc⟩
  rw [analyze, check_admitted hs]
  rfl

/-- A source that only the line scan reads is analyzed to the end, and the result accounts for
every event in it. -/
theorem analyze_accounts (a : Analyzer) (serial : Nat) (source filename : String)
    (requested : Value) (language : Language) (ha : a.Standard) (hs : a.Admits source)
    (hl : Language.resolve (.text (a.requested requested)) = language)
    (hc : a.chain language = [.line language]) :
    ∃ result next, a.analyze serial (.text source) filename requested = .ok (result, next) ∧
      result.Accounts (LineScan.extract language {} (Comment.strip source)) := by
  obtain ⟨result, next, hrun, hcarries⟩ :=
    analyze_carries ha hs serial filename requested hl hc
  have haccounts := hcarries.accounts (LineScan.extract_scanned language {} _)
    (Quality.scan_kind _ _)
  exact ⟨result, next, hrun, haccounts⟩

/-- Two bindings in one statement, a release of nothing, a release of an array in the wrong way, a
call that is only remarked, and two allocations that are left. -/
def mixedSource : String :=
  "p = malloc(8); q = new int[3];\nfree(r); delete q; // q is an array\ngets(s); r = calloc(n, 4);"

def lineAnalyzer : Analyzer := { maxChars := some 100, chain := ScriptParser.absent.chain }

theorem analyze_accounts_mixed :
    lineAnalyzer.Standard ∧ lineAnalyzer.Admits mixedSource ∧
      lineAnalyzer.chain .cpp = [.line .cpp] ∧
      (LineScan.extract .cpp {} (Comment.strip mixedSource)).map (·.kind) =
        [.allocation, .allocation, .deallocation, .deallocation, .allocation] ∧
      ∃ result next,
        lineAnalyzer.analyze 1 (.text mixedSource) "mixed.cc" (.text "C++") = .ok (result, next) ∧
          result.Accounts (LineScan.extract .cpp {} (Comment.strip mixedSource)) := by
  have ha : lineAnalyzer.Standard := ⟨rfl, rfl, rfl⟩
  have hs : lineAnalyzer.Admits mixedSource := ⟨by decide, by intro limit h; cases h; decide⟩
  have hl : Language.resolve (.text (lineAnalyzer.requested (.text "C++"))) = .cpp := by
    decide +kernel
  exact ⟨ha, hs, rfl, by decide +kernel,
    analyze_accounts lineAnalyzer 1 mixedSource "mixed.cc" (.text "C++") .cpp ha hs hl rfl⟩

end Analyzer

end HeapAudit
