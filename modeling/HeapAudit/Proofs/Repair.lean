import HeapAudit.Proofs.Fates
import HeapAudit.Proofs.Hints
import HeapAudit.Proofs.Independence

namespace HeapAudit
open Text

namespace Ledger

/-- The same reports but for one leak, whose memory is freed. -/
structure Repaired (k : Leak) (f : Free) (l l' : Ledger) : Prop where
  allocations : l'.allocations = l.allocations
  warnings : l'.warnings = l.warnings
  leaks : ∃ before after, l.leaks = before ++ k :: after ∧ l'.leaks = before ++ after
  frees : ∃ before after, l.frees = before ++ after ∧ l'.frees = before ++ f :: after

/-- Two ledgers that go on alike after the repair. The memory in use is not compared: no report
depends on it. -/
structure Mended (k : Leak) (f : Free) (l l' : Ledger) : Prop extends Repaired k f l l' where
  language : l'.language = l.language
  serial : l'.serial = l.serial
  slot : ∀ var, l'.holdings.get? var = l.holdings.get? var

namespace Mended

variable {k : Leak} {f : Free} {l l' : Ledger} (h : Mended k f l l')

include h

theorem evict (var : String) (line : LineNo) :
    Mended k f (l.evict var line) (l'.evict var line) := by
  rcases vacant_or_held l var with hv | ⟨a, rest, hg⟩
  · rw [evict_vacant line hv, evict_vacant line (by rw [h.slot]; exact hv)]
    exact h
  · rw [evict_held line hg, evict_held line ((h.slot var).trans hg)]
    obtain ⟨before, after, hl, hl'⟩ := h.leaks
    refine ⟨⟨h.allocations, h.warnings, ?_, h.frees⟩, h.language, h.serial, ?_⟩
    · refine ⟨before, after ++ [leakOf a .reassignment
        (Advice.onReassignment l.language a line)], ?_, ?_⟩
      · simp [hl]
      · simp [hl', h.language]
    · intro other
      simp only [Holdings.get?_put, h.slot]

theorem tick : Mended k f l.tick l'.tick :=
  ⟨⟨h.allocations, h.warnings, h.leaks, h.frees⟩, h.language, congrArg (· + 1) h.serial, h.slot⟩

theorem enter (a : Allocation) : Mended k f (l.enter a) (l'.enter a) := by
  refine ⟨⟨congrArg (· ++ [a]) h.allocations, h.warnings, h.leaks, h.frees⟩, h.language, h.serial,
    ?_⟩
  intro other
  simp only [Ledger.enter, Holdings.get?_put, h.slot]

theorem warn (e : Event) (kind : WarningKind) (message : String) :
    Mended k f (l.warn e kind message) (l'.warn e kind message) :=
  ⟨⟨h.allocations, congrArg (· ++ _) h.warnings, h.leaks, h.frees⟩, h.language, h.serial, h.slot⟩

theorem release (e : Event) : Mended k f (l.release e) (l'.release e) := by
  have hslot := h.slot e.var
  cases hg : l.holdings.get? e.var with
  | none =>
    rw [release_missing hg, release_missing (hslot.trans hg)]
    exact h.warn e _ _
  | some stack =>
    cases stack with
    | nil =>
      rw [release_empty hg, release_empty (hslot.trans hg)]
      exact h.warn e _ _
    | cons a rest =>
      rw [release_held hg, release_held (hslot.trans hg)]
      obtain ⟨before, after, hf, hf'⟩ := h.frees
      refine ⟨⟨h.allocations, ?_, h.leaks, before, after ++ [freeOf a e], ?_, ?_⟩, h.language,
        h.serial, ?_⟩
      · simp only [h.warnings, h.language]
      · simp [hf]
      · simp [hf']
      · intro other
        simp only [Holdings.get?_keep, h.slot]

theorem process (estimate : Estimator) (e : Option Event) :
    Mended k f (l.process estimate e) (l'.process estimate e) := by
  have hturn : Mended k f (l.handle estimate e).1 (l'.handle estimate e).1 := by
    have t := handle_turn estimate l e
    generalize (l.handle estimate e).1 = next at t
    cases t with
    | idle he =>
      rw [(Turn.idle he : Turn estimate l' e l').handle_eq]
      exact h
    | @bound e size hv hk hs =>
      have hs' : estimate.size l'.language e = .ok size := by rwa [h.language]
      have hrec : l'.record e size = l.record e size := by simp only [record, h.serial]
      rw [(Turn.bound hv hk hs').handle_eq, hrec]
      exact (h.evict e.var e.line).tick.enter _
    | @refused e fault hv hk hs =>
      have hs' : estimate.size l'.language e = .error fault := by rwa [h.language]
      rw [(Turn.refused hv hk hs').handle_eq]
      exact (h.evict e.var e.line).tick
    | @released e hv hk =>
      rw [(Turn.released hv hk : Turn estimate l' (some e) _).handle_eq]
      exact h.release e
  exact ⟨⟨hturn.allocations, hturn.warnings, hturn.leaks, hturn.frees⟩, hturn.language,
    hturn.serial, hturn.slot⟩

theorem feed (estimate : Estimator) (stream : List (Option Event)) :
    Mended k f (l.feed estimate stream) (l'.feed estimate stream) := by
  induction stream generalizing l l' with
  | nil => exact h
  | cons e stream ih => exact ih (h.process estimate e)

theorem finish (hk : Kept l) (hk' : Kept l') (hf : l.finished = false) (hf' : l'.finished = false) :
    Repaired k f l.finish l'.finish := by
  have hsame : l'.unreleased = l.unreleased := by
    rw [hk.unreleased_eq, hk'.unreleased_eq, h.allocations]
    simp only [h.slot]
  obtain ⟨before, after, hl, hl'⟩ := h.leaks
  rw [finish_open hf, finish_open hf', hsame, h.language]
  refine ⟨h.allocations, h.warnings, ⟨before, after ++ l.unreleased.map fun a =>
    leakOf a .unreleased (Advice.onUnreleased l.language a), ?_, ?_⟩, h.frees⟩
  · simp [hl]
  · simp [hl']

end Mended

/-- Memory released in the way that fits is freed without a remark. -/
theorem release_fitting {l : Ledger} {d : Event} {a : Allocation}
    (hg : l.holdings.get? d.var = some [a]) (hr : Advice.release? a.primitive = some d.primitive) :
    l.release d =
      { l with
        frees := l.frees ++ [freeOf a d]
        memory := l.memory - a.size
        holdings := l.holdings.erase d.var } := by
  have hm : mismatch? l.language a d = none := by
    simp [mismatch?, Advice.mismatched, hr]
  rw [release_held hg, hm]
  simp [Holdings.keep]

/-- The release before the variable is bound again. -/
theorem Mended.of_bound {estimate : Estimator} {l : Ledger} {e d : Event} {size : Int}
    {a : Allocation} (hv : e.var ≠ "") (hk : e.kind = .allocation)
    (hsize : estimate.size l.language e = .ok size) (hg : l.holdings.get? e.var = some [a])
    (hd : d.kind = .deallocation) (hdv : d.var = e.var)
    (hr : Advice.release? a.primitive = some d.primitive) :
    Mended (leakOf a .reassignment (Advice.onReassignment l.language a e.line)) (freeOf a d)
      (l.process estimate (some e))
      ((l.process estimate (some d)).process estimate (some e)) := by
  have hfirst : l.process estimate (some d) = (l.release d).sample d.line :=
    process_released (hdv ▸ hv) hd
  rw [release_fitting (hdv ▸ hg) hr] at hfirst
  have hvacant : ((l.process estimate (some d)).holdings.get? e.var).getD [] = [] := by
    rw [hfirst]
    simp [sample, Holdings.get?_erase, hdv]
  have hsize' : estimate.size (l.process estimate (some d)).language e = .ok size := by
    rw [process_language]
    exact hsize
  rw [process_bound hv hk hsize, process_bound hv hk hsize', evict_held e.line hg,
    evict_vacant e.line hvacant, hfirst]
  refine ⟨⟨rfl, rfl, ⟨l.leaks, [], rfl, ?_⟩, ⟨l.frees, [], ?_, rfl⟩⟩, rfl, rfl, ?_⟩
  · exact (List.append_nil _).symm
  · exact (List.append_nil _).symm
  · -- The eviction has left an empty stack, the release none, and the new record fills either.
    intro other
    change ((l.holdings.erase d.var).put e.var
        (l.record e size :: ((l.holdings.erase d.var).get? e.var).getD [])).get? other =
      ((l.holdings.put e.var []).put e.var
        (l.record e size :: ((l.holdings.put e.var []).get? e.var).getD [])).get? other
    simp only [Holdings.get?_put, Holdings.get?_erase, hdv]
    by_cases ho : other = e.var
    · simp [ho]
    · simp [ho]

/-- What is left of the unreleased once one of them is released. -/
theorem Kept.unreleased_released {l next : Ledger} {var : String} {a : Allocation} (hk : Kept l)
    (hk' : Kept next) (hg : l.holdings.get? var = some [a])
    (ha : next.allocations = l.allocations)
    (hs : ∀ other, next.holdings.get? other = if other = var then none else l.holdings.get? other) :
    ∃ before after, l.unreleased = before ++ a :: after ∧ next.unreleased = before ++ after := by
  obtain ⟨hvar, hin⟩ := hk.sound.own var [a] hg a List.mem_cons_self
  subst hvar
  have hnodup : l.allocations.Nodup := hk.numbered.distinct.of_map _
  obtain ⟨before, after, hsplit⟩ := List.append_of_mem hin
  rw [hsplit] at hnodup
  have hnot : ∀ b ∈ before ++ after, b ≠ a := by
    rintro b hb rfl
    exact (List.nodup_cons.mp (List.nodup_middle.mp hnodup)).1 hb
  -- A record beside `a` is held in the same way before and after, for `a` was alone.
  have hother : ∀ b ∈ before ++ after, (b ∈ (next.holdings.get? b.var).getD [] ↔
      b ∈ (l.holdings.get? b.var).getD []) := by
    intro b hb
    rw [hs]
    by_cases hv : b.var = a.var
    · simp [hv, hg, hnot b hb]
    · simp [hv]
  rw [hk.unreleased_eq, hk'.unreleased_eq, ha, hsplit]
  refine ⟨before.filter fun b => b ∈ (l.holdings.get? b.var).getD [],
    after.filter fun b => b ∈ (l.holdings.get? b.var).getD [], ?_, ?_⟩
  · rw [List.filter_append, List.filter_cons_of_pos (by simp [hg])]
  · rw [List.filter_append, List.filter_cons_of_neg (by simp [hs])]
    congr 1
    · exact List.filter_congr fun b hb => by simp [hother b (List.mem_append_left _ hb)]
    · exact List.filter_congr fun b hb => by simp [hother b (List.mem_append_right _ hb)]

/-- The release at the end of the books. -/
theorem Repaired.of_end (estimate : Estimator) {l : Ledger} {d : Event} {a : Allocation}
    (hk : Kept l) (hf : l.finished = false) (hg : l.holdings.get? d.var = some [a])
    (hv : d.var ≠ "") (hd : d.kind = .deallocation)
    (hr : Advice.release? a.primitive = some d.primitive) :
    Repaired (leakOf a .unreleased (Advice.onUnreleased l.language a)) (freeOf a d) l.finish
      (l.process estimate (some d)).finish := by
  have hk' : Kept (l.process estimate (some d)) := hk.process estimate (some d)
  have hf' : (l.process estimate (some d)).finished = false :=
    (process_finished estimate l (some d)).trans hf
  have hfirst : l.process estimate (some d) = (l.release d).sample d.line :=
    process_released hv hd
  rw [release_fitting hg hr] at hfirst
  have hleft := hk.unreleased_released hk' hg (by rw [hfirst]; rfl) fun other => by
    rw [hfirst]
    exact Holdings.get?_erase l.holdings d.var other
  rw [finish_open hf, finish_open hf']
  obtain ⟨before, after, hu, hu'⟩ := hleft
  rw [hu, hu', process_language, hfirst]
  let report := fun b => leakOf b .unreleased (Advice.onUnreleased l.language b)
  refine ⟨rfl, rfl, ⟨l.leaks ++ before.map report, after.map report, ?_, ?_⟩,
    ⟨l.frees, [], ?_, rfl⟩⟩
  · simp [report]
  · simp [report, sample]
  · exact (List.append_nil _).symm

/-- The free of the memory that a leak reports. -/
def freeOfLeak (k : Leak) (d : Event) : Free :=
  { var := d.var, line := d.line, primitive := d.primitive, freed := k.id, lineText := d.lineText }

/-- An event enters the books and reports a leak: it binds a variable that holds memory. -/
structure Evicts (language : Language) (serial : Nat) (earlier : List Event) (e : Event)
    (k : Leak) : Prop where
  kind : e.kind = .allocation
  var : e.var = k.var
  leaks : (after .standard language serial (earlier ++ [e])).leaks =
    (after .standard language serial earlier).leaks ++ [k]

/-- An event reports at most one leak, of the memory that its variable holds. -/
theorem process_leaks (estimate : Estimator) (l : Ledger) (e : Event) :
    (l.process estimate (some e)).leaks = l.leaks ∨
      ∃ a rest, e.var ≠ "" ∧ e.kind = .allocation ∧
        l.holdings.get? e.var = some (a :: rest) ∧
        (l.process estimate (some e)).leaks =
          l.leaks ++ [leakOf a .reassignment (Advice.onReassignment l.language a e.line)] := by
  have hevict : (l.evict e.var e.line).leaks = l.leaks ∨
      ∃ a rest, l.holdings.get? e.var = some (a :: rest) ∧ (l.evict e.var e.line).leaks =
        l.leaks ++ [leakOf a .reassignment (Advice.onReassignment l.language a e.line)] := by
    rcases vacant_or_held l e.var with hv | ⟨a, rest, hg⟩
    · exact .inl (by rw [evict_vacant e.line hv])
    · exact .inr ⟨a, rest, hg, by rw [evict_held e.line hg]⟩
  have hleaks : (l.process estimate (some e)).leaks = (l.handle estimate (some e)).1.leaks := rfl
  rw [hleaks]
  have t := handle_turn estimate l (some e)
  generalize (l.handle estimate (some e)).1 = next at t
  cases t with
  | idle he => exact .inl rfl
  | bound hv hk hs => exact hevict.imp_right fun ⟨a, rest, hg, hl⟩ => ⟨a, rest, hv, hk, hg, hl⟩
  | refused hv hk hs => exact hevict.imp_right fun ⟨a, rest, hg, hl⟩ => ⟨a, rest, hv, hk, hg, hl⟩
  | released hv hk => exact .inl (release_frame l e).2.2.2.2.1

/-- Every allocation on the books is the record of an event. -/
theorem process_allocations (estimate : Estimator) (l : Ledger) (e : Event) :
    ∀ a ∈ (l.process estimate (some e)).allocations, a ∈ l.allocations ∨
      (e.kind = .allocation ∧ a.var = e.var ∧ a.primitive = e.primitive) := by
  intro a ha
  change a ∈ (l.handle estimate (some e)).1.allocations at ha
  have t := handle_turn estimate l (some e)
  generalize (l.handle estimate (some e)).1 = next at t ha
  cases t with
  | idle he => exact .inl ha
  | @bound _ size hv hk hs =>
    change a ∈ (l.evict e.var e.line).allocations ++ [l.record e size] at ha
    rw [evict_allocations, List.mem_append, List.mem_singleton] at ha
    exact ha.imp_right fun he => ⟨hk, by rw [he]; rfl, by rw [he]; rfl⟩
  | refused hv hk hs =>
    change a ∈ (l.evict e.var e.line).allocations at ha
    exact .inl (evict_allocations l e.var e.line ▸ ha)
  | released hv hk => exact .inl ((release_frame l e).2.2.2.1 ▸ ha)

section Stream

variable {language : Language} {serial : Nat} {events : List Event}

theorem after_recorded {a : Allocation}
    (ha : a ∈ (after .standard language serial events).allocations) :
    ∃ e ∈ events, e.kind = .allocation ∧ a.var = e.var ∧ a.primitive = e.primitive := by
  induction events using List.reverseRecOn with
  | nil => cases ha
  | append_singleton events e ih =>
    rw [after_concat] at ha
    rcases process_allocations .standard _ e a ha with ha | he
    · obtain ⟨x, hx, hrest⟩ := ih ha
      exact ⟨x, List.mem_append_left _ hx, hrest⟩
    · exact ⟨e, by simp, he⟩

/-- The event that reports a leak, as the holdings see it. -/
theorem Evicts.held {earlier : List Event} {e : Event} {k : Leak}
    (h : Evicts language serial earlier e k) :
    ∃ a, e.var ≠ "" ∧ (after .standard language serial earlier).holdings.get? e.var = some [a] ∧
      k = leakOf a .reassignment (Advice.onReassignment language a e.line) := by
  have hleaks := h.leaks
  rw [after_concat] at hleaks
  rcases process_leaks .standard (after .standard language serial earlier) e with
    hnone | ⟨a, rest, hv, -, hg, hone⟩
  · rw [hnone] at hleaks
    simp at hleaks
  · rw [hone, after_language] at hleaks
    have hrest := (after_kept .standard language serial earlier).sound.alone hg
    subst hrest
    exact ⟨a, hv, hg, by simpa using hleaks.symm⟩

/-- A leak that is on the books before they are closed was reported by some event. -/
theorem evicted_by {k : Leak} (hk : k ∈ (after .standard language serial events).leaks) :
    ∃ earlier e later, events = earlier ++ e :: later ∧ Evicts language serial earlier e k := by
  induction events using List.reverseRecOn with
  | nil => cases hk
  | append_singleton events e ih =>
    have hkept : k ∈ (after .standard language serial events).leaks →
        ∃ earlier x later, events ++ [e] = earlier ++ x :: later ∧
          Evicts language serial earlier x k := by
      intro hin
      obtain ⟨earlier, x, later, rfl, hx⟩ := ih hin
      exact ⟨earlier, x, later ++ [e], by simp, hx⟩
    have hconcat : after .standard language serial (events ++ [e]) =
        (after .standard language serial events).process .standard (some e) := after_concat events e
    rw [hconcat] at hk
    rcases process_leaks .standard (after .standard language serial events) e with
      hnone | ⟨a, rest, -, hkind, hg, hone⟩
    · exact hkept (hnone ▸ hk)
    · rw [hone] at hk
      rcases List.mem_append.mp hk with hin | hin
      · exact hkept hin
      · rw [List.mem_singleton] at hin
        subst hin
        have hs := (after_kept .standard language serial events).sound
        have hvar : a.var = e.var := (hs.own e.var _ hg a List.mem_cons_self).1
        exact ⟨events, e, [], rfl, hkind, hvar.symm, by rw [hconcat, hone]⟩

/-- A leak was reported by an event, or its memory is live at the end. -/
theorem run_leak {k : Leak} (hk : k ∈ (run .standard (fresh language serial) events).leaks) :
    (∃ earlier e later, events = earlier ++ e :: later ∧ Evicts language serial earlier e k) ∨
      ∃ a, (after .standard language serial events).holdings.get? a.var = some [a] ∧
        k = leakOf a .unreleased (Advice.onUnreleased language a) := by
  rw [run_eq_after, finish_open (after_open ..), after_language] at hk
  rcases List.mem_append.mp hk with hin | hin
  · exact .inl (evicted_by hin)
  · obtain ⟨a, ha, rfl⟩ := List.mem_map.mp hin
    have hkept := after_kept .standard language serial events
    rw [hkept.unreleased_eq, List.mem_filter, decide_eq_true_iff] at ha
    refine .inr ⟨a, ?_, rfl⟩
    rcases vacant_or_held (after .standard language serial events) a.var with
      hv | ⟨b, rest, hg⟩
    · rw [hv] at ha
      cases ha.2
    · have hrest := hkept.sound.alone hg
      subst hrest
      have hab : a = b := by simpa [hg] using ha.2
      rwa [← hab] at hg

/-- A leak is of memory that an event of the stream has acquired. -/
theorem leak_recorded {k : Leak} (hk : k ∈ (run .standard (fresh language serial) events).leaks) :
    ∃ e ∈ events, e.kind = .allocation ∧ k.var = e.var ∧ k.primitive = e.primitive := by
  have hheld : ∀ {earlier : List Event} {var : String} {a : Allocation},
      (after .standard language serial earlier).holdings.get? var = some [a] →
      ∃ e ∈ earlier, e.kind = .allocation ∧ a.var = e.var ∧ a.primitive = e.primitive := by
    intro earlier var a hg
    have hown := (after_kept .standard language serial earlier).sound.own var [a] hg a
      List.mem_cons_self
    exact after_recorded hown.2
  rcases run_leak hk with ⟨earlier, e, later, rfl, hev⟩ | ⟨a, hg, rfl⟩
  · obtain ⟨a, -, hg, rfl⟩ := hev.held
    obtain ⟨x, hx, hfields⟩ := hheld hg
    exact ⟨x, List.mem_append_left _ hx, hfields⟩
  · exact hheld hg

variable {k : Leak} {d : Event}

theorem run_repaired_before {earlier later : List Event} {e : Event}
    (hl : language.isCFamily = true) (h : Evicts language serial earlier e k)
    (hd : d.kind = .deallocation) (hv : d.var = k.var)
    (hr : Advice.release? k.primitive = some d.primitive) :
    Repaired k (freeOfLeak k d) (run .standard (fresh language serial) (earlier ++ e :: later))
      (run .standard (fresh language serial) (earlier ++ d :: e :: later)) := by
  obtain ⟨a, hne, hg, rfl⟩ := h.held
  obtain ⟨size, hs⟩ := Estimator.standard_cfamily hl e
  have hs' : Estimator.standard.size (after .standard language serial earlier).language e =
      .ok size := by
    rwa [after_language]
  have hmended := Mended.of_bound hne h.kind hs' hg hd (hv.trans h.var.symm) hr
  rw [after_language] at hmended
  have hfed := hmended.feed .standard (later.map some)
  have hfirst : after .standard language serial (earlier ++ e :: later) =
      ((after .standard language serial earlier).process .standard (some e)).feed .standard
        (later.map some) := after_append earlier (e :: later)
  have hsecond : after .standard language serial (earlier ++ d :: e :: later) =
      (((after .standard language serial earlier).process .standard (some d)).process .standard
        (some e)).feed .standard (later.map some) := after_append earlier (d :: e :: later)
  rw [← hfirst, ← hsecond] at hfed
  rw [run_eq_after, run_eq_after]
  exact hfed.finish (after_kept ..) (after_kept ..) (after_open ..) (after_open ..)

theorem run_repaired_end (hk : k ∈ (run .standard (fresh language serial) events).leaks)
    (hkind : k.kind = .unreleased) (hd : d.kind = .deallocation) (hv : d.var = k.var)
    (hne : d.var ≠ "") (hr : Advice.release? k.primitive = some d.primitive) :
    Repaired k (freeOfLeak k d) (run .standard (fresh language serial) events)
      (run .standard (fresh language serial) (events ++ [d])) := by
  rcases run_leak hk with ⟨earlier, e, later, -, hev⟩ | ⟨a, hg, rfl⟩
  · obtain ⟨a, -, -, rfl⟩ := hev.held
    cases hkind
  · have hgd : (after .standard language serial events).holdings.get? d.var = some [a] := by
      rw [hv]
      exact hg
    have h := Repaired.of_end .standard (after_kept ..) (after_open ..) hgd hne hd hr
    rw [after_language] at h
    rw [run_eq_after, run_eq_after, after_concat]
    exact h

end Stream

/-- In C and C++ the advice on a leak repairs it. It is read back as one release of the variable;
entered at the end, or right before the event that loses the memory, it turns the leak into a free
and leaves every other report as it was. -/
theorem hint_repairs (language : Language) (hl : language.isCFamily = true) (serial : Nat)
    (events : List Event) (hname : ∀ e ∈ events, IsName e.var.toList)
    (hprimitive : ∀ e ∈ events, e.kind = .allocation →
      (Advice.release? e.primitive).isSome = true)
    (k : Leak) (hk : k ∈ (run .standard (fresh language serial) events).leaks) :
    ∃ d, LineScan.extract language {} (Advice.hint language k.var k.primitive) = [d] ∧
      d.kind = .deallocation ∧ d.var = k.var ∧
      ∀ line : LineNo,
        (k.kind = .unreleased →
          Repaired k (freeOfLeak k { d with line }) (run .standard (fresh language serial) events)
            (run .standard (fresh language serial) (events ++ [{ d with line }]))) ∧
        (k.kind = .reassignment →
          (∃ earlier e later, events = earlier ++ e :: later ∧
            Evicts language serial earlier e k) ∧
          ∀ earlier e later, events = earlier ++ e :: later → Evicts language serial earlier e k →
            Repaired k (freeOfLeak k { d with line })
              (run .standard (fresh language serial) events)
              (run .standard (fresh language serial)
                (earlier ++ { d with line } :: e :: later))) := by
  obtain ⟨e, he, hkind, hvar, hprim⟩ := leak_recorded hk
  obtain ⟨release, hr⟩ := Option.isSome_iff_exists.mp (hprimitive e he hkind)
  have hn : IsName k.var.toList := hvar ▸ hname e he
  rw [← hprim] at hr
  obtain ⟨d, hextract, hd, hv, hp⟩ := Advice.extract_hint hl hn hr
  rw [← hp] at hr
  have hne : d.var ≠ "" := by
    rw [hv]
    intro hempty
    exact hn.1 (by rw [hempty]; rfl)
  refine ⟨d, hextract, hd, hv, fun line => ⟨?_, ?_⟩⟩
  · intro hunreleased
    exact run_repaired_end hk hunreleased hd hv hne hr
  · intro hreassigned
    refine ⟨?_, ?_⟩
    · rcases run_leak hk with hev | ⟨a, -, rfl⟩
      · exact hev
      · cases hreassigned
    · rintro earlier x later rfl hev
      exact run_repaired_before hl hev hd hv hr

def rebound : List Event :=
  [{ kind := .allocation, var := "p", line := some 1, primitive := "malloc",
      arguments := .text "8" },
    { kind := .allocation, var := "größe", line := some 2, primitive := "new[]",
      arguments := .text "3" },
    { kind := .allocation, var := "p", line := some 3, primitive := "new" },
    { kind := .deallocation, var := "p", line := some 4, primitive := "delete" }]

def lostInRebound : Leak :=
  { var := "p", line := some 1, primitive := "malloc", size := 8, inLoop := false
    function := none, kind := .reassignment
    fix := "Memory leak: p was reassigned on line 3 without freeing the previous allocation on " ++
      "line 1. Add free(p); before the reassignment."
    id := "p_line1_000000000001" }

/-- The release is entered between the second and the third event. -/
theorem hint_repairs_rebound :
    (∀ e ∈ rebound, IsName e.var.toList) ∧
      (∀ e ∈ rebound, e.kind = .allocation → (Advice.release? e.primitive).isSome = true) ∧
      lostInRebound ∈ (run .standard (fresh .cpp 1) rebound).leaks ∧
      ∃ d, LineScan.extract .cpp {} "free(p);" = [d] ∧
        Repaired lostInRebound (freeOfLeak lostInRebound { d with line := some 2 })
          (run .standard (fresh .cpp 1) rebound)
          (run .standard (fresh .cpp 1)
            (rebound.take 2 ++ { d with line := some 2 } :: rebound.drop 2)) := by
  have hname : ∀ e ∈ rebound, IsName e.var.toList := by decide +kernel
  have hprimitive : ∀ e ∈ rebound, e.kind = .allocation →
      (Advice.release? e.primitive).isSome = true := by decide +kernel
  have hin : lostInRebound ∈ (run .standard (fresh .cpp 1) rebound).leaks := by decide +kernel
  obtain ⟨d, hextract, -, -, hrepair⟩ :=
    hint_repairs .cpp rfl 1 rebound hname hprimitive lostInRebound hin
  have hhint : Advice.hint .cpp lostInRebound.var lostInRebound.primitive = "free(p);" := by
    decide +kernel
  rw [hhint] at hextract
  refine ⟨hname, hprimitive, hin, d, hextract, ?_⟩
  exact ((hrepair (some 2)).2 rfl).2 (rebound.take 2) _ _ rfl ⟨rfl, rfl, by decide +kernel⟩

end Ledger

end HeapAudit
