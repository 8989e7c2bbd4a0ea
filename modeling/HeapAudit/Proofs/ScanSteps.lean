import HeapAudit.LineScan
import HeapAudit.Proofs.Lines

namespace HeapAudit

/-- An event as it is found on another line. -/
def Event.relined (f : Int → Int) (e : Event) : Event := { e with line := e.line.map f }

namespace LineScan
open Text

variable {language : Language} {tables : Tables} {s : State} {number : Nat} {line : Chars}

theorem State.scanLine_blank (h : trim line = []) :
    s.scanLine language tables number line = s := by
  simp [State.scanLine, h]

theorem State.scanLine_directive (hn : trim line ≠ [])
    (hd : s.isDirective language (trim line) = true) :
    s.scanLine language tables number line =
      { s with inDirective := isContinued (trim line) } := by
  simp [State.scanLine, hn, hd]

theorem State.scanLine_read (hn : trim line ≠ [])
    (hd : s.isDirective language (trim line) = false) :
    s.scanLine language tables number line =
      s.take language tables number (indent line) (trim line) := by
  simp [State.scanLine, hn, hd]

/-- Whether a line is passed over: a blank line, a directive or a line that continues one. -/
def State.skips (language : Language) (s : State) (line : Chars) : Bool :=
  (trim line).isEmpty || s.isDirective language (trim line)

theorem State.scanLine_skipped (h : s.skips language line = true) :
    s.scanLine language tables number line =
      { s with
        inDirective := if trim line = [] then s.inDirective else isContinued (trim line) } := by
  by_cases hn : trim line = []
  · rw [if_pos hn, State.scanLine_blank hn]
  · have hd : s.isDirective language (trim line) = true := by simpa [State.skips, hn] using h
    rw [if_neg hn, State.scanLine_directive hn hd]

theorem State.scanLine_taken (h : s.skips language line = false) :
    s.scanLine language tables number line =
      s.take language tables number (indent line) (trim line) := by
  simp only [State.skips, Bool.or_eq_false_iff, List.isEmpty_eq_false_iff] at h
  exact State.scanLine_read h.1 h.2

/-- The depth after the braces of a line. -/
def State.depthWith (s : State) (line : Chars) : Int :=
  s.depth + (line.count '{' : Nat) - (line.count '}' : Nat)

/-- The scopes around the statement of a line, those of its own heads included. -/
def State.around (language : Language) (s : State) (indentation : Nat) (line : Chars) :
    List Scope :=
  if language.indented then
    Scope.openHeads indentation line
      (if s.pending.isNone then Scope.closeIndented indentation s.scopes else s.scopes)
  else Scope.markBraced (s.depthWith line) (Scope.openHeads s.depth line s.scopes)

/-- Everything a line that is read does to a scan. -/
theorem State.take_eq (language : Language) (tables : Tables) (s : State)
    (number indentation : Nat) (line : Chars) :
    s.take language tables number indentation line =
      let completed := completes language (Pending.add s.pending number line) line
      let around := s.around language indentation line
      { scopes := if language.indented then around
          else Scope.closeBraced (s.depthWith line) (0 < line.count '}') completed around
        depth := s.depthWith line
        pending := if completed then none else some (Pending.add s.pending number line)
        inDirective := s.inDirective
        events := s.events ++
          if completed then (Pending.add s.pending number line).events tables around else [] } := by
  unfold State.take State.around State.depthWith
  cases hi : language.indented with
  | true =>
    cases hc : completes language (Pending.add s.pending number line) line with
    | true => simp [hc, State.flush]
    | false => simp [hc]
  | false =>
    cases hc : completes language (Pending.add s.pending number line) line with
    | true => simp [hc, State.flush]
    | false => simp [hc]

/-- A line that completes the statement ends it. -/
theorem State.take_completed (tables : Tables) (indentation : Nat)
    (hc : completes language (Pending.add s.pending number line) line = true) :
    (s.take language tables number indentation line).pending = none ∧
      (s.take language tables number indentation line).inDirective = s.inDirective ∧
      ∃ scopes, (s.take language tables number indentation line).events =
        s.events ++ (Pending.add s.pending number line).events tables scopes := by
  rw [State.take_eq]
  simp only [hc, if_true]
  exact ⟨trivial, trivial, _, rfl⟩

/-- Any other line is added to it. -/
theorem State.take_open (tables : Tables) (indentation : Nat)
    (hc : completes language (Pending.add s.pending number line) line = false) :
    (s.take language tables number indentation line).pending =
        some (Pending.add s.pending number line) ∧
      (s.take language tables number indentation line).inDirective = s.inDirective ∧
      (s.take language tables number indentation line).events = s.events := by
  rw [State.take_eq]
  simp [hc]

theorem scanLines_append (s : State) (number : Nat) (above below : List Chars) :
    scanLines language tables s number (above ++ below) =
      scanLines language tables (scanLines language tables s number above)
        (number + above.length) below := by
  induction above generalizing s number with
  | nil => rfl
  | cons line above ih =>
    rw [List.cons_append, scanLines, ih, scanLines, List.length_cons]
    congr 1
    omega

theorem endsWith_iff {c : Char} {cs : Chars} :
    endsWith [c] cs = true ↔ cs.getLast? = some c := by
  unfold endsWith
  rw [List.isSuffixOf_iff_suffix, List.getLast?_eq_some_iff]
  constructor
  · rintro ⟨before, rfl⟩
    exact ⟨before, rfl⟩
  · rintro ⟨before, rfl⟩
    exact ⟨before, rfl⟩

theorem isContinued_iff {cs : Chars} : isContinued cs = true ↔ cs.getLast? = some '\\' :=
  endsWith_iff

theorem endsWith_congr {c : Char} {cs ds : Chars} (h : cs.getLast? = ds.getLast?) :
    endsWith [c] cs = endsWith [c] ds := by
  rw [Bool.eq_iff_iff, endsWith_iff, endsWith_iff, h]

theorem isContinued_congr {cs ds : Chars} (h : cs.getLast? = ds.getLast?) :
    isContinued cs = isContinued ds :=
  endsWith_congr h

/-- Where lines do not end statements, the last character of a line alone decides whether the
statement is complete. -/
theorem completes_congr (hl : language.endsAtNewline = false) (p q : Pending) {cs ds : Chars}
    (h : cs.getLast? = ds.getLast?) : completes language p cs = completes language q ds := by
  unfold completes
  simp only [hl, isContinued_congr h, endsWith_congr h, Bool.false_eq_true, if_false]

section Found

variable {P : Event → Prop}
  (h : ∀ scopes number head segment, ∀ e ∈ segmentEvents tables scopes number head segment, P e)

include h

theorem Pending.events_forall (p : Pending) (scopes : List Scope) :
    ∀ e ∈ p.events tables scopes, P e := by
  intro e he
  obtain ⟨segment, -, hs⟩ := List.mem_flatMap.mp he
  exact h _ _ _ _ e hs

theorem State.scanLine_forall (hs : ∀ e ∈ s.events, P e) (number : Nat) (line : Chars) :
    ∀ e ∈ (s.scanLine language tables number line).events, P e := by
  by_cases hn : trim line = []
  · rw [State.scanLine_blank hn]
    exact hs
  · cases hd : s.isDirective language (trim line) with
    | true =>
      rw [State.scanLine_directive hn hd]
      exact hs
    | false =>
      rw [State.scanLine_read hn hd]
      cases hc : completes language (Pending.add s.pending number (trim line)) (trim line) with
      | true =>
        obtain ⟨-, -, scopes, he⟩ := State.take_completed tables (indent line) hc
        rw [he]
        intro e hin
        rcases List.mem_append.mp hin with hin | hin
        · exact hs e hin
        · exact Pending.events_forall h _ scopes e hin
      | false =>
        obtain ⟨-, -, he⟩ := State.take_open tables (indent line) hc
        rw [he]
        exact hs

theorem scanLines_forall (hs : ∀ e ∈ s.events, P e) (number : Nat) (below : List Chars) :
    ∀ e ∈ (scanLines language tables s number below).events, P e := by
  induction below generalizing s number with
  | nil => exact hs
  | cons line below ih => exact ih (State.scanLine_forall h hs number line) (number + 1)

/-- What every segment gives, a source gives. -/
theorem extract_forall (source : String) : ∀ e ∈ extract language tables source, P e := by
  have hscan : ∀ e ∈ (scanLines language tables {} 1 (lines source.toList)).events, P e :=
    scanLines_forall h (by simp) 1 (lines source.toList)
  unfold extract State.flush
  generalize scanLines language tables {} 1 (lines source.toList) = s at hscan ⊢
  cases hp : s.pending with
  | none => exact hscan
  | some p =>
    intro e hin
    rcases List.mem_append.mp hin with hin | hin
    · exact hscan e hin
    · exact Pending.events_forall h p s.scopes e hin

end Found

/-- The events of a statement are on its first line, and in the scopes around it. -/
theorem Pending.events_told {p : Pending} {scopes : List Scope} :
    ∀ e ∈ p.events tables scopes, e.line = some (p.line : Int) ∧
      e.function = Scope.function? scopes ∧ e.inLoop = Scope.inLoop scopes := by
  intro e he
  obtain ⟨segment, -, hs⟩ := List.mem_flatMap.mp he
  rcases List.mem_append.mp hs with hs | hs
  · obtain ⟨found, -, rfl⟩ := Option.map_eq_some_iff.mp (Option.mem_toList.mp hs)
    exact ⟨rfl, rfl, rfl⟩
  · obtain ⟨found, -, rfl⟩ := Option.map_eq_some_iff.mp (Option.mem_toList.mp hs)
    exact ⟨rfl, rfl, rfl⟩

section Relined

variable {f : Int → Int}

theorem segmentEvents_relined {other : Nat} (h : f number = other) (scopes : List Scope)
    (head segment : Chars) :
    segmentEvents tables scopes other head segment =
      (segmentEvents tables scopes number head segment).map (Event.relined f) := by
  have ha : acquisition? tables scopes other head segment =
      (acquisition? tables scopes number head segment).map (Event.relined f) := by
    unfold acquisition?
    rw [Option.map_map]
    simp [Function.comp_def, Event.relined, h]
  have hr : release? tables scopes other head segment =
      (release? tables scopes number head segment).map (Event.relined f) := by
    unfold release?
    rw [Option.map_map]
    simp [Function.comp_def, Event.relined, h]
  unfold segmentEvents
  rw [ha, hr, List.map_append, Option.toList_map, Option.toList_map]

theorem Pending.events_relined {p : Pending} {other : Nat} (h : f p.line = other)
    (scopes : List Scope) :
    { p with line := other }.events tables scopes =
      (p.events tables scopes).map (Event.relined f) := by
  unfold Pending.events
  rw [List.map_flatMap]
  simp only [← segmentEvents_relined h]
  rfl

end Relined

end LineScan

end HeapAudit
