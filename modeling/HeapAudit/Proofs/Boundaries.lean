import HeapAudit.Proofs.ScopeStack

namespace HeapAudit
open Text

/-- An event as it is found some lines further down. -/
def Event.lowered (count : Nat) (e : Event) : Event :=
  { e with line := e.line.map (· + (count : Int)) }

namespace LineScan

variable {language : Language} {tables : Tables}

def Pending.lowered (count : Nat) (p : Pending) : Pending := { p with line := p.line + count }

theorem Pending.events_lowered (p : Pending) (count : Nat) (scopes : List Scope) :
    (p.lowered count).events tables scopes =
      (p.events tables scopes).map (Event.lowered count) :=
  Pending.events_relined (f := (· + (count : Int))) (Int.natCast_add p.line count).symm scopes

theorem Pending.add_lowered (pending : Option Pending) (number count : Nat) (line : Chars) :
    Pending.add (pending.map (Pending.lowered count)) (number + count) line =
      (Pending.add pending number line).lowered count := by
  cases pending with
  | none => rfl
  | some p => rfl

/-- The same scan further down, after what had been found before. Where bodies are indented, the
depth of braces does not count. -/
structure Further (language : Language) (count : Nat) (found : List Event) (s s' : State) :
    Prop where
  depth : language.indented = false → s'.depth = s.depth
  pending : s'.pending = s.pending.map (Pending.lowered count)
  inDirective : s'.inDirective = s.inDirective
  events : s'.events = found ++ s.events.map (Event.lowered count)

section Line

variable {count : Nat} {found : List Event} {s s' : State}

theorem Further.skips (h : Further language count found s s') (line : Chars) :
    s'.skips language line = s.skips language line := by
  unfold State.skips State.isDirective
  rw [h.inDirective, h.pending, Option.isNone_map]

theorem Further.around (h : Further language count found s s') (hs : s'.scopes = s.scopes)
    (indentation : Nat) (line : Chars) :
    s'.around language indentation line = s.around language indentation line := by
  unfold State.around State.depthWith
  rw [hs, h.pending, Option.isNone_map]
  cases hl : language.indented with
  | true => rfl
  | false => rw [h.depth hl]

theorem Further.skip (h : Further language count found s s') (goesOn : Bool) :
    Further language count found { s with inDirective := goesOn }
      { s' with inDirective := goesOn } :=
  ⟨h.depth, h.pending, rfl, h.events⟩

/-- A line whose statement stands in the same scopes. -/
theorem Further.take (h : Further language count found s s') {indentation : Nat} {line : Chars}
    (ha : s'.around language indentation line = s.around language indentation line)
    (tables : Tables) (number : Nat) :
    Further language count found (s.take language tables number indentation line)
        (s'.take language tables (number + count) indentation line) ∧
      (s'.take language tables (number + count) indentation line).scopes =
        (s.take language tables number indentation line).scopes := by
  have hadd : Pending.add s'.pending (number + count) line =
      (Pending.add s.pending number line).lowered count := by
    rw [h.pending, Pending.add_lowered]
  have hcomp : completes language (Pending.add s'.pending (number + count) line) line =
      completes language (Pending.add s.pending number line) line := by
    rw [hadd]
    rfl
  have hdepth : language.indented = false → s'.depthWith line = s.depthWith line := by
    intro hl
    unfold State.depthWith
    rw [h.depth hl]
  rw [State.take_eq, State.take_eq]
  dsimp only
  rw [hcomp, ha, hadd]
  refine ⟨⟨hdepth, ?_, h.inDirective, ?_⟩, ?_⟩
  · cases completes language (Pending.add s.pending number line) line with
    | true => rfl
    | false => rfl
  · rw [h.events, List.map_append, List.append_assoc, Pending.events_lowered]
    cases completes language (Pending.add s.pending number line) line with
    | true => rfl
    | false => rfl
  · cases hl : language.indented with
    | true => rfl
    | false => simp only [Bool.false_eq_true, if_false, hdepth hl]

theorem Further.scanLine (h : Further language count found s s') (hs : s'.scopes = s.scopes)
    (tables : Tables) (number : Nat) (line : Chars) :
    Further language count found (s.scanLine language tables number line)
        (s'.scanLine language tables (number + count) line) ∧
      (s'.scanLine language tables (number + count) line).scopes =
        (s.scanLine language tables number line).scopes := by
  have hskips := h.skips line
  cases hk : s.skips language line with
  | true =>
    rw [State.scanLine_skipped hk, State.scanLine_skipped (hskips.trans hk), h.inDirective]
    exact ⟨h.skip _, hs⟩
  | false =>
    rw [State.scanLine_taken hk, State.scanLine_taken (hskips.trans hk)]
    exact h.take (h.around hs _ _) tables number

theorem Further.scanLines (h : Further language count found s s') (hs : s'.scopes = s.scopes)
    (tables : Tables) (number : Nat) (below : List Chars) :
    Further language count found (LineScan.scanLines language tables s number below)
        (LineScan.scanLines language tables s' (number + count) below) ∧
      (LineScan.scanLines language tables s' (number + count) below).scopes =
        (LineScan.scanLines language tables s number below).scopes := by
  induction below generalizing s s' number with
  | nil => exact ⟨h, hs⟩
  | cons line below ih =>
    obtain ⟨hnext, hscopes⟩ := h.scanLine hs tables number line
    have hrest := ih hnext hscopes (number + 1)
    rw [Nat.add_right_comm] at hrest
    exact hrest

theorem Further.flush (h : Further language count found s s') (hs : s'.scopes = s.scopes)
    (tables : Tables) :
    (s'.flush tables).events = found ++ (s.flush tables).events.map (Event.lowered count) := by
  unfold State.flush
  rw [h.pending]
  cases s.pending with
  | none => exact h.events
  | some p =>
    dsimp only [Option.map_some]
    rw [h.events, hs, Pending.events_lowered, List.map_append, List.append_assoc]

/-- The lines that are not passed over. -/
def readLines (language : Language) (tables : Tables) : State → Nat → List Chars → List Chars
  | _, _, [] => []
  | s, number, line :: rest =>
    let next := s.scanLine language tables number line
    let below := readLines language tables next (number + 1) rest
    if s.skips language line then below else line :: below

/-- A line at the margin is in no scope but its own. -/
theorem State.around_margin (hl : language.indented = true) (hp : s.pending = none)
    (hs : ∀ scope ∈ s.scopes, 0 ≤ scope.level) (line : Chars) :
    s.around language 0 line = Scope.openHeads 0 line [] := by
  have hclosed : Scope.closeIndented 0 s.scopes = [] := by
    apply List.dropWhile_eq_nil_iff.mpr
    intro scope hm
    simpa using hs scope hm
  simp [State.around, hl, hp, hclosed]

/-- Where bodies are indented, whatever is open is closed by the first line if that stands at the
margin. -/
theorem Further.scanLines_margin (hl : language.indented = true)
    (h : Further language count found s s') (hp : s.pending = none) (hs : s.scopes = [])
    (hlevels : ∀ scope ∈ s'.scopes, 0 ≤ scope.level) (tables : Tables) (number : Nat)
    (below : List Chars)
    (hfirst : ∀ line, (readLines language tables s number below).head? = some line →
      indent line = 0) :
    ((LineScan.scanLines language tables s' (number + count) below).flush tables).events =
      found ++ ((LineScan.scanLines language tables s number below).flush tables).events.map
        (Event.lowered count) := by
  -- Lines that are passed over leave the earlier scopes open; the first line that is read closes
  -- them, and from there on the scopes are the same.
  induction below generalizing s s' number with
  | nil =>
    have hp' : s'.pending = none := by rw [h.pending, hp, Option.map_none]
    simp only [LineScan.scanLines, State.flush, hp, hp']
    exact h.events
  | cons line below ih =>
    have hskips := h.skips line
    rw [LineScan.scanLines, LineScan.scanLines, Nat.add_right_comm]
    cases hk : s.skips language line with
    | true =>
      have hrest : readLines language tables s number (line :: below) =
          readLines language tables (s.scanLine language tables number line) (number + 1)
            below := by
        rw [readLines, if_pos hk]
      rw [hrest] at hfirst
      rw [State.scanLine_skipped hk] at hfirst ⊢
      rw [State.scanLine_skipped (hskips.trans hk), h.inDirective]
      exact ih (h.skip (if trim line = [] then s.inDirective else isContinued (trim line))) hp hs
        hlevels (number + 1) hfirst
    | false =>
      have hmargin : indent line = 0 := by
        apply hfirst line
        rw [readLines, hk]
        rfl
      have hp' : s'.pending = none := by rw [h.pending, hp, Option.map_none]
      have haround : s'.around language 0 (trim line) = s.around language 0 (trim line) := by
        rw [State.around_margin hl hp' hlevels, State.around_margin hl hp (by simp [hs])]
      rw [State.scanLine_taken hk, State.scanLine_taken (hskips.trans hk), hmargin]
      obtain ⟨hnext, hscopes⟩ := h.take haround tables number
      obtain ⟨hend, hopen⟩ := hnext.scanLines hscopes tables (number + 1) below
      exact hend.flush hopen tables

end Line

/-- Nothing of a source reaches into the next one: no statement is pending and no directive goes
on. With braces, the depth has never been negative and is back at zero; with indentation, the next
source starts at the margin. -/
structure Closed (language : Language) (tables : Tables) (source next : String) : Prop where
  pending : (scanLines language tables {} 1 (lines source.toList)).pending = none
  directive : (scanLines language tables {} 1 (lines source.toList)).inDirective = false
  braces : language.indented = false →
    (∀ above, above <+: lines source.toList →
      0 ≤ (scanLines language tables {} 1 above).depth) ∧
    (scanLines language tables {} 1 (lines source.toList)).depth = 0
  margin : language.indented = true →
    ∀ line, (readLines language tables {} 1 (lines next.toList)).head? = some line →
      indent line = 0

/-- Between statements no scope is open at depth zero, if the depth has never been negative. -/
theorem Closed.scopes {source next : String} (h : Closed language tables source next)
    (hl : language.indented = false) :
    (scanLines language tables {} 1 (lines source.toList)).scopes = [] := by
  obtain ⟨hdepth, hzero⟩ := h.braces hl
  have hsettled := (start_orderly.scanLines tables 1 hl (lines source.toList)).settled h.pending
  have hlevels := scanLines_level_nonneg tables 1 (s := {}) (by simp) (lines source.toList)
    (.inr hdepth)
  rw [hzero] at hsettled
  exact Scope.eq_nil_of_levels hsettled hlevels

theorem Closed.further {source next : String} (h : Closed language tables source next) :
    Further language (lines source.toList).length (extract language tables source) {}
      (scanLines language tables {} 1 (lines source.toList)) := by
  have hevents : extract language tables source =
      (scanLines language tables {} 1 (lines source.toList)).events := by
    simp only [extract, State.flush, h.pending]
  refine ⟨fun hl => (h.braces hl).2, h.pending, h.directive, ?_⟩
  rw [hevents]
  exact (List.append_nil _).symm

/-- A source after a closed one gives the events that it gives alone, further down. -/
theorem extract_after_closed (language : Language) (tables : Tables) (source next : String)
    (h : Closed language tables source next) :
    extract language tables (source ++ "\n" ++ next) =
      extract language tables source ++
        (extract language tables next).map (Event.lowered (lines source.toList).length) := by
  have hlines : lines (source ++ "\n" ++ next).toList =
      lines source.toList ++ lines next.toList := by
    rw [String.toList_append, String.toList_append, List.append_assoc]
    exact lines_newline source.toList next.toList
  have hwhole : extract language tables (source ++ "\n" ++ next) =
      ((scanLines language tables (scanLines language tables {} 1 (lines source.toList))
        (1 + (lines source.toList).length) (lines next.toList)).flush tables).events := by
    rw [extract, hlines, scanLines_append]
  rw [hwhole]
  cases hl : language.indented with
  | true =>
    have hlevels := scanLines_level_nonneg tables 1 (s := {}) (by simp) (lines source.toList)
      (.inl hl)
    exact h.further.scanLines_margin hl rfl rfl hlevels tables 1 _ (h.margin hl)
  | false =>
    obtain ⟨hend, hopen⟩ := h.further.scanLines (h.scopes hl) tables 1 (lines next.toList)
    exact hend.flush hopen tables

/-- A function that acquires memory and, after it, a loop that releases it: with braces, and
indented. -/
theorem extract_after_closed_function :
    Closed .c {} "int f() \x7b\np = malloc(4);\n\x7d" "while (q) free(p);" ∧
      extract .c {} ("int f() \x7b\np = malloc(4);\n\x7d" ++ "\n" ++ "while (q) free(p);") =
        extract .c {} "int f() \x7b\np = malloc(4);\n\x7d" ++
          (extract .c {} "while (q) free(p);").map (Event.lowered 3) ∧
      Closed .python {} "def f():\n p = malloc(4)" "# next\nwhile q: free(p)" ∧
      extract .python {} ("def f():\n p = malloc(4)" ++ "\n" ++ "# next\nwhile q: free(p)") =
        extract .python {} "def f():\n p = malloc(4)" ++
          (extract .python {} "# next\nwhile q: free(p)").map (Event.lowered 2) := by
  have hbraces : Closed .c {} "int f() \x7b\np = malloc(4);\n\x7d" "while (q) free(p);" := by
    refine ⟨by decide, by decide, fun _ => ⟨?_, by decide⟩, nofun⟩
    intro above hp
    rw [← List.mem_inits] at hp
    revert above
    decide
  have hindented : Closed .python {} "def f():\n p = malloc(4)" "# next\nwhile q: free(p)" := by
    refine ⟨by decide, by decide, nofun, fun _ line hf => ?_⟩
    have hline : line = "while q: free(p)".toList := by
      have hhead : (readLines .python {} {} 1 (lines "# next\nwhile q: free(p)".toList)).head? =
          some "while q: free(p)".toList := by decide
      exact Option.some.inj (hf.symm.trans hhead)
    rw [hline]
    decide
  exact ⟨hbraces, extract_after_closed .c {} _ _ hbraces, hindented,
    extract_after_closed .python {} _ _ hindented⟩

end LineScan

end HeapAudit
