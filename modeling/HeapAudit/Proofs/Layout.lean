import HeapAudit.Proofs.ScopeStack

namespace HeapAudit
open Text

namespace Text

/-- Lines laid out anew: blanks at the ends of a line come and go, and so do blank lines. -/
inductive Relaid : List Chars → List Chars → Prop
  | nil : Relaid [] []
  | line {line line' : Chars} {rest rest' : List Chars} (h : trim line = trim line')
      (hr : Relaid rest rest') : Relaid (line :: rest) (line' :: rest')
  | inserted {line : Chars} {rest rest' : List Chars} (h : trim line = [])
      (hr : Relaid rest rest') : Relaid rest (line :: rest')
  | deleted {line : Chars} {rest rest' : List Chars} (h : trim line = [])
      (hr : Relaid rest rest') : Relaid (line :: rest) rest'

/-- The lines that are not blank, trimmed, each with its number. -/
def inkedLines : (number : Nat) → List Chars → List (Nat × Chars)
  | _, [] => []
  | number, line :: rest =>
    if trim line = [] then inkedLines (number + 1) rest
    else (number, trim line) :: inkedLines (number + 1) rest

theorem inkedLines_blank {line : Chars} (h : trim line = []) (number : Nat) (rest : List Chars) :
    inkedLines number (line :: rest) = inkedLines (number + 1) rest :=
  if_pos h

theorem inkedLines_inked {line : Chars} (h : trim line ≠ []) (number : Nat) (rest : List Chars) :
    inkedLines number (line :: rest) = (number, trim line) :: inkedLines (number + 1) rest :=
  if_neg h

/-- Layout changes none of the texts. -/
theorem Relaid.inked {ls ls' : List Chars} (h : Relaid ls ls') (number number' : Nat) :
    (inkedLines number ls).map Prod.snd = (inkedLines number' ls').map Prod.snd := by
  induction h generalizing number number' with
  | nil => rfl
  | @line line line' rest rest' ht _ ih =>
    by_cases hn : trim line = []
    · rw [inkedLines_blank hn, inkedLines_blank (ht ▸ hn), ih]
    · rw [inkedLines_inked hn, inkedLines_inked (ht ▸ hn), List.map_cons, List.map_cons, ih, ht]
  | inserted hn _ ih => rw [inkedLines_blank hn, ih]
  | deleted hn _ ih => rw [inkedLines_blank hn, ih]

/-- Texts that agree but for blank lines and blanks at the ends of lines are layouts of one text. -/
theorem relaid_of_inked {ls ls' : List Chars} {number number' : Nat}
    (h : (inkedLines number ls).map Prod.snd = (inkedLines number' ls').map Prod.snd) :
    Relaid ls ls' := by
  induction ls generalizing ls' number number' with
  | nil =>
    induction ls' generalizing number' with
    | nil => exact .nil
    | cons line' rest' ih =>
      by_cases hn : trim line' = []
      · rw [inkedLines_blank hn] at h
        exact .inserted hn (ih h)
      · rw [inkedLines_inked hn] at h
        cases h
  | cons line rest ih =>
    by_cases hn : trim line = []
    · rw [inkedLines_blank hn] at h
      exact .deleted hn (ih h)
    · induction ls' generalizing number' with
      | nil =>
        rw [inkedLines_inked hn] at h
        cases h
      | cons line' rest' ih' =>
        by_cases hn' : trim line' = []
        · rw [inkedLines_blank hn'] at h
          exact .inserted hn' (ih' h)
        · rw [inkedLines_inked hn, inkedLines_inked hn'] at h
          obtain ⟨ht, hrest⟩ := List.cons.inj h
          exact .line ht (ih hrest)

instance : DecidableRel Relaid := fun ls ls' =>
  decidable_of_iff ((inkedLines 1 ls).map Prod.snd = (inkedLines 1 ls').map Prod.snd)
    ⟨relaid_of_inked, fun h => h.inked 1 1⟩

theorem inkedLines_ge {number : Nat} {ls : List Chars} :
    ∀ l ∈ inkedLines number ls, number ≤ l.1 := by
  induction ls generalizing number with
  | nil => simp [inkedLines]
  | cons line rest ih =>
    intro l hl
    by_cases hn : trim line = []
    · rw [inkedLines_blank hn] at hl
      have := ih l hl
      omega
    · rw [inkedLines_inked hn] at hl
      rcases List.mem_cons.mp hl with rfl | hl
      · exact le_refl _
      · have := ih l hl
        omega

/-- The numbers of lines ascend. -/
theorem inkedLines_pairwise (number : Nat) (ls : List Chars) :
    (inkedLines number ls).Pairwise fun l l' => l.1 < l'.1 := by
  induction ls generalizing number with
  | nil => exact List.Pairwise.nil
  | cons line rest ih =>
    by_cases hn : trim line = []
    · rw [inkedLines_blank hn]
      exact ih _
    · rw [inkedLines_inked hn, List.pairwise_cons]
      refine ⟨?_, ih _⟩
      intro l hl
      have := inkedLines_ge l hl
      dsimp only
      omega

theorem inkedLines_nodup (number : Nat) (ls : List Chars) :
    ((inkedLines number ls).map Prod.fst).Nodup := by
  rw [List.Nodup, List.pairwise_map]
  exact (inkedLines_pairwise number ls).imp Nat.ne_of_lt

/-- A line that is not blank, where it stands. -/
theorem mem_inkedLines {number : Nat} {ls : List Chars} {l : Nat × Chars}
    (h : l ∈ inkedLines number ls) :
    ∃ n line, ls[n]? = some line ∧ l = (number + n, trim line) := by
  induction ls generalizing number with
  | nil => cases h
  | cons line rest ih =>
    have hlater : l ∈ inkedLines (number + 1) rest →
        ∃ n line', (line :: rest)[n]? = some line' ∧ l = (number + n, trim line') := by
      intro hr
      obtain ⟨n, line', hget, rfl⟩ := ih hr
      refine ⟨n + 1, line', by simpa using hget, ?_⟩
      simp only [Prod.mk.injEq, and_true]
      omega
    by_cases hn : trim line = []
    · rw [inkedLines_blank hn] at h
      exact hlater h
    · rw [inkedLines_inked hn] at h
      rcases List.mem_cons.mp h with rfl | h
      · exact ⟨0, line, rfl, rfl⟩
      · exact hlater h

/-- The number that a line has in another layout: that of the line as far down among those that are
not blank. -/
def renumber (ls ls' : List Chars) (number : Nat) : Nat :=
  ((inkedLines 1 ls').map Prod.fst).getD (((inkedLines 1 ls).map Prod.fst).idxOf number) number

/-- Each line that is not blank is found again under its new number. -/
theorem Relaid.renumber {ls ls' : List Chars} (h : Relaid ls ls') :
    inkedLines 1 ls' = (inkedLines 1 ls).map (Prod.map (renumber ls ls') id) := by
  have htexts := h.inked 1 1
  have hlength : (inkedLines 1 ls).length = (inkedLines 1 ls').length := by
    simpa using congrArg List.length htexts
  apply List.ext_getElem
  · rw [List.length_map, hlength]
  · intro i hi' him
    have hi : i < (inkedLines 1 ls).length := hlength ▸ hi'
    have hindex : ((inkedLines 1 ls).map Prod.fst).idxOf (inkedLines 1 ls)[i].1 = i := by
      rw [← List.getElem_map Prod.fst (h := by simpa using hi)]
      exact (inkedLines_nodup 1 ls).idxOf_getElem i _
    have htext : (inkedLines 1 ls)[i].2 = (inkedLines 1 ls')[i].2 := by
      simpa [hi, hi'] using congrArg (·[i]?) htexts
    rw [List.getElem_map]
    refine Prod.ext ?_ htext.symm
    simp [Text.renumber, hindex, hi']

end Text

namespace LineScan

variable {language : Language} {tables : Tables}

/-- A scan whose lines have other numbers. -/
def State.relined (f : Nat → Nat) (s : State) : State :=
  { s with
    pending := s.pending.map fun p => { p with line := f p.line }
    events := s.events.map (Event.relined fun n => f n.toNat) }

section Line

variable (f : Nat → Nat) (s : State) (number : Nat) (line : Chars)

theorem Pending.add_relined :
    Pending.add (s.relined f).pending (f number) line =
      { Pending.add s.pending number line with
        line := f (Pending.add s.pending number line).line } := by
  unfold Pending.add State.relined
  cases s.pending with
  | none => rfl
  | some p => rfl

theorem State.skips_relined : (s.relined f).skips language line = s.skips language line := by
  simp [State.skips, State.isDirective, State.relined]

theorem State.around_relined (indentation : Nat) :
    (s.relined f).around language indentation line = s.around language indentation line := by
  simp [State.around, State.depthWith, State.relined]

/-- The numbers of lines decide nothing. -/
theorem State.scanLine_relined :
    (s.relined f).scanLine language tables (f number) line =
      (s.scanLine language tables number line).relined f := by
  cases hk : s.skips language line with
  | true =>
    rw [State.scanLine_skipped hk, State.scanLine_skipped ((s.skips_relined f line).trans hk)]
    rfl
  | false =>
    rw [State.scanLine_taken hk, State.scanLine_taken ((s.skips_relined f line).trans hk),
      State.take_eq, State.take_eq, Pending.add_relined, State.around_relined]
    generalize Pending.add s.pending number (trim line) = p
    have hcompletes : completes language { p with line := f p.line } (trim line) =
        completes language p (trim line) := rfl
    have hevents : ∀ scopes, { p with line := f p.line }.events tables scopes =
        (p.events tables scopes).map (Event.relined fun n => f n.toNat) :=
      Pending.events_relined rfl
    cases hc : completes language p (trim line) with
    | true => simp [State.relined, State.depthWith, hcompletes, hc, hevents]
    | false => simp [State.relined, State.depthWith, hcompletes, hc]

end Line

/-- Where bodies are not indented, the indentation of a line does not count. -/
theorem State.scanLine_trim (hl : language.indented = false) (s : State) (number : Nat)
    (line : Chars) :
    s.scanLine language tables number (trim line) = s.scanLine language tables number line := by
  have hskips : s.skips language (trim line) = s.skips language line := by
    unfold State.skips
    rw [trim_trim]
  cases hk : s.skips language line with
  | true => rw [State.scanLine_skipped hk, State.scanLine_skipped (hskips.trans hk), trim_trim]
  | false =>
    rw [State.scanLine_taken hk, State.scanLine_taken (hskips.trans hk), trim_trim, State.take_eq,
      State.take_eq]
    simp [State.around, hl]

/-- A scan of lines that have their numbers with them. -/
def scanNumbered (language : Language) (tables : Tables) (s : State) (ls : List (Nat × Chars)) :
    State :=
  ls.foldl (fun s l => s.scanLine language tables l.1 l.2) s

theorem scanLines_eq_scanNumbered (hl : language.indented = false) (s : State) (number : Nat)
    (ls : List Chars) :
    scanLines language tables s number ls =
      scanNumbered language tables s (inkedLines number ls) := by
  induction ls generalizing s number with
  | nil => rfl
  | cons line rest ih =>
    rw [scanLines, ih]
    by_cases hn : trim line = []
    · rw [State.scanLine_blank hn, inkedLines_blank hn]
    · rw [inkedLines_inked hn, ← State.scanLine_trim hl]
      rfl

theorem scanNumbered_relined (f : Nat → Nat) (s : State) (ls : List (Nat × Chars)) :
    scanNumbered language tables (s.relined f) (ls.map (Prod.map f id)) =
      (scanNumbered language tables s ls).relined f := by
  induction ls generalizing s with
  | nil => rfl
  | cons l ls ih =>
    change scanNumbered language tables
      ((s.relined f).scanLine language tables (f l.1) l.2) (ls.map (Prod.map f id)) = _
    rw [State.scanLine_relined, ih]
    rfl

theorem State.flush_relined (f : Nat → Nat) (s : State) :
    ((s.relined f).flush tables).events =
      (s.flush tables).events.map (Event.relined fun n => f n.toNat) := by
  unfold State.flush State.relined
  cases hp : s.pending with
  | none => rfl
  | some p =>
    have hevents : { p with line := f p.line }.events tables s.scopes =
        (p.events tables s.scopes).map (Event.relined fun n => f n.toNat) :=
      Pending.events_relined rfl s.scopes
    simp [hevents]

/-- An event on one of some numbered lines. -/
def Located (ls : List (Nat × Chars)) (e : Event) : Prop :=
  ∃ l ∈ ls, e.line = some (l.1 : Int) ∧ e.lineText = String.ofList l.2

theorem segmentEvents_place {scopes : List Scope} {number : Nat} {head segment : Chars} {e : Event}
    (h : e ∈ segmentEvents tables scopes number head segment) :
    e.line = some (number : Int) ∧ e.lineText = String.ofList head := by
  rcases List.mem_append.mp h with h | h
  · obtain ⟨found, -, rfl⟩ := Option.map_eq_some_iff.mp (Option.mem_toList.mp h)
    exact ⟨rfl, rfl⟩
  · obtain ⟨found, -, rfl⟩ := Option.map_eq_some_iff.mp (Option.mem_toList.mp h)
    exact ⟨rfl, rfl⟩

theorem Pending.events_located {ls : List (Nat × Chars)} {p : Pending} (h : (p.line, p.head) ∈ ls)
    (scopes : List Scope) : ∀ e ∈ p.events tables scopes, Located ls e := by
  intro e he
  obtain ⟨segment, -, hs⟩ := List.mem_flatMap.mp he
  exact ⟨_, h, segmentEvents_place hs⟩

/-- A scan whose events and whose statement are on some numbered lines. -/
structure State.Located (ls : List (Nat × Chars)) (s : State) : Prop where
  pending : ∀ p, s.pending = some p → (p.line, p.head) ∈ ls
  events : ∀ e ∈ s.events, LineScan.Located ls e

namespace State.Located

variable {ls : List (Nat × Chars)} {s : State}

theorem add (h : s.Located ls) {number : Nat} {line : Chars} (hin : (number, line) ∈ ls) :
    ((Pending.add s.pending number line).line, (Pending.add s.pending number line).head) ∈ ls := by
  cases hp : s.pending with
  | none => exact hin
  | some p => exact h.pending p hp

theorem scanLine (h : s.Located ls) {number : Nat} {line : Chars}
    (hin : trim line ≠ [] → (number, trim line) ∈ ls) :
    (s.scanLine language tables number line).Located ls := by
  cases hk : s.skips language line with
  | true =>
    rw [State.scanLine_skipped hk]
    exact ⟨h.pending, h.events⟩
  | false =>
    have hn : trim line ≠ [] := by
      rintro hn
      simp [State.skips, hn] at hk
    have hadd := h.add (hin hn)
    rw [State.scanLine_taken hk]
    cases hc : completes language (Pending.add s.pending number (trim line)) (trim line) with
    | true =>
      obtain ⟨hp, -, scopes, he⟩ := State.take_completed tables (indent line) hc
      refine ⟨by simp [hp], ?_⟩
      rw [he]
      intro e hin
      rcases List.mem_append.mp hin with hin | hin
      · exact h.events e hin
      · exact Pending.events_located hadd scopes e hin
    | false =>
      obtain ⟨hp, -, he⟩ := State.take_open tables (indent line) hc
      refine ⟨?_, by rw [he]; exact h.events⟩
      intro p hsome
      rw [hp] at hsome
      cases hsome
      exact hadd

theorem scanLines (h : s.Located ls) {number : Nat} {below : List Chars}
    (hin : inkedLines number below ⊆ ls) :
    (LineScan.scanLines language tables s number below).Located ls := by
  induction below generalizing s number with
  | nil => exact h
  | cons line below ih =>
    by_cases hn : trim line = []
    · rw [inkedLines_blank hn] at hin
      exact ih (h.scanLine (absurd hn)) hin
    · rw [inkedLines_inked hn, List.cons_subset] at hin
      exact ih (h.scanLine fun _ => hin.1) hin.2

end State.Located

/-- Every event is on a line that is not blank, and shows its text. -/
theorem extract_located (language : Language) (tables : Tables) (source : String) :
    ∀ e ∈ extract language tables source, Located (inkedLines 1 (lines source.toList)) e := by
  have hstart : ({} : State).Located (inkedLines 1 (lines source.toList)) := ⟨nofun, nofun⟩
  have hend : (scanLines language tables {} 1 (lines source.toList)).Located
      (inkedLines 1 (lines source.toList)) :=
    hstart.scanLines (List.Subset.refl _)
  unfold extract State.flush
  generalize scanLines language tables {} 1 (lines source.toList) = s at hend
  cases hp : s.pending with
  | none => exact hend.events
  | some p =>
    intro e he
    rcases List.mem_append.mp he with he | he
    · exact hend.events e he
    · exact Pending.events_located (hend.pending p hp) s.scopes e he

/-- A source laid out anew gives the same events on the same lines, whose numbers are those of the
new layout: the lines that are not blank correspond in order, and every event is on one of them. -/
theorem extract_relaid (language : Language) (tables : Tables) (source source' : String)
    (hl : language ≠ .python) (h : Relaid (lines source.toList) (lines source'.toList)) :
    extract language tables source' =
        (extract language tables source).map (Event.relined fun n =>
          renumber (lines source.toList) (lines source'.toList) n.toNat) ∧
      inkedLines 1 (lines source'.toList) =
        (inkedLines 1 (lines source.toList)).map
          (Prod.map (renumber (lines source.toList) (lines source'.toList)) id) ∧
      ∀ e ∈ extract language tables source, Located (inkedLines 1 (lines source.toList)) e := by
  have hi : language.indented = false := by
    rw [Bool.eq_false_iff]
    exact mt Language.indented_iff.mp hl
  refine ⟨?_, h.renumber, extract_located language tables source⟩
  unfold extract
  rw [scanLines_eq_scanNumbered hi, scanLines_eq_scanNumbered hi, h.renumber,
    ← State.flush_relined, ← scanNumbered_relined]
  rfl

/-- A directive over two lines, and a statement over three in a body. -/
def tight : String :=
  "#define SIZE \\\n4\nint main() \x7b\nint *p = malloc(\nSIZE\n); free(p);\n\x7d"

/-- The same with indentation, trailing blanks, and blank lines inside the directive and inside the
statement. -/
def loose : String :=
  "\n  #define SIZE \\ \n \n\t4\nint main() \x7b \n\n" ++
    "   int *p = malloc(\n\n\n     SIZE\n \n   ); free(p);\n\x7d\n"

theorem extract_relaid_loose :
    Language.c ≠ .python ∧
      Relaid (lines tight.toList) (lines loose.toList) ∧
      (extract .c {} tight).map (fun e => (e.var, e.line)) = [("p", some 4), ("p", some 4)] ∧
      renumber (lines tight.toList) (lines loose.toList) 4 = 7 ∧
      extract .c {} loose =
        (extract .c {} tight).map (Event.relined fun n =>
          renumber (lines tight.toList) (lines loose.toList) n.toNat) := by
  have h : Relaid (lines tight.toList) (lines loose.toList) := by decide +kernel
  exact ⟨by decide, h, by decide +kernel, by decide +kernel,
    (extract_relaid .c {} tight loose (by decide) h).1⟩

end LineScan

end HeapAudit
