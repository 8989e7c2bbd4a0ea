import HeapAudit.Proofs.ScopeStack

namespace HeapAudit
open Text

namespace Scope

theorem openHeads_append (level : Int) (line : Chars) (scopes : List Scope) :
    openHeads level line scopes = openHeads level line [] ++ scopes := by
  unfold openHeads
  cases Heading.functionName? line with
  | none =>
    dsimp only
    split <;> rfl
  | some name =>
    dsimp only
    split <;> rfl

theorem openHeads_level {level : Int} {line : Chars} :
    ∀ head ∈ openHeads level line [], head.level = level := by
  intro head hm
  obtain ⟨heads, he, hl⟩ := openHeads_eq level line []
  rw [he, List.append_nil] at hm
  exact (hl head hm).1

section Close

variable {indentation : Int} {inner outer : List Scope}

theorem closeIndented_suffix (indentation : Int) (scopes : List Scope) :
    closeIndented indentation scopes <:+ scopes :=
  List.dropWhile_suffix _

theorem closeIndented_eq_nil (h : ∀ scope ∈ inner, indentation ≤ scope.level) :
    closeIndented indentation inner = [] :=
  List.dropWhile_eq_nil_iff.mpr fun scope hm => decide_eq_true (h scope hm)

/-- If all the inner scopes are closed, so are the outer ones from the inside. -/
theorem closeIndented_append (h : ∀ scope ∈ inner, indentation ≤ scope.level) :
    closeIndented indentation (inner ++ outer) = closeIndented indentation outer :=
  List.dropWhile_append_of_pos fun scope hm => decide_eq_true (h scope hm)

/-- If one of them stays open, so do all the outer ones. -/
theorem closeIndented_shielded (h : ∃ scope ∈ inner, scope.level < indentation) :
    closeIndented indentation (inner ++ outer) = closeIndented indentation inner ++ outer := by
  obtain ⟨scope, hm, hl⟩ := h
  unfold closeIndented
  rw [List.dropWhile_append, if_neg]
  intro hnil
  have hall := List.dropWhile_eq_nil_iff.mp (List.isEmpty_iff.mp hnil) scope hm
  exact hl.not_ge (of_decide_eq_true hall)

theorem closeIndented_level {level : Int} (h : ∀ scope ∈ inner, scope.level = level) :
    closeIndented indentation inner = if indentation ≤ level then [] else inner := by
  split
  · rename_i hle
    exact closeIndented_eq_nil fun scope hm => (h scope hm).symm ▸ hle
  · rename_i hle
    cases inner with
    | nil => rfl
    | cons scope inner =>
      refine List.dropWhile_cons_of_neg ?_
      rw [h scope List.mem_cons_self]
      simpa using hle

end Close

end Scope

namespace LineScan

/-- A line that is read: its number, its indentation and its text without the blanks at its ends,
and whether it starts a statement. -/
structure Reading where
  number : Nat
  indentation : Nat
  line : Chars
  starts : Bool

/-- The scopes opened on it, innermost first. -/
def Reading.heads (r : Reading) : List Scope := Scope.openHeads r.indentation r.line []

theorem Reading.heads_level (r : Reading) : ∀ head ∈ r.heads, head.level = r.indentation :=
  Scope.openHeads_level

/-- The lines that a scan reads, in order. -/
def readings (language : Language) (tables : Tables) :
    (s : State) → (number : Nat) → List Chars → List Reading
  | _, _, [] => []
  | s, number, line :: rest =>
    let below := readings language tables (s.scanLine language tables number line) (number + 1) rest
    if s.skips language line then below
    else ⟨number, indent line, trim line, s.pending.isNone⟩ :: below

/-- The leftmost of a scope and the scopes opened on some lines. -/
def leftmost (indentation : Nat) : List Reading → Nat
  | [] => indentation
  | r :: rest => leftmost (if r.heads = [] then indentation else min indentation r.indentation) rest

/-- Whether a scope is open after the lines that follow its head: every statement that starts on one
of them stands right of it, or right of a scope opened since. -/
def outlasts (indentation : Nat) : List Reading → Bool
  | [] => true
  | r :: rest =>
    !(r.starts && decide (r.indentation ≤ indentation)) &&
      outlasts (if r.heads = [] then indentation else min indentation r.indentation) rest

/-- The scopes opened on some lines that outlast the lines after them, innermost first. -/
def stillOpen : List Reading → List Scope
  | [] => []
  | r :: rest => stillOpen rest ++ if outlasts r.indentation rest then r.heads else []

section Open

variable {rs : List Reading} {indentation : Nat}

theorem leftmost_le (indentation : Nat) (rs : List Reading) :
    leftmost indentation rs ≤ indentation := by
  induction rs generalizing indentation with
  | nil => exact le_rfl
  | cons r rest ih =>
    refine (ih _).trans ?_
    split
    · exact le_rfl
    · exact min_le_left _ _

theorem leftmost_le_of_mem (indentation : Nat) {r : Reading} (hm : r ∈ rs) (hh : r.heads ≠ []) :
    leftmost indentation rs ≤ r.indentation := by
  induction rs generalizing indentation with
  | nil => cases hm
  | cons first rest ih =>
    rcases List.mem_cons.mp hm with rfl | hm
    · rw [leftmost, if_neg hh]
      exact (leftmost_le _ _).trans (min_le_right _ _)
    · exact ih _ hm

theorem outlasts_concat (r : Reading) :
    outlasts indentation (rs ++ [r]) =
      (outlasts indentation rs &&
        !(r.starts && decide (r.indentation ≤ leftmost indentation rs))) := by
  induction rs generalizing indentation with
  | nil =>
    rw [List.nil_append, outlasts, outlasts, outlasts, leftmost, Bool.and_true, Bool.true_and]
  | cons first rest ih => rw [List.cons_append, outlasts, ih, outlasts, leftmost, Bool.and_assoc]

theorem mem_stillOpen {scope : Scope} (h : scope ∈ stillOpen rs) :
    ∃ r ∈ rs, scope ∈ r.heads ∧ scope.level = r.indentation := by
  induction rs with
  | nil => cases h
  | cons r rest ih =>
    rcases List.mem_append.mp h with h | h
    · obtain ⟨other, hm, ho⟩ := ih h
      exact ⟨other, List.mem_cons_of_mem r hm, ho⟩
    · split at h
      · exact ⟨r, List.mem_cons_self, h, r.heads_level scope h⟩
      · cases h

/-- Right of a scope that is open, some scope opened since is open if any was opened at all. -/
theorem exists_stillOpen {bound : Nat} (ho : outlasts indentation rs = true)
    (hb : bound ≤ indentation) (hl : leftmost indentation rs < bound) :
    ∃ scope ∈ stillOpen rs, scope.level < bound := by
  induction rs generalizing indentation with
  | nil => exact absurd hl hb.not_gt
  | cons r rest ih =>
    rw [outlasts, Bool.and_eq_true] at ho
    rw [leftmost] at hl
    by_cases hr : r.heads = [] ∨ bound ≤ r.indentation
    · obtain ⟨scope, hm, hlevel⟩ := ih ho.2 (by split <;> simp_all) hl
      exact ⟨scope, List.mem_append_left _ hm, hlevel⟩
    · -- The scope of this line is the leftmost so far, so it lasts as long as the given one.
      obtain ⟨hheads, hlt⟩ := not_or.mp hr
      have hmin : min indentation r.indentation = r.indentation := by omega
      rw [if_neg hheads, hmin] at ho
      obtain ⟨head, heads, hcons⟩ := List.exists_cons_of_ne_nil hheads
      have hm : head ∈ r.heads := hcons ▸ List.mem_cons_self
      refine ⟨head, ?_, ?_⟩
      · rw [stillOpen, if_pos ho.2]
        exact List.mem_append_right _ hm
      · rw [r.heads_level head hm]
        omega

/-- A scope that is open and the scopes opened since are closed together, from the inside. -/
theorem closeIndented_stillOpen {first : Reading} (ho : outlasts first.indentation rs = true)
    (bound : Nat) :
    Scope.closeIndented bound (stillOpen rs ++ first.heads) =
      Scope.closeIndented bound (stillOpen rs) ++
        if leftmost first.indentation rs < bound then first.heads else [] := by
  by_cases hin : ∃ scope ∈ stillOpen rs, scope.level < bound
  · have hleft : leftmost first.indentation rs < bound := by
      obtain ⟨scope, hm, hl⟩ := hin
      obtain ⟨r, hr, hh, hlevel⟩ := mem_stillOpen hm
      have hle := leftmost_le_of_mem first.indentation hr (List.ne_nil_of_mem hh)
      omega
    rw [if_pos hleft, Scope.closeIndented_shielded hin]
  · have hall : ∀ scope ∈ stillOpen rs, (bound : Int) ≤ scope.level := by
      intro scope hm
      by_contra hl
      exact hin ⟨scope, hm, not_le.mp hl⟩
    rw [Scope.closeIndented_append hall, Scope.closeIndented_eq_nil hall, List.nil_append,
      Scope.closeIndented_level first.heads_level]
    by_cases hle : (bound : Int) ≤ first.indentation
    · have hleft : ¬ leftmost first.indentation rs < bound := by
        intro hlt
        exact hin (exists_stillOpen ho (by omega) hlt)
      rw [if_pos hle, if_neg hleft]
    · have hfirst := leftmost_le first.indentation rs
      rw [if_neg hle, if_pos (by omega)]

/-- A line more: the start of a statement closes what it can from the inside, and the heads of the
line go inside what is left. -/
theorem stillOpen_concat (rs : List Reading) (r : Reading) :
    stillOpen (rs ++ [r]) =
      r.heads ++
        if r.starts then Scope.closeIndented r.indentation (stillOpen rs) else stillOpen rs := by
  induction rs with
  | nil => cases r.starts <;> simp [stillOpen, outlasts, Scope.closeIndented]
  | cons first rest ih =>
    rw [List.cons_append, stillOpen, ih, stillOpen, outlasts_concat]
    cases r.starts with
    | false => simp
    | true =>
      cases ho : outlasts first.indentation rest with
      | false => simp
      | true => simp [closeIndented_stillOpen ho]

end Open

/-- No line that goes on with a statement opens a scope left of one that is open. -/
def Steady (rs : List Reading) : Prop :=
  ∀ n (_ : n < rs.length), rs[n].starts = false → rs[n].heads ≠ [] →
    ∀ scope ∈ stillOpen (rs.take n), scope.level ≤ rs[n].indentation

instance (rs : List Reading) : Decidable (Steady rs) :=
  inferInstanceAs (Decidable (∀ n (_ : n < rs.length), _))

namespace Steady

variable {rs : List Reading}

theorem append_left {more : List Reading} (h : Steady (rs ++ more)) : Steady rs := by
  intro n hn
  have hline := h n (by simp; omega)
  rwa [List.getElem_append_left hn, List.take_append_of_le_length hn.le] at hline

theorem last {r : Reading} (h : Steady (rs ++ [r])) (hs : r.starts = false)
    (hh : r.heads ≠ []) : ∀ scope ∈ stillOpen rs, scope.level ≤ r.indentation := by
  have hline := h rs.length (by simp)
  simp only [List.getElem_concat_length, List.take_left] at hline
  exact hline hs hh

/-- The scopes are nested then, as where braces delimit bodies. -/
theorem nested (h : Steady rs) : ∃ depth, Scope.Nested depth (stillOpen rs) := by
  induction rs using List.reverseRecOn with
  | nil => exact ⟨0, .nil, by simp [stillOpen]⟩
  | append_singleton rs r ih =>
    obtain ⟨depth, hn⟩ := ih h.append_left
    have hopen : ∀ scopes, Scope.Nested r.indentation scopes →
        Scope.Nested r.indentation (r.heads ++ scopes) := by
      intro scopes hs
      have hline := hs.openHeads r.line
      rwa [Scope.openHeads_append] at hline
    rw [stillOpen_concat]
    cases hs : r.starts with
    | true =>
      have hbelow : ∀ scope ∈ Scope.closeIndented r.indentation (stillOpen rs),
          scope.level < r.indentation := hn.dropWhile_below (by simp)
      have hleft := hn.suffix (Scope.closeIndented_suffix r.indentation (stillOpen rs))
      exact ⟨_, hopen _ ⟨hleft.inwards, fun scope hm => (hbelow scope hm).le⟩⟩
    | false =>
      by_cases hh : r.heads = []
      · rw [hh]
        exact ⟨depth, hn⟩
      · exact ⟨_, hopen _ ⟨hn.inwards, h.last hs hh⟩⟩

/-- So the start of a statement closes every scope that it does not stand right of. -/
theorem below (h : Steady rs) (indentation : Nat) :
    ∀ scope ∈ Scope.closeIndented indentation (stillOpen rs), scope.level < indentation := by
  obtain ⟨depth, hn⟩ := h.nested
  exact hn.dropWhile_below (by simp)

end Steady

/-- A statement among the lines that are read: its first line starts it, the other lines do not
start one, and the next line does. -/
structure IsStatement (rs before : List Reading) (first : Reading) (more after : List Reading) :
    Prop where
  split : rs = before ++ first :: more ++ after
  starts : first.starts = true
  goes_on : ∀ r ∈ more, r.starts = false
  ends : ∀ r ∈ after.head?, r.starts = true

/-- The scopes opened on the lines of a statement, innermost first. -/
def ownHeads (first : Reading) (more : List Reading) : List Scope :=
  (first :: more).reverse.flatMap Reading.heads

/-- What is open at the end of a statement is opened on its lines or left by its start. -/
theorem stillOpen_statement (before : List Reading) {first : Reading} {more : List Reading}
    (hs : first.starts = true) (hm : ∀ r ∈ more, r.starts = false) :
    stillOpen (before ++ first :: more) =
      ownHeads first more ++ Scope.closeIndented first.indentation (stillOpen before) := by
  induction more using List.reverseRecOn with
  | nil =>
    rw [stillOpen_concat, if_pos hs]
    simp [ownHeads]
  | append_singleton more r ih =>
    obtain ⟨hmore, hr⟩ := List.forall_mem_append.mp hm
    have hsplit : before ++ first :: (more ++ [r]) = before ++ first :: more ++ [r] := by simp
    have hown : ownHeads first (more ++ [r]) = r.heads ++ ownHeads first more := by
      simp [ownHeads]
    rw [hsplit, stillOpen_concat, if_neg (by simp [hr r List.mem_cons_self]), ih hmore, hown,
      List.append_assoc]

/-- An event of a statement, in the scopes that are open at its end. -/
structure Tells (before : List Reading) (first : Reading) (more : List Reading) (e : Event) :
    Prop where
  line : e.line = some (first.number : Int)
  function : e.function = Scope.function? (stillOpen (before ++ first :: more))
  inLoop : e.inLoop = Scope.inLoop (stillOpen (before ++ first :: more))

theorem Pending.events_tells {tables : Tables} {before more : List Reading} {first : Reading}
    {p : Pending} (hp : p.line = first.number) :
    ∀ e ∈ p.events tables (stillOpen (before ++ first :: more)), Tells before first more e := by
  intro e he
  obtain ⟨hline, hfunction, hloop⟩ := Pending.events_told e he
  exact ⟨hp ▸ hline, hfunction, hloop⟩

/-- A scan of some lines, where indentation delimits bodies. -/
structure State.Tracks (rs : List Reading) (s : State) : Prop where
  scopes : s.scopes = stillOpen rs
  pending : ∀ p, s.pending = some p →
    ∃ before first more, IsStatement rs before first more [] ∧ p.line = first.number
  events : ∀ e ∈ s.events, ∃ before first more after, IsStatement rs before first more after ∧
    Tells before first more e ∧ (after = [] → s.pending = none)

section Run

variable {language : Language} {tables : Tables} {rs : List Reading} {s : State}

theorem start_tracks : State.Tracks [] {} := ⟨rfl, by simp, by simp⟩

theorem readings_append (s : State) (number : Nat) (above below : List Chars) :
    readings language tables s number (above ++ below) =
      readings language tables s number above ++
        readings language tables (scanLines language tables s number above)
          (number + above.length) below := by
  induction above generalizing s number with
  | nil => rfl
  | cons line above ih =>
    have hnumber : number + (line :: above).length = number + 1 + above.length := by
      rw [List.length_cons]
      omega
    rw [List.cons_append, readings, ih, readings, hnumber, scanLines]
    split
    · rfl
    · rfl

/-- With a line more a statement is complete, or stays so. -/
theorem IsStatement.concat {before more after : List Reading} {first r : Reading}
    (h : IsStatement rs before first more after) (hr : after = [] → r.starts = true) :
    IsStatement (rs ++ [r]) before first more (after ++ [r]) := by
  refine ⟨by rw [h.split, List.append_assoc], h.starts, h.goes_on, ?_⟩
  cases after with
  | nil => simpa using hr rfl
  | cons next after => exact h.ends

/-- The statement that a line belongs to, when it has been read. -/
theorem State.Tracks.statement (h : s.Tracks rs) (number indentation : Nat) (line : Chars) :
    ∃ before first more,
      IsStatement (rs ++ [⟨number, indentation, line, s.pending.isNone⟩]) before first more [] ∧
        (Pending.add s.pending number line).line = first.number := by
  cases hp : s.pending with
  | none =>
    exact ⟨rs, ⟨number, indentation, line, true⟩, [], ⟨by simp, rfl, by simp, by simp⟩, rfl⟩
  | some p =>
    obtain ⟨before, first, more, hst, hline⟩ := h.pending p hp
    refine ⟨before, first, more ++ [⟨number, indentation, line, false⟩], ⟨?_, hst.starts, ?_, ?_⟩,
      hline⟩
    · rw [hst.split]
      simp
    · simpa [or_imp, forall_and] using hst.goes_on
    · simp

theorem State.Tracks.take (h : s.Tracks rs) (hl : language.indented = true)
    (number indentation : Nat) (line : Chars) :
    (s.take language tables number indentation line).Tracks
      (rs ++ [⟨number, indentation, line, s.pending.isNone⟩]) := by
  have haround : s.around language indentation line =
      stillOpen (rs ++ [⟨number, indentation, line, s.pending.isNone⟩]) := by
    rw [State.around, if_pos hl, Scope.openHeads_append, stillOpen_concat, h.scopes]
    rfl
  have hold : ∀ e ∈ s.events, ∃ before first more after,
      IsStatement (rs ++ [⟨number, indentation, line, s.pending.isNone⟩]) before first more
        after ∧ Tells before first more e ∧ after ≠ [] := by
    intro e he
    obtain ⟨before, first, more, after, hst, htells, hnone⟩ := h.events e he
    exact ⟨before, first, more, after ++ [_], hst.concat fun ha => by simp [hnone ha], htells,
      by simp⟩
  obtain ⟨before, first, more, hst, hline⟩ := h.statement number indentation line
  rw [State.take_eq, haround]
  refine ⟨by simp [hl], ?_, ?_⟩
  · intro p hp
    dsimp only at hp
    split at hp
    · cases hp
    · cases hp
      exact ⟨before, first, more, hst, hline⟩
  · intro e he
    dsimp only at he ⊢
    rcases List.mem_append.mp he with he | he
    · obtain ⟨before, first, more, after, hst, htells, hne⟩ := hold e he
      exact ⟨before, first, more, after, hst, htells, fun ha => absurd ha hne⟩
    · split at he
      · rename_i hc
        have hsplit := hst.split
        rw [List.append_nil] at hsplit
        rw [hsplit] at he
        exact ⟨before, first, more, [], hst, Pending.events_tells hline e he, fun _ => if_pos hc⟩
      · cases he

theorem State.Tracks.scanLines (h : s.Tracks rs) (hl : language.indented = true) (tables : Tables)
    (number : Nat) (below : List Chars) :
    (LineScan.scanLines language tables s number below).Tracks
      (rs ++ readings language tables s number below) := by
  induction below generalizing s rs number with
  | nil => rwa [readings, List.append_nil]
  | cons line below ih =>
    rw [LineScan.scanLines, readings]
    cases hk : s.skips language line with
    | true =>
      rw [if_pos rfl]
      refine ih ?_ _
      rw [State.scanLine_skipped hk]
      exact ⟨h.scopes, h.pending, h.events⟩
    | false =>
      rw [if_neg (by simp), List.append_cons]
      refine ih ?_ _
      rw [State.scanLine_taken hk]
      exact h.take hl number (indent line) (trim line)

theorem extract_tells (hl : language.indented = true) (tables : Tables) (source : String) :
    ∀ e ∈ extract language tables source, ∃ before first more after,
      IsStatement (readings language tables {} 1 (lines source.toList)) before first more after ∧
        Tells before first more e := by
  have hscan := start_tracks.scanLines hl tables 1 (lines source.toList)
  rw [List.nil_append] at hscan
  intro e he
  unfold extract State.flush at he
  split at he
  · rename_i p hp
    rcases List.mem_append.mp he with he | he
    · obtain ⟨before, first, more, after, hst, htells, -⟩ := hscan.events e he
      exact ⟨before, first, more, after, hst, htells⟩
    · obtain ⟨before, first, more, hst, hline⟩ := hscan.pending p hp
      have hsplit := hst.split
      rw [List.append_nil] at hsplit
      rw [hscan.scopes, hsplit] at he
      exact ⟨before, first, more, [], hst, Pending.events_tells hline e he⟩
  · obtain ⟨before, first, more, after, hst, htells, -⟩ := hscan.events e he
    exact ⟨before, first, more, after, hst, htells⟩

end Run

/-- Where indentation delimits bodies, the scopes after any lines are those that outlast the lines
after their heads. The events of a statement are told in the scopes opened on its own lines, and
around them those that its start leaves open. If no line that goes on with a statement opens a scope
left of one that is open, a start leaves only scopes open that it stands right of. -/
theorem indented_scopes (tables : Tables) (source : String) :
    let ls := lines source.toList
    let rs := readings .python tables {} 1 ls
    (∀ above, above <+: ls →
      (scanLines .python tables {} 1 above).scopes =
        stillOpen (readings .python tables {} 1 above)) ∧
    (∀ above line, above ++ [line] <+: ls →
      let s := scanLines .python tables {} 1 above
      let left := Scope.closeIndented (indent line) s.scopes
      s.skips .python line = false → s.pending = none →
      (scanLines .python tables {} 1 (above ++ [line])).scopes =
          Scope.openHeads (indent line) (trim line) left ∧
        (Steady rs → ∀ scope ∈ left, scope.level < indent line)) ∧
    ∀ e ∈ extract .python tables source, ∃ before first more after,
      IsStatement rs before first more after ∧
      let left := Scope.closeIndented first.indentation (stillOpen before)
      e.line = some (first.number : Int) ∧
      e.function = Scope.function? (ownHeads first more ++ left) ∧
      e.inLoop = Scope.inLoop (ownHeads first more ++ left) ∧
      (Steady rs → ∀ scope ∈ left, scope.level < first.indentation) := by
  intro ls rs
  have hl : Language.python.indented = true := rfl
  have hscopes : ∀ above, (scanLines .python tables {} 1 above).scopes =
      stillOpen (readings .python tables {} 1 above) :=
    fun above => (start_tracks.scanLines hl tables 1 above).scopes
  refine ⟨fun above _ => hscopes above, ?_, ?_⟩
  · intro above line hp s left hskip hpending
    refine ⟨?_, ?_⟩
    · rw [scanLines_append, scanLines, scanLines, State.scanLine_taken hskip, State.take_eq]
      simp [State.around, Language.indented, hpending, left, s]
    · obtain ⟨below, hsplit⟩ := hp
      intro hsteady
      have hrs : rs = readings .python tables {} 1 (above ++ ([line] ++ below)) := by
        rw [← List.append_assoc, hsplit]
      rw [hrs, readings_append] at hsteady
      have hbelow := hsteady.append_left.below (indent line)
      rwa [← hscopes] at hbelow
  · intro e he
    obtain ⟨before, first, more, after, hst, htells⟩ :=
      extract_tells hl tables source e he
    have hopen := stillOpen_statement before hst.starts hst.goes_on
    refine ⟨before, first, more, after, hst, htells.line, ?_, ?_, ?_⟩
    · rw [htells.function, hopen]
    · rw [htells.inLoop, hopen]
    · intro hsteady
      rw [show rs = _ from hst.split, List.append_assoc] at hsteady
      exact hsteady.append_left.below _

/-- A loop whose head goes on with a comprehension, further to the right. -/
def deepRows : String :=
  "def rows(t):\n  for row in [r\n      for r in t]:\n    p = malloc(4)\n  q = malloc(8)"

/-- The second acquisition stands at the head of the loop, which it ends. -/
theorem indented_scopes_rows :
    let ls := lines deepRows.toList
    let line := "  q = malloc(8)".toList
    let s := scanLines .python {} {} 1 (ls.take 4)
    (Steady (readings .python {} {} 1 ls) ∧ ls.take 4 ++ [line] <+: ls ∧
      s.skips .python line = false ∧ s.pending = none ∧ s.scopes.map (·.level) = [2, 0] ∧
      (extract .python {} deepRows).map (fun e => (e.var, e.function, e.inLoop)) =
        [("p", some "rows", true), ("q", some "rows", false)]) ∧
    (∀ scope ∈ Scope.closeIndented (indent line) s.scopes, scope.level < indent line) ∧
    ∀ e ∈ extract .python {} deepRows, ∃ before first more after,
      IsStatement (readings .python {} {} 1 ls) before first more after ∧
        ∀ scope ∈ Scope.closeIndented first.indentation (stillOpen before),
          scope.level < first.indentation := by
  intro ls line s
  have hclosed : Steady (readings .python {} {} 1 ls) ∧ ls.take 4 ++ [line] <+: ls ∧
      s.skips .python line = false ∧ s.pending = none ∧ s.scopes.map (·.level) = [2, 0] ∧
      (extract .python {} deepRows).map (fun e => (e.var, e.function, e.inLoop)) =
        [("p", some "rows", true), ("q", some "rows", false)] := by
    decide +kernel
  have ⟨hsteady, hprefix, hskip, hpending, _⟩ := hclosed
  obtain ⟨-, hleft, hevents⟩ := indented_scopes {} deepRows
  refine ⟨hclosed, (hleft _ line hprefix hskip hpending).2 hsteady, ?_⟩
  intro e he
  obtain ⟨before, first, more, after, hst, -, -, -, hbelow⟩ := hevents e he
  exact ⟨before, first, more, after, hst, hbelow hsteady⟩

/-- A function on one line, whose comprehension goes on further to the left. -/
def shielded : String :=
  "class Pool:\n    def sizes(self): return [n\n for n in self.blocks]\n    spare = malloc(64)"

/-- The loop of the comprehension keeps the function open: the next statement stands at its head,
and still counts as its body. -/
theorem shielded_function_open :
    let above := (lines shielded.toList).take 3
    let line := "    spare = malloc(64)".toList
    let s := scanLines .python {} {} 1 above
    lines shielded.toList = above ++ [line] ∧ s.skips .python line = false ∧ s.pending = none ∧
      (∃ scope ∈ Scope.closeIndented (indent line) s.scopes,
        scope.kind = .function "sizes" ∧ ¬ scope.level < indent line) ∧
      (extract .python {} shielded).map (fun e => (e.var, e.function)) =
        [("spare", some "sizes")] := by
  decide +kernel

end LineScan

end HeapAudit
