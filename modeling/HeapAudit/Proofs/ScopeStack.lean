import HeapAudit.Proofs.ScanSteps
import Mathlib.Algebra.Order.Group.Int
import Mathlib.Data.List.Infix

namespace HeapAudit
open Text

namespace Scope

/-- Levels do not decrease inwards, and none is above the depth. -/
structure Nested (depth : Int) (scopes : List Scope) : Prop where
  inwards : scopes.Pairwise fun inner outer => outer.level ≤ inner.level
  within : ∀ scope ∈ scopes, scope.level ≤ depth

/-- The heads of a line go inside the scopes that are open. -/
theorem openHeads_eq (level : Int) (line : Chars) (scopes : List Scope) :
    ∃ heads, openHeads level line scopes = heads ++ scopes ∧
      ∀ head ∈ heads, head.level = level ∧ head.braced = false := by
  unfold openHeads
  cases Heading.functionName? line with
  | none =>
    dsimp only
    split
    · exact ⟨[{ kind := .loop, level }], rfl, by simp⟩
    · exact ⟨[], rfl, by simp⟩
  | some name =>
    dsimp only
    split
    · exact ⟨[{ kind := .loop, level }, { kind := .function (String.ofList name), level }], rfl,
        by simp⟩
    · exact ⟨[{ kind := .function (String.ofList name), level }], rfl, by simp⟩

theorem closeBraced_suffix (depth : Int) (closes completed : Bool) (scopes : List Scope) :
    closeBraced depth closes completed scopes <:+ scopes := by
  have hclosed : (if closes then scopes.dropWhile fun s => depth ≤ s.level else scopes) <:+
      scopes := by
    split
    · exact List.dropWhile_suffix _
    · exact List.suffix_rfl
  unfold closeBraced
  dsimp only
  split
  · exact (List.dropWhile_suffix _).trans hclosed
  · exact hclosed

theorem markBraced_level {mark : Int} {scopes : List Scope} :
    ∀ scope ∈ markBraced mark scopes, ∃ old ∈ scopes, old.level = scope.level := by
  intro scope hm
  obtain ⟨old, ho, rfl⟩ := List.mem_map.mp hm
  refine ⟨old, ho, ?_⟩
  split <;> rfl

/-- No scope is open if all were opened at or above zero and none is below. -/
theorem eq_nil_of_levels {scopes : List Scope} (hb : ∀ scope ∈ scopes, scope.level < 0)
    (ha : ∀ scope ∈ scopes, 0 ≤ scope.level) : scopes = [] := by
  apply List.eq_nil_iff_forall_not_mem.mpr
  intro scope hm
  exact (hb scope hm).not_ge (ha scope hm)

section Nested

variable {depth : Int} {scopes : List Scope}

theorem Nested.openHeads (h : Nested depth scopes) (line : Chars) :
    Nested depth (Scope.openHeads depth line scopes) := by
  obtain ⟨heads, he, hl⟩ := openHeads_eq depth line scopes
  rw [he]
  refine ⟨List.pairwise_append.mpr ⟨?_, h.inwards, ?_⟩, ?_⟩
  · apply List.pairwise_of_forall_mem_list
    intro inner hi outer ho
    rw [(hl inner hi).1, (hl outer ho).1]
  · intro head hh scope hs
    rw [(hl head hh).1]
    exact h.within scope hs
  · intro scope hs
    rcases List.mem_append.mp hs with hs | hs
    · exact (hl scope hs).1.le
    · exact h.within scope hs

theorem Nested.markBraced (h : Nested depth scopes) (mark : Int) :
    Nested depth (Scope.markBraced mark scopes) := by
  refine ⟨?_, ?_⟩
  · apply List.pairwise_map.mpr
    apply h.inwards.imp
    intro inner outer hle
    split <;> split <;> exact hle
  · intro scope hs
    obtain ⟨old, ho, hl⟩ := markBraced_level scope hs
    rw [← hl]
    exact h.within old ho

theorem Nested.suffix (h : Nested depth scopes) {outer : List Scope} (hs : outer <:+ scopes) :
    Nested depth outer :=
  ⟨h.inwards.sublist hs.sublist, fun scope hm => h.within scope (hs.subset hm)⟩

theorem Nested.raise (h : Nested depth scopes) {higher : Int} (hd : depth ≤ higher) :
    Nested higher scopes :=
  ⟨h.inwards, fun scope hm => (h.within scope hm).trans hd⟩

/-- If the first scope from the inside that stays open is below the depth, so are all around it. -/
theorem Nested.dropWhile_below (h : Nested depth scopes) {lower : Int} {p : Scope → Bool}
    (hp : ∀ scope ∈ scopes, p scope = false → scope.level < lower) :
    ∀ scope ∈ scopes.dropWhile p, scope.level < lower := by
  induction scopes with
  | nil => simp
  | cons inner outer ih =>
    cases hi : p inner with
    | true =>
      rw [List.dropWhile_cons_of_pos hi]
      exact ih (h.suffix (List.suffix_cons ..)) fun scope hm => hp scope (List.mem_cons_of_mem _ hm)
    | false =>
      have hinner := hp inner List.mem_cons_self hi
      rw [List.dropWhile_cons_of_neg (by simp [hi])]
      intro scope hm
      rcases List.mem_cons.mp hm with rfl | hm
      · exact hinner
      · exact ((List.pairwise_cons.mp h.inwards).1 scope hm).trans_lt hinner

/-- A closing brace closes every scope at or above the depth. -/
theorem Nested.below_of_closes (h : Nested depth scopes) (lower : Int) (completed : Bool) :
    ∀ scope ∈ closeBraced lower true completed scopes, scope.level < lower := by
  intro scope hs
  apply h.dropWhile_below (p := fun s => lower ≤ s.level) (by simp)
  unfold closeBraced at hs
  dsimp only at hs
  split at hs
  · exact (List.dropWhile_suffix _).subset hs
  · exact hs

/-- The end of a statement does so too, if those with a brace are below the depth anyway. -/
theorem Nested.below_of_completed (h : Nested depth scopes) {lower : Int}
    (hb : ∀ scope ∈ scopes, scope.braced = true → scope.level < lower) :
    ∀ scope ∈ closeBraced lower false true scopes, scope.level < lower := by
  apply h.dropWhile_below
  intro scope hm hp
  cases hbraced : scope.braced with
  | true => exact hb scope hm hbraced
  | false => simpa [hbraced] using hp

end Nested

end Scope

theorem Language.indented_iff {language : Language} :
    language.indented = true ↔ language = .python := by
  cases language <;> simp [Language.indented]

namespace LineScan

section Line

variable {language : Language} (tables : Tables) {s : State} (number indentation : Nat)
  (line : Chars)

theorem State.take_depth :
    (s.take language tables number indentation line).depth = s.depthWith line := by
  rw [State.take_eq]

/-- Of the scopes around a statement, some of the innermost are closed after it. -/
theorem State.take_suffix :
    (s.take language tables number indentation line).scopes <:+
      s.around language indentation line := by
  rw [State.take_eq]
  cases language.indented with
  | true => exact List.suffix_rfl
  | false => exact Scope.closeBraced_suffix _ _ _ _

theorem State.around_level :
    ∀ scope ∈ s.around language indentation line,
      (∃ old ∈ s.scopes, old.level = scope.level) ∨
        scope.level = if language.indented then (indentation : Int) else s.depth := by
  intro scope hs
  unfold State.around at hs
  cases hl : language.indented with
  | true =>
    rw [hl, if_pos rfl] at hs
    obtain ⟨heads, he, hlevel⟩ := Scope.openHeads_eq indentation line
      (if s.pending.isNone then Scope.closeIndented indentation s.scopes else s.scopes)
    rw [he] at hs
    rcases List.mem_append.mp hs with hs | hs
    · exact .inr (hlevel scope hs).1
    · refine .inl ⟨scope, ?_, rfl⟩
      split at hs
      · exact (List.dropWhile_suffix _).subset hs
      · exact hs
  | false =>
    rw [hl, if_neg (by simp)] at hs
    obtain ⟨old, ho, hold⟩ := Scope.markBraced_level scope hs
    obtain ⟨heads, he, hlevel⟩ := Scope.openHeads_eq s.depth line s.scopes
    rw [he] at ho
    rcases List.mem_append.mp ho with ho | ho
    · exact .inr (hold.symm.trans (hlevel old ho).1)
    · exact .inl ⟨old, ho, hold⟩

/-- Scopes are opened at or above zero, where indentation counts or while the depth does not fall
below. -/
theorem State.take_level_nonneg (hs : ∀ scope ∈ s.scopes, 0 ≤ scope.level)
    (hd : language.indented = true ∨ 0 ≤ s.depth) :
    ∀ scope ∈ (s.take language tables number indentation line).scopes, 0 ≤ scope.level := by
  intro scope hm
  have haround := (State.take_suffix tables number indentation line).subset hm
  rcases State.around_level indentation line scope haround with ⟨old, ho, hold⟩ | hlevel
  · rw [← hold]
    exact hs old ho
  · rw [hlevel]
    rcases hd with hd | hd
    · rw [if_pos hd]
      omega
    · split
      · omega
      · exact hd

theorem State.scanLine_level_nonneg (hs : ∀ scope ∈ s.scopes, 0 ≤ scope.level)
    (hd : language.indented = true ∨ 0 ≤ s.depth) :
    ∀ scope ∈ (s.scanLine language tables number line).scopes, 0 ≤ scope.level := by
  cases hk : s.skips language line with
  | true =>
    rw [State.scanLine_skipped hk]
    exact hs
  | false =>
    rw [State.scanLine_taken hk]
    exact State.take_level_nonneg tables _ _ _ hs hd

theorem scanLines_level_nonneg (hs : ∀ scope ∈ s.scopes, 0 ≤ scope.level) (below : List Chars)
    (hd : language.indented = true ∨
      ∀ above, above <+: below → 0 ≤ (scanLines language tables s number above).depth) :
    ∀ scope ∈ (scanLines language tables s number below).scopes, 0 ≤ scope.level := by
  induction below generalizing s number with
  | nil => exact hs
  | cons line below ih =>
    refine ih _ (State.scanLine_level_nonneg tables number line hs ?_) ?_
    · exact hd.imp_right fun hd => hd [] List.nil_prefix
    · refine hd.imp_right fun hd above hp => ?_
      exact hd (line :: above) (List.cons_prefix_cons.mpr ⟨rfl, hp⟩)

/-- What lines keep where braces delimit bodies. -/
structure State.Orderly (s : State) : Prop where
  nested : Scope.Nested s.depth s.scopes
  braced : ∀ scope ∈ s.scopes, scope.braced = true → scope.level < s.depth
  settled : s.pending = none → ∀ scope ∈ s.scopes, scope.level < s.depth
  directive : s.inDirective = true → s.pending = none

theorem start_orderly : State.Orderly {} := ⟨⟨.nil, by simp⟩, by simp, by simp, by simp⟩

theorem State.Orderly.around (h : s.Orderly) (hl : language.indented = false) :
    Scope.Nested s.depth (s.around language indentation line) := by
  simp only [State.around, hl, Bool.false_eq_true, if_false]
  exact (h.nested.openHeads line).markBraced _

/-- Without a closing brace the depth can only rise. -/
theorem State.depth_le_depthWith (hc : '}' ∉ line) : s.depth ≤ s.depthWith line := by
  have hzero : line.count '}' = 0 := List.count_eq_zero.mpr hc
  unfold State.depthWith
  omega

theorem State.Orderly.around_braced (h : s.Orderly) (hl : language.indented = false)
    (hc : '}' ∉ line) :
    ∀ scope ∈ s.around language indentation line, scope.braced = true →
      scope.level < s.depthWith line := by
  intro scope hm hb
  simp only [State.around, hl, Bool.false_eq_true, if_false] at hm
  obtain ⟨old, ho, rfl⟩ := List.mem_map.mp hm
  by_cases hmark : old.level < s.depthWith line
  · rw [if_pos hmark]
    exact hmark
  · rw [if_neg hmark] at hb ⊢
    obtain ⟨heads, he, hheads⟩ := Scope.openHeads_eq s.depth line s.scopes
    rw [he] at ho
    rcases List.mem_append.mp ho with ho | ho
    · rw [(hheads old ho).2] at hb
      cases hb
    · exact (h.braced old ho hb).trans_le (State.depth_le_depthWith line hc)

/-- After a closing brace every scope that is still open is below the depth. -/
theorem State.Orderly.take_closed (h : s.Orderly) (hl : language.indented = false)
    (hc : '}' ∈ line) :
    ∀ scope ∈ (s.take language tables number indentation line).scopes,
      scope.level < (s.take language tables number indentation line).depth := by
  have hcount : 0 < line.count '}' := List.count_pos_iff.mpr hc
  rw [State.take_eq]
  simp only [hl, Bool.false_eq_true, if_false, hcount, decide_true]
  exact (h.around indentation line hl).below_of_closes _ _

/-- And so it is after a statement. -/
theorem State.Orderly.take_settled (h : s.Orderly) (hl : language.indented = false)
    (hp : (s.take language tables number indentation line).pending = none) :
    ∀ scope ∈ (s.take language tables number indentation line).scopes,
      scope.level < (s.take language tables number indentation line).depth := by
  by_cases hc : '}' ∈ line
  · exact h.take_closed tables number indentation line hl hc
  · have hcount : line.count '}' = 0 := List.count_eq_zero.mpr hc
    rw [State.take_eq] at hp ⊢
    cases hcomp : completes language (Pending.add s.pending number line) line with
    | false => simp [hcomp] at hp
    | true =>
      simp only [hl, hcount, Bool.false_eq_true, if_false, lt_irrefl, decide_false]
      exact (h.around indentation line hl).below_of_completed
        (h.around_braced indentation line hl hc)

theorem State.Orderly.take (h : s.Orderly) (hl : language.indented = false)
    (hd : s.inDirective = false) :
    (s.take language tables number indentation line).Orderly := by
  have hsuffix : (s.take language tables number indentation line).scopes <:+
      s.around language indentation line := State.take_suffix tables number indentation line
  have hin := (h.around indentation line hl).suffix hsuffix
  have hsettled := h.take_settled tables number indentation line hl
  have hdirective : (s.take language tables number indentation line).inDirective = false := by
    rw [State.take_eq]
    exact hd
  -- The depth may fall below a level only on a line with a closing brace, which closes that scope.
  by_cases hc : '}' ∈ line
  · have hclosed := h.take_closed tables number indentation line hl hc
    exact ⟨⟨hin.inwards, fun scope hm => (hclosed scope hm).le⟩,
      fun scope hm _ => hclosed scope hm, hsettled, by simp [hdirective]⟩
  · refine ⟨?_, ?_, hsettled, by simp [hdirective]⟩
    · rw [State.take_depth]
      exact hin.raise (State.depth_le_depthWith line hc)
    · intro scope hm hb
      rw [State.take_depth]
      exact h.around_braced indentation line hl hc scope (hsuffix.subset hm) hb

/-- Lines are passed over only between statements. -/
theorem State.Orderly.skipped (h : s.Orderly) (hn : trim line ≠ [])
    (hk : s.skips language line = true) : s.pending = none := by
  have hd : s.isDirective language (trim line) = true := by simpa [State.skips, hn] using hk
  unfold State.isDirective at hd
  rcases Bool.or_eq_true_iff.mp hd with hd | hd
  · exact h.directive hd
  · simp only [Bool.and_eq_true, Option.isNone_iff_eq_none] at hd
    exact hd.2

theorem State.Orderly.scanLine (h : s.Orderly) (hl : language.indented = false) :
    (s.scanLine language tables number line).Orderly := by
  cases hk : s.skips language line with
  | true =>
    rw [State.scanLine_skipped hk]
    refine ⟨h.nested, h.braced, h.settled, ?_⟩
    intro hd
    change s.pending = none
    by_cases hn : trim line = []
    · rw [if_pos hn] at hd
      exact h.directive hd
    · exact h.skipped line hn hk
  | false =>
    rw [State.scanLine_taken hk]
    simp only [State.skips, Bool.or_eq_false_iff, State.isDirective] at hk
    exact h.take tables _ _ _ hl hk.2.1

theorem State.Orderly.scanLines (h : s.Orderly) (hl : language.indented = false)
    (below : List Chars) : (LineScan.scanLines language tables s number below).Orderly := by
  induction below generalizing s number with
  | nil => exact h
  | cons line below ih => exact ih _ (h.scanLine tables number line hl)

theorem State.Orderly.scanLine_closed (h : s.Orderly) (hl : language.indented = false)
    (hc : '}' ∈ line) :
    ∀ scope ∈ (s.scanLine language tables number line).scopes,
      scope.level < (s.scanLine language tables number line).depth := by
  have hin : '}' ∈ trim line := mem_trim (by decide) hc
  cases hk : s.skips language line with
  | true =>
    rw [State.scanLine_skipped hk]
    exact h.settled (h.skipped line (List.ne_nil_of_mem hin) hk)
  | false =>
    rw [State.scanLine_taken hk]
    exact h.take_closed tables _ _ _ hl hin

end Line

/-- Where braces delimit bodies, the scopes are nested after every line: levels do not decrease
inwards, and none is above the depth. After a line with a closing brace the scopes that are open are
all below the depth, and if the depth has never been negative and is back at zero, none is open. -/
theorem scopes_nested (language : Language) (hl : language ≠ .python) (tables : Tables)
    (above : List Chars) (line : Chars) :
    let s := scanLines language tables {} 1 (above ++ [line])
    Scope.Nested s.depth s.scopes ∧
    ('}' ∈ line → ∀ scope ∈ s.scopes, scope.level < s.depth) ∧
    ('}' ∈ line →
      (∀ earlier, earlier <+: above → 0 ≤ (scanLines language tables {} 1 earlier).depth) →
      s.depth = 0 → s.scopes = []) := by
  intro s
  have hi : language.indented = false := by
    rw [Bool.eq_false_iff]
    exact mt Language.indented_iff.mp hl
  have hs : s = (scanLines language tables {} 1 above).scanLine language tables
      (1 + above.length) line := scanLines_append ..
  have hclosed : '}' ∈ line → ∀ scope ∈ s.scopes, scope.level < s.depth := by
    intro hc
    rw [hs]
    exact (start_orderly.scanLines tables 1 hi above).scanLine_closed tables _ line hi hc
  refine ⟨(start_orderly.scanLines tables 1 hi _).nested, hclosed, ?_⟩
  intro hc hdepth hzero
  have hlevels : ∀ scope ∈ s.scopes, 0 ≤ scope.level := by
    apply scanLines_level_nonneg tables 1 (by simp)
    refine .inr fun earlier hp => ?_
    rcases List.prefix_concat_iff.mp hp with rfl | hp
    · exact hzero.ge
    · exact hdepth earlier hp
  have hbelow := hclosed hc
  rw [hzero] at hbelow
  exact Scope.eq_nil_of_levels hbelow hlevels

/-- A loop inside a function. -/
def loopLines : List Chars := ["int f() \x7b", "while (more) \x7b"].map String.toList

/-- Both are closed on one line. -/
theorem scopes_nested_loop :
    Language.c ≠ .python ∧
      (scanLines .c {} {} 1 loopLines).scopes.map (·.level) = [1, 0] ∧
      (scanLines .c {} {} 1 (loopLines ++ ["\x7d \x7d".toList])).scopes = [] := by
  refine ⟨by decide, by decide, ?_⟩
  refine (scopes_nested .c (by decide) {} loopLines "\x7d \x7d".toList).2.2 (by decide) ?_
    (by decide)
  intro earlier hp
  rw [← List.mem_inits] at hp
  revert earlier
  decide

end LineScan

end HeapAudit
