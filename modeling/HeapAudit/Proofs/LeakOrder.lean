import HeapAudit.CommandLine.Run
import Mathlib.Data.List.Perm.Basic
import Mathlib.Data.String.Basic

namespace HeapAudit

section Stable

variable {α : Type} {r s : α → α → Prop} {xs ys zs : List α}

/-- Neither of two has to come before the other. -/
def Tied (r : α → α → Prop) (a b : α) : Prop := r a b ∧ r b a

instance [DecidableRel r] (a : α) : DecidablePred (Tied r a) :=
  fun _ => inferInstanceAs (Decidable (_ ∧ _))

/-- By one order, and where it ties by another. -/
def Refined (r s : α → α → Prop) (a b : α) : Prop := r a b ∧ (r b a → s a b)

instance [DecidableRel r] [DecidableRel s] : DecidableRel (Refined r s) :=
  fun _ _ => inferInstanceAs (Decidable (_ ∧ (_ → _)))

theorem tied_refined {a b : α} : Tied (Refined r s) a b ↔ Tied r a b ∧ Tied s a b := by
  unfold Tied Refined
  tauto

/-- The second list is the first one in order: it has the same elements, they ascend, and those that
are tied stand as they stood. -/
structure StableSort (r : α → α → Prop) [DecidableRel r] (xs ys : List α) : Prop where
  perm : ys.Perm xs
  ordered : ys.Pairwise r
  stable : ∀ a, ys.filter (Tied r a) = xs.filter (Tied r a)

variable [DecidableRel r] [DecidableRel s]

theorem mem_of_ties (refl : ∀ a, r a a) {a : α}
    (h : (a :: ys).filter (Tied r a) = zs.filter (Tied r a)) : a ∈ zs := by
  have hin : a ∈ (a :: ys).filter (Tied r a) := by simp [Tied, refl a]
  rw [h] at hin
  exact (List.mem_filter.mp hin).1

/-- Two lists in order that agree on every class of ties are the same. -/
theorem eq_of_ordered (refl : ∀ a, r a a) (hys : ys.Pairwise r) (hzs : zs.Pairwise r)
    (h : ∀ a, ys.filter (Tied r a) = zs.filter (Tied r a)) : ys = zs := by
  induction ys generalizing zs with
  | nil =>
    cases zs with
    | nil => rfl
    | cons b zs => simpa [Tied, refl b] using h b
  | cons a ys ih =>
    cases zs with
    | nil => simpa [Tied, refl a] using h a
    | cons b zs =>
      obtain ⟨ha, hys'⟩ := List.pairwise_cons.mp hys
      obtain ⟨hb, hzs'⟩ := List.pairwise_cons.mp hzs
      -- Each head is in the other list too, so neither has to come before the other.
      have hba : r b a := by
        rcases List.mem_cons.mp (mem_of_ties refl (h a)) with rfl | hin
        · exact refl a
        · exact hb a hin
      have hab : r a b := by
        rcases List.mem_cons.mp (mem_of_ties refl (h b).symm) with rfl | hin
        · exact refl b
        · exact ha b hin
      have hheads := h a
      simp only [Tied, refl a, hab, hba, and_self, decide_true, List.filter_cons_of_pos,
        List.cons.injEq] at hheads
      obtain ⟨rfl, -⟩ := hheads
      have htails : ∀ c, ys.filter (Tied r c) = zs.filter (Tied r c) := by
        intro c
        have hc := h c
        by_cases htied : Tied r c a
        · simpa [htied] using hc
        · simpa [htied] using hc
      rw [ih hys' hzs' htails]

namespace StableSort

/-- A list has only one stable sort. -/
theorem iff_eq (refl : ∀ a, r a a) (h : StableSort r xs ys) : StableSort r xs zs ↔ zs = ys := by
  constructor
  · intro hz
    exact eq_of_ordered refl hz.ordered h.ordered fun a => (hz.stable a).trans (h.stable a).symm
  · rintro rfl
    exact h

theorem self (h : StableSort r xs ys) : StableSort r ys ys :=
  ⟨.refl _, h.ordered, fun _ => rfl⟩

/-- Sorting by `s` and then by `r` is sorting by `r`, and where it ties by `s`. -/
theorem refine (refl : ∀ a, r a a) (hs : StableSort s xs ys) (hr : StableSort r ys zs) :
    StableSort (Refined r s) xs zs where
  perm := hr.perm.trans hs.perm
  ordered := by
    rw [List.pairwise_iff_forall_sublist]
    intro a b hsub
    have hab := List.pairwise_iff_forall_sublist.mp hr.ordered hsub
    refine ⟨hab, fun hba => ?_⟩
    -- Tied elements stand as they stood, and there they were in the order `s`.
    have htied : [a, b].filter (Tied r a) = [a, b] := by simp [Tied, refl a, hab, hba]
    have hold : [a, b].Sublist (ys.filter (Tied r a)) := by
      rw [← hr.stable a, ← htied]
      exact hsub.filter _
    exact List.pairwise_iff_forall_sublist.mp hs.ordered (hold.trans List.filter_sublist)
  stable := by
    intro a
    have hboth : ∀ us : List α, us.filter (Tied (Refined r s) a) =
        (us.filter (Tied r a)).filter (Tied s a) := by
      intro us
      simp only [List.filter_filter, tied_refined, Bool.decide_and, Bool.and_comm]
    rw [hboth, hboth, hr.stable a, List.filter_comm, hs.stable a, List.filter_comm]

theorem mergeSort (total : ∀ a b, r a b ∨ r b a) (trans : ∀ a b c, r a b → r b c → r a c)
    (xs : List α) : StableSort r xs (xs.mergeSort fun a b => decide (r a b)) := by
  have hle_total : ∀ a b, (decide (r a b) || decide (r b a)) = true := by simpa using total
  have hle_trans : ∀ a b c, decide (r a b) = true → decide (r b c) = true →
      decide (r a c) = true := by simpa using trans
  have hperm := List.mergeSort_perm xs fun a b => decide (r a b)
  refine ⟨hperm, ?_, fun a => ?_⟩
  · simpa using List.pairwise_mergeSort hle_trans hle_total xs
  · have hties : (xs.filter (Tied r a)).Pairwise fun b c => decide (r b c) = true := by
      rw [List.pairwise_iff_forall_sublist]
      intro b c hsub
      have hb := List.of_mem_filter (hsub.subset (List.mem_cons_self))
      have hc := List.of_mem_filter (hsub.subset (List.mem_cons_of_mem _ List.mem_cons_self))
      exact decide_eq_true (trans b a c (of_decide_eq_true hb).2 (of_decide_eq_true hc).1)
    have hsub := (List.sublist_mergeSort hle_trans hle_total hties List.filter_sublist).filter
      (Tied r a)
    simp only [List.filter_filter, Bool.and_self] at hsub
    exact (hsub.eq_of_length (hperm.filter _).length_eq.symm).symm

end StableSort

end Stable

namespace Text

theorem order_cons_gt {c d : Char} {a b : Chars} :
    order (c :: a) (d :: b) = .gt ↔ d < c ∨ d = c ∧ order a b = .gt := by
  rw [order, List.compareLex_cons_cons, Ordering.then_eq_gt, Nat.compare_eq_gt, Nat.compare_eq_eq,
    Char.toNat_inj, eq_comm (a := c)]
  rfl

/-- Texts are ordered as strings are. -/
theorem order_gt {a b : Chars} : order a b = .gt ↔ b < a := by
  induction a generalizing b with
  | nil => cases b <;> simp [order, List.compareLex_nil_nil, List.compareLex_nil_cons]
  | cons c a ih =>
    cases b with
    | nil => simp [order, List.compareLex_cons_nil]
    | cons d b => rw [order_cons_gt, ih, List.cons_lt_cons_iff]

end Text

namespace SortKey

/-- Lines ascend, sizes descend, and names ascend by their characters. -/
def Precedes : SortKey → Leak → Leak → Prop
  | line, a, b => a.line.getD 0 ≤ b.line.getD 0
  | size, a, b => b.size ≤ a.size
  | var, a, b => a.var ≤ b.var

instance : ∀ k : SortKey, DecidableRel k.Precedes
  | line => fun _ _ => inferInstanceAs (Decidable (_ ≤ _))
  | size => fun _ _ => inferInstanceAs (Decidable (_ ≤ _))
  | var => fun _ _ => inferInstanceAs (Decidable (_ ≤ _))

theorem precedes_total (k : SortKey) (a b : Leak) : k.Precedes a b ∨ k.Precedes b a := by
  cases k with
  | line => exact le_total _ _
  | size => exact le_total _ _
  | var => exact le_total _ _

theorem precedes_trans (k : SortKey) (a b c : Leak) (hab : k.Precedes a b)
    (hbc : k.Precedes b c) : k.Precedes a c := by
  cases k with
  | line => exact le_trans hab hbc
  | size => exact le_trans hbc hab
  | var => exact le_trans hab hbc

theorem le_eq (k : SortKey) : k.le = fun a b => decide (k.Precedes a b) := by
  funext a b
  cases k with
  | line => rfl
  | size => rfl
  | var =>
    rw [Bool.eq_iff_iff, decide_eq_true_iff, le, Ordering.isLE_iff_ne_gt, Text.order_gt.not]
    exact @not_lt String _ _ _

theorem precedes_refl (k : SortKey) (a : Leak) : k.Precedes a a :=
  or_self_iff.mp (k.precedes_total a a)

theorem stableSort (k : SortKey) (leaks : List Leak) :
    StableSort k.Precedes leaks (k.sort leaks) := by
  rw [sort, le_eq]
  exact .mergeSort k.precedes_total k.precedes_trans leaks

theorem sort_sort (k : SortKey) (leaks : List Leak) : k.sort (k.sort leaks) = k.sort leaks :=
  (((k.stableSort (k.sort leaks)).iff_eq k.precedes_refl).mp (k.stableSort leaks).self).symm

theorem stableSort_both (k k' : SortKey) (leaks : List Leak) :
    StableSort (Refined k.Precedes k'.Precedes) leaks (k.sort (k'.sort leaks)) :=
  (k'.stableSort leaks).refine k.precedes_refl (k.stableSort (k'.sort leaks))

end SortKey

namespace Analysis

theorem leakedBytes_sorted (a : Analysis) (k : SortKey) :
    (a.sorted k).leakedBytes = a.leakedBytes := by
  have : LeftCommutative fun (l : Leak) (n : Int) => l.size + n :=
    ⟨fun a b n => Int.add_left_comm a.size b.size n⟩
  exact (k.stableSort a.leaks).perm.foldr_eq 0

theorem statistics_sorted (a : Analysis) (k : SortKey) :
    (a.sorted k).statistics = a.statistics := by
  have hleaks : (a.sorted k).leaks.length = a.leaks.length := (k.stableSort a.leaks).perm.length_eq
  rw [statistics, hleaks, leakedBytes_sorted]
  rfl

theorem hasLeaks_sorted (a : Analysis) (k : SortKey) : (a.sorted k).hasLeaks = a.hasLeaks :=
  congrArg (!·) (k.stableSort a.leaks).perm.isEmpty_eq

end Analysis

theorem FailOn.fails_sorted (f : FailOn) (results : List Analysis) (k : SortKey) :
    f.fails (results.map (·.sorted k)) = f.fails results := by
  have hleaks : (results.map (·.sorted k)).any Analysis.hasLeaks =
      results.any Analysis.hasLeaks := by
    simp only [List.any_map, Function.comp_def, Analysis.hasLeaks_sorted]
  have hwarnings : (results.map (·.sorted k)).any Analysis.hasWarnings =
      results.any Analysis.hasWarnings := by
    rw [List.any_map]
    rfl
  cases f with
  | leak => exact hleaks
  | warning => exact hwarnings
  | any => rw [fails, hleaks, hwarnings, fails]
  | none => rfl

theorem CommandLine.exitCode_sort (o : Options) (k : SortKey)
    (outcomes : List Analyzer.FileOutcome) :
    exitCode { o with sort := some k } outcomes = exitCode { o with sort := none } outcomes := by
  exact congrArg (if _ || · then 1 else 0) (o.failOn.fails_sorted (analyses outcomes) k)

/-- Sorting by a key gives the one list that has the same leaks, ascends by the key and leaves leaks
with equal keys as they stand. Sorting twice is sorting once, and sorting by a second key before is
sorting by both, the second one for ties. The statistics of the results, the verdict on them and the
exit code of a run do not depend on it. -/
theorem SortKey.sort_stable (k k' : SortKey) (leaks : List Leak) :
    (∀ sorted, StableSort k.Precedes leaks sorted ↔ sorted = k.sort leaks) ∧
    k.sort (k.sort leaks) = k.sort leaks ∧
    (∀ sorted, StableSort (Refined k.Precedes k'.Precedes) leaks sorted ↔
      sorted = k.sort (k'.sort leaks)) ∧
    (∀ results : List Analysis,
      (results.map (·.sorted k)).map Analysis.statistics = results.map Analysis.statistics ∧
      ∀ f : FailOn, f.fails (results.map (·.sorted k)) = f.fails results) ∧
    ∀ (o : CommandLine.Options) (outcomes : List Analyzer.FileOutcome),
      CommandLine.exitCode { o with sort := some k } outcomes =
        CommandLine.exitCode { o with sort := none } outcomes := by
  have hrefl : ∀ a, Refined k.Precedes k'.Precedes a a :=
    fun a => ⟨k.precedes_refl a, fun _ => k'.precedes_refl a⟩
  refine ⟨fun _ => (k.stableSort leaks).iff_eq k.precedes_refl, k.sort_sort leaks,
    fun _ => (k.stableSort_both k' leaks).iff_eq hrefl, fun results => ⟨?_, ?_⟩, ?_⟩
  · simp only [List.map_map, Function.comp_def, Analysis.statistics_sorted]
  · exact fun f => f.fails_sorted results k
  · exact fun o outcomes => CommandLine.exitCode_sort o k outcomes

end HeapAudit
