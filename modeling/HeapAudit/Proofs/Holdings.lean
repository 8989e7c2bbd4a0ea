import HeapAudit.Ledger
import Mathlib.Tactic.Conv

namespace HeapAudit.Holdings

def keys (holdings : Holdings) : List String := holdings.map (·.1)

theorem get?_cons (entry : String × List Allocation) (holdings : Holdings) (var : String) :
    get? (entry :: holdings) var = if entry.1 = var then some entry.2 else get? holdings var := by
  unfold get?
  by_cases he : entry.1 = var
  · simp [he]
  · simp [he]

theorem get?_eq_none {holdings : Holdings} {var : String} :
    holdings.get? var = none ↔ var ∉ holdings.keys := by
  induction holdings with
  | nil => simp [get?, keys]
  | cons entry rest ih =>
    rw [get?_cons]
    by_cases he : entry.1 = var
    · simp [he, keys]
    · simpa [he, Ne.symm he, keys] using ih

/-- One entry for each variable, so membership and look-up say the same. -/
theorem mem_iff_get? {holdings : Holdings} (hk : holdings.keys.Nodup) {var : String}
    {stack : List Allocation} : (var, stack) ∈ holdings ↔ holdings.get? var = some stack := by
  induction holdings with
  | nil => simp [get?]
  | cons entry rest ih =>
    obtain ⟨key, held⟩ := entry
    obtain ⟨hkey, hrest⟩ := List.nodup_cons.mp hk
    rw [get?_cons, List.mem_cons, ih hrest]
    by_cases he : key = var
    · subst he
      have hnone : get? rest key = none := get?_eq_none.mpr hkey
      simp [hnone, eq_comm]
    · simp [he, Ne.symm he]

theorem any_key (holdings : Holdings) (var : String) :
    holdings.any (·.1 = var) = true ↔ var ∈ holdings.keys := by
  simp [keys]

theorem get?_replace (holdings : Holdings) (var other : String) (stack : List Allocation) :
    get? (holdings.map fun entry => if entry.1 = var then (var, stack) else entry) other =
      if other = var then (get? holdings var).map (fun _ => stack) else get? holdings other := by
  induction holdings with
  | nil => simp [get?]
  | cons entry rest ih =>
    rw [List.map_cons, get?_cons, get?_cons, get?_cons, ih]
    by_cases he : entry.1 = var
    · by_cases ho : other = var
      · simp [he, ho]
      · simp [he, ho, Ne.symm ho]
    · by_cases ho : other = var
      · subst ho
        simp [he]
      · simp [he, ho]

theorem get?_put (holdings : Holdings) (var other : String) (stack : List Allocation) :
    (holdings.put var stack).get? other =
      if other = var then some stack else holdings.get? other := by
  unfold put
  split
  · rename_i ha
    rw [any_key] at ha
    obtain ⟨held, hh⟩ : ∃ held, holdings.get? var = some held :=
      Option.ne_none_iff_exists'.mp fun h => get?_eq_none.mp h ha
    rw [get?_replace, hh]
    rfl
  · rename_i ha
    rw [any_key] at ha
    have hnone := get?_eq_none.mpr ha
    unfold get? at hnone ⊢
    rw [List.find?_append, Option.map_or]
    by_cases ho : other = var
    · subst ho
      simp [hnone]
    · simp [ho, Ne.symm ho]

theorem get?_erase (holdings : Holdings) (var other : String) :
    (holdings.erase var).get? other = if other = var then none else holdings.get? other := by
  induction holdings with
  | nil => simp [erase, get?]
  | cons entry rest ih =>
    unfold erase at ih ⊢
    rw [get?_cons]
    by_cases he : entry.1 = var
    · rw [List.filter_cons_of_neg (by simp [he]), ih]
      by_cases ho : other = var
      · simp [ho]
      · simp [he, ho, Ne.symm ho]
    · rw [List.filter_cons_of_pos (by simp [he]), get?_cons, ih]
      by_cases ho : other = var
      · subst ho
        simp [he]
      · simp [ho]

theorem nodup_put {holdings : Holdings} (hk : holdings.keys.Nodup) (var : String)
    (stack : List Allocation) : (holdings.put var stack).keys.Nodup := by
  unfold put
  split
  · have hsame : keys (holdings.map fun entry => if entry.1 = var then (var, stack) else entry) =
        holdings.keys := by
      unfold keys
      rw [List.map_map]
      apply List.map_congr_left
      intro entry _
      by_cases he : entry.1 = var
      · simp [he]
      · simp [he]
    rw [hsame]
    exact hk
  · rename_i ha
    rw [any_key] at ha
    unfold keys at hk ha ⊢
    rw [List.map_append]
    refine List.nodup_append.mpr ⟨hk, by simp, ?_⟩
    rintro key hkey other ho rfl
    rw [List.map_singleton, List.mem_singleton] at ho
    subst ho
    exact ha hkey

theorem nodup_erase {holdings : Holdings} (hk : holdings.keys.Nodup) (var : String) :
    (holdings.erase var).keys.Nodup :=
  hk.sublist (List.filter_sublist.map _)

theorem erase_of_not_mem {holdings : Holdings} {var : String} (hv : var ∉ holdings.keys) :
    holdings.erase var = holdings := by
  apply List.filter_eq_self.mpr
  intro entry he
  have hne : entry.1 ≠ var := fun h => hv (List.mem_map.mpr ⟨entry, he, h⟩)
  simpa using hne

/-- The stack of one variable beside what the other variables hold. -/
theorem live_perm {holdings : Holdings} (hk : holdings.keys.Nodup) (var : String) :
    holdings.live.Perm ((holdings.get? var).getD [] ++ (holdings.erase var).live) := by
  induction holdings with
  | nil => simp [live, get?, erase]
  | cons entry rest ih =>
    obtain ⟨hkey, hrest⟩ := List.nodup_cons.mp hk
    have hcons : ∀ h : Holdings, live (entry :: h) = entry.2 ++ live h := fun _ => rfl
    rw [get?_cons, hcons]
    by_cases he : entry.1 = var
    · subst he
      have hgone : erase (entry :: rest) entry.1 = rest := by
        rw [erase, List.filter_cons_of_neg (by simp)]
        exact erase_of_not_mem hkey
      simp [hgone]
    · have hkept : erase (entry :: rest) var = entry :: erase rest var := by
        rw [erase, List.filter_cons_of_pos (by simp [he])]
        rfl
      rw [hkept, hcons, if_neg he]
      exact ((ih hrest).append_left _).trans (List.perm_append_comm_assoc _ _ _)

theorem erase_put (holdings : Holdings) (var : String) (stack : List Allocation) :
    (holdings.put var stack).erase var = holdings.erase var := by
  unfold put erase
  split
  · rw [List.filter_map]
    have hkept : holdings.filter ((fun entry => decide (entry.1 ≠ var)) ∘
        fun entry => if entry.1 = var then (var, stack) else entry) =
        holdings.filter (·.1 ≠ var) := by
      apply List.filter_congr
      intro entry _
      by_cases he : entry.1 = var
      · simp [he]
      · simp [he]
    rw [hkept]
    conv_rhs => rw [← List.map_id (holdings.filter (·.1 ≠ var))]
    apply List.map_congr_left
    intro entry hm
    have hne : entry.1 ≠ var := by simpa using (List.mem_filter.mp hm).2
    simp [hne]
  · simp [List.filter_append]

theorem live_put {holdings : Holdings} (hk : holdings.keys.Nodup) (var : String)
    (stack : List Allocation) :
    (holdings.put var stack).live.Perm (stack ++ (holdings.erase var).live) := by
  have hp := live_perm (nodup_put hk var stack) var
  rw [get?_put, if_pos rfl, erase_put] at hp
  exact hp

/-- What is left of a stack is kept, and an empty one is dropped. -/
def keep (holdings : Holdings) (var : String) (rest : List Allocation) : Holdings :=
  if rest.isEmpty then holdings.erase var else holdings.put var rest

theorem get?_keep (holdings : Holdings) (var other : String) (rest : List Allocation) :
    (holdings.keep var rest).get? other =
      if other = var then (if rest = [] then none else some rest) else holdings.get? other := by
  unfold keep
  cases rest with
  | nil => simp [get?_erase]
  | cons a rest => simp [get?_put]

theorem nodup_keep {holdings : Holdings} (hk : holdings.keys.Nodup) (var : String)
    (rest : List Allocation) : (holdings.keep var rest).keys.Nodup := by
  unfold keep
  split
  · exact nodup_erase hk var
  · exact nodup_put hk var rest

theorem live_keep {holdings : Holdings} (hk : holdings.keys.Nodup) (var : String)
    (rest : List Allocation) :
    (holdings.keep var rest).live.Perm (rest ++ (holdings.erase var).live) := by
  unfold keep
  split
  · rename_i he
    rw [List.isEmpty_iff.mp he]
    exact List.Perm.refl _
  · exact live_put hk var rest

theorem mem_live {holdings : Holdings} (hk : holdings.keys.Nodup) {a : Allocation} :
    a ∈ holdings.live ↔ ∃ var stack, holdings.get? var = some stack ∧ a ∈ stack := by
  unfold live
  rw [List.mem_flatMap]
  constructor
  · rintro ⟨⟨var, stack⟩, hm, ha⟩
    exact ⟨var, stack, (mem_iff_get? hk).mp hm, ha⟩
  · rintro ⟨var, stack, hg, ha⟩
    exact ⟨(var, stack), (mem_iff_get? hk).mpr hg, ha⟩

end HeapAudit.Holdings
