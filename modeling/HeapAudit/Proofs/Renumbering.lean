import HeapAudit.Proofs.AllocationIds
import Mathlib.Data.List.Forall2
import Mathlib.Logic.Relation

namespace HeapAudit

/-- What a ledger reports. -/
structure Findings where
  allocations : List Allocation
  frees : List Free
  leaks : List Leak
  warnings : List Warning

def Ledger.findings (l : Ledger) : Findings := ⟨l.allocations, l.frees, l.leaks, l.warnings⟩

/-- The findings on one variable. -/
def Findings.on (fs : Findings) (var : String) : Findings where
  allocations := fs.allocations.filter (·.var = var)
  frees := fs.frees.filter (·.var = var)
  leaks := fs.leaks.filter (·.var = var)
  warnings := fs.warnings.filter (·.var = some var)

def Allocation.bare (a : Allocation) : Allocation := { a with id := "" }

def Free.bare (f : Free) : Free := { f with freed := "" }

def Leak.bare (k : Leak) : Leak := { k with id := "" }

namespace Renumbering

/-- Numbers are paired in their order. -/
def Ordered (r : Nat → Nat → Prop) : Prop :=
  ∀ m n m' n', r m n → r m' n' → (m < m' ↔ n < n')

theorem Ordered.eq_iff {r : Nat → Nat → Prop} (h : Ordered r) {m n m' n' : Nat} (hr : r m n)
    (hr' : r m' n') : m = m' ↔ n = n' := by
  have hlt := h m n m' n' hr hr'
  have hgt := h m' n' m n hr' hr
  omega

theorem Ordered.flip {r : Nat → Nat → Prop} (h : Ordered r) : Ordered (flip r) :=
  fun n m n' m' hr hr' => (h m n m' n' hr hr').symm

theorem Ordered.comp {r s : Nat → Nat → Prop} (hr : Ordered r) (hs : Ordered s) :
    Ordered (Relation.Comp r s) := by
  rintro m k m' k' ⟨n, hmn, hnk⟩ ⟨n', hmn', hnk'⟩
  exact (hr m n m' n' hmn hmn').trans (hs n k n' k' hnk hnk')

/-- Pairing two numbers that come after all others. -/
def extend (r : Nat → Nat → Prop) (m n : Nat) : Nat → Nat → Prop :=
  fun m' n' => r m' n' ∨ (m' = m ∧ n' = n)

theorem Ordered.extend {r : Nat → Nat → Prop} (h : Ordered r) {m n : Nat}
    (hb : ∀ m' n', r m' n' → m' < m ∧ n' < n) : Ordered (extend r m n) := by
  rintro a b a' b' (hr | ⟨rfl, rfl⟩) (hr' | ⟨rfl, rfl⟩)
  · exact h a b a' b' hr hr'
  · have := hb a b hr
    omega
  · have := hb a' b' hr'
    omega
  · omega

/-- Ids with one stem and paired numbers. -/
def Matching (r : Nat → Nat → Prop) (id id' : String) : Prop :=
  ∃ stem m n, r m n ∧ id = Ledger.numberedId stem m ∧ id' = Ledger.numberedId stem n

theorem Matching.mono {r s : Nat → Nat → Prop} (hrs : ∀ m n, r m n → s m n) {id id' : String}
    (h : Matching r id id') : Matching s id id' := by
  obtain ⟨stem, m, n, hr, hm, hn⟩ := h
  exact ⟨stem, m, n, hrs m n hr, hm, hn⟩

theorem Matching.flip {r : Nat → Nat → Prop} {id id' : String} (h : Matching r id id') :
    Matching (flip r) id' id := by
  obtain ⟨stem, m, n, hr, hm, hn⟩ := h
  exact ⟨stem, n, m, hr, hn, hm⟩

theorem Matching.comp {r s : Nat → Nat → Prop} {id id' id'' : String} (h : Matching r id id')
    (h' : Matching s id' id'') : Matching (Relation.Comp r s) id id'' := by
  obtain ⟨stem, m, n, hr, hm, hn⟩ := h
  obtain ⟨stem', n', k, hs, hn', hk⟩ := h'
  obtain ⟨rfl, rfl⟩ := Ledger.numberedId_inj (hn.symm.trans hn')
  exact ⟨stem, m, k, ⟨n, hr, hs⟩, hm, hk⟩

theorem Matching.right_unique {r : Nat → Nat → Prop} (ho : Ordered r) {id id' id'' : String}
    (h : Matching r id id') (h' : Matching r id id'') : id' = id'' := by
  obtain ⟨stem, m, n, hr, hm, rfl⟩ := h
  obtain ⟨stem', m', n', hr', hm', rfl⟩ := h'
  obtain ⟨rfl, rfl⟩ := Ledger.numberedId_inj (hm.symm.trans hm')
  rw [(ho.eq_iff hr hr').mp rfl]

theorem Matching.left_unique {r : Nat → Nat → Prop} (ho : Ordered r) {id id' id'' : String}
    (h : Matching r id id'') (h' : Matching r id' id'') : id = id' :=
  Matching.right_unique ho.flip h.flip h'.flip

/-- Records that are the same but for the numbers in their ids. -/
def Renumbered {α : Type} (id : α → String) (bare : α → α) (r : Nat → Nat → Prop) (a b : α) :
    Prop :=
  Matching r (id a) (id b) ∧ bare a = bare b

section Lists

variable {α : Type} {id : α → String} {bare : α → α} {r s : Nat → Nat → Prop} {as bs cs : List α}

theorem renumbered_mono (hrs : ∀ m n, r m n → s m n)
    (h : List.Forall₂ (Renumbered id bare r) as bs) : List.Forall₂ (Renumbered id bare s) as bs :=
  h.imp fun _ _ hab => ⟨hab.1.mono hrs, hab.2⟩

theorem renumbered_flip (h : List.Forall₂ (Renumbered id bare r) as bs) :
    List.Forall₂ (Renumbered id bare (flip r)) bs as := by
  apply List.Forall₂.flip
  exact h.imp fun _ _ hab => ⟨hab.1.flip, hab.2.symm⟩

theorem renumbered_comp (h : List.Forall₂ (Renumbered id bare r) as bs)
    (h' : List.Forall₂ (Renumbered id bare s) bs cs) :
    List.Forall₂ (Renumbered id bare (Relation.Comp r s)) as cs := by
  induction h generalizing cs with
  | nil =>
    cases h'
    exact .nil
  | cons hab _ ih =>
    cases h' with
    | cons hbc hcs => exact .cons ⟨hab.1.comp hbc.1, hab.2.trans hbc.2⟩ (ih hcs)

end Lists

/-- What does not read the id is the same for both. -/
theorem Renumbered.congr {β : Type} {r : Nat → Nat → Prop} {a b : Allocation}
    (h : Renumbered Allocation.id Allocation.bare r a b) (f : Allocation → β)
    (hf : ∀ c : Allocation, f c.bare = f c) : f a = f b := by
  rw [← hf a, h.2, hf b]

theorem allocation_ext {a b : Allocation} (hid : a.id = b.id) (hb : a.bare = b.bare) : a = b := by
  cases a
  cases b
  simp_all [Allocation.bare]

theorem allocation_biUnique {r : Nat → Nat → Prop} (ho : Ordered r) :
    Relator.BiUnique (Renumbered Allocation.id Allocation.bare r) := by
  refine ⟨?_, ?_⟩
  · intro a b c hac hbc
    exact allocation_ext (hac.1.left_unique ho hbc.1) (hac.2.trans hbc.2.symm)
  · intro a b c hab hac
    exact allocation_ext (hab.1.right_unique ho hac.1) (hab.2.symm.trans hac.2)

end Renumbering

open Renumbering

/-- The same findings in the same order, with the numbers in the ids paired. -/
structure Findings.Matches (r : Nat → Nat → Prop) (fs gs : Findings) : Prop where
  allocations : List.Forall₂ (Renumbered Allocation.id Allocation.bare r)
    fs.allocations gs.allocations
  frees : List.Forall₂ (Renumbered Free.freed Free.bare r) fs.frees gs.frees
  leaks : List.Forall₂ (Renumbered Leak.id Leak.bare r) fs.leaks gs.leaks
  warnings : fs.warnings = gs.warnings

theorem Findings.Matches.mono {r s : Nat → Nat → Prop} {fs gs : Findings}
    (hrs : ∀ m n, r m n → s m n) (h : fs.Matches r gs) : fs.Matches s gs :=
  ⟨renumbered_mono hrs h.allocations, renumbered_mono hrs h.frees, renumbered_mono hrs h.leaks,
    h.warnings⟩

/-- The same findings in the same order, up to the numbers in the ids. -/
def Findings.Alike (fs gs : Findings) : Prop := ∃ r, Ordered r ∧ fs.Matches r gs

theorem Findings.Alike.symm {fs gs : Findings} (h : fs.Alike gs) : gs.Alike fs := by
  obtain ⟨r, ho, hm⟩ := h
  exact ⟨flip r, ho.flip, renumbered_flip hm.allocations, renumbered_flip hm.frees,
    renumbered_flip hm.leaks, hm.warnings.symm⟩

theorem Findings.Alike.trans {fs gs hs : Findings} (h : fs.Alike gs) (h' : gs.Alike hs) :
    fs.Alike hs := by
  obtain ⟨r, ho, hm⟩ := h
  obtain ⟨s, ho', hm'⟩ := h'
  exact ⟨Relation.Comp r s, ho.comp ho', renumbered_comp hm.allocations hm'.allocations,
    renumbered_comp hm.frees hm'.frees, renumbered_comp hm.leaks hm'.leaks,
    hm.warnings.trans hm'.warnings⟩

end HeapAudit
