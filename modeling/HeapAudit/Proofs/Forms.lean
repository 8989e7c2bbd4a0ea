import HeapAudit.Form
import Mathlib.Data.List.TakeWhile

namespace HeapAudit
open Text

namespace Text

/-- A run of word characters that is not empty. -/
def IsName (cs : Chars) : Prop := cs ≠ [] ∧ ∀ c ∈ cs, isWord c = true

instance (cs : Chars) : Decidable (IsName cs) :=
  decidable_of_iff (cs ≠ [] ∧ cs.all isWord = true) (and_congr_right fun _ => List.all_eq_true)

/-- What is found is read at a place whose preceding character passes. -/
theorem search_place {α : Type} {allowed : Option Char → Bool} {f : Chars → Option α}
    {before : Option Char} {cs : Chars} {a : α} (h : search allowed f before cs = some a) :
    ∃ above rest, cs = above ++ rest ∧ allowed (above.getLast?.or before) = true ∧
      f rest = some a := by
  induction cs generalizing before with
  | nil =>
    unfold search at h
    split at h
    · rename_i hp
      exact ⟨[], [], rfl, hp, h⟩
    · cases h
  | cons c cs ih =>
    unfold search at h
    split at h
    · rename_i found hf
      cases h
      split at hf
      · rename_i hp
        exact ⟨[], c :: cs, rfl, hp, hf⟩
      · cases hf
    · obtain ⟨above, rest, rfl, hp, ha⟩ := ih h
      refine ⟨c :: above, rest, rfl, ?_, ha⟩
      rw [List.getLast?_cons]
      cases hl : above.getLast? with
      | none => simpa [hl] using hp
      | some d => simpa [hl] using hp

theorem search_some {α : Type} {allowed : Option Char → Bool} {f : Chars → Option α}
    {before : Option Char} {cs : Chars} {a : α} (h : search allowed f before cs = some a) :
    ∃ rest, rest <:+ cs ∧ f rest = some a := by
  obtain ⟨above, rest, rfl, -, ha⟩ := search_place h
  exact ⟨rest, List.suffix_append above rest, ha⟩

/-- What can be read at such a place is not missed. -/
theorem search_isSome {α : Type} {allowed : Option Char → Bool} {f : Chars → Option α}
    {before : Option Char} {above cs : Chars} (hp : allowed (above.getLast?.or before) = true)
    (hf : (f cs).isSome = true) : (search allowed f before (above ++ cs)).isSome = true := by
  induction above generalizing before with
  | nil =>
    have hp : allowed before = true := hp
    obtain ⟨a, ha⟩ := Option.isSome_iff_exists.mp hf
    cases cs with
    | nil => simp [search, hp, ha]
    | cons c cs => simp [search, hp, ha]
  | cons c above ih =>
    rw [List.cons_append, search]
    split
    · rfl
    · apply ih
      rw [List.getLast?_cons] at hp
      cases hl : above.getLast? with
      | none => simpa [hl] using hp
      | some d => simpa [hl] using hp

/-- What is read at the start is what is found. -/
theorem search_start {α : Type} {allowed : Option Char → Bool} {f : Chars → Option α}
    {before : Option Char} {cs : Chars} {a : α} (hp : allowed before = true) (h : f cs = some a) :
    search allowed f before cs = some a := by
  cases cs with
  | nil => rw [search, if_pos hp, h]
  | cons c cs => rw [search, if_pos hp, h]

theorem searchWord_start {α : Type} {f : Chars → Option α} {cs : Chars} {a : α}
    (h : f cs = some a) : searchWord f cs = some a :=
  search_start rfl h

/-- A run of a class is followed by the rest of the text. -/
theorem run?_some {p : Char → Bool} {cs run rest : Chars} (h : run? p cs = some (run, rest)) :
    run ≠ [] ∧ (∀ c ∈ run, p c = true) ∧ cs = run ++ rest := by
  unfold run? at h
  split at h
  · cases h
  · rename_i hne
    cases h
    exact ⟨hne, fun c hc => List.mem_takeWhile_imp hc, List.takeWhile_append_dropWhile.symm⟩

theorem word?_some {cs word rest : Chars} (h : word? cs = some (word, rest)) :
    IsName word ∧ cs = word ++ rest := by
  obtain ⟨hne, hall, hsplit⟩ := run?_some h
  exact ⟨⟨hne, hall⟩, hsplit⟩

theorem char?_some {c : Char} {cs rest : Chars} (h : char? c cs = some rest) : cs = c :: rest := by
  unfold char? at h
  split at h
  · rename_i d tail
    split at h
    · rename_i hd
      cases h
      rw [hd]
    · cases h
  · cases h

theorem trimLeft_suffix (cs : Chars) : trimLeft cs <:+ cs := List.dropWhile_suffix _

theorem literal?_suffix {word cs rest : Chars} (h : literal? word cs = some rest) :
    rest <:+ cs := by
  unfold literal? at h
  split at h
  · cases h
    exact List.drop_suffix _ _
  · cases h

theorem blanks?_suffix {cs rest : Chars} (h : blanks? cs = some rest) : rest <:+ cs := by
  unfold blanks? at h
  split at h
  · split at h
    · cases h
      exact (trimLeft_suffix _).trans (List.suffix_cons _ _)
    · cases h
  · cases h

theorem char?_mem {c : Char} {cs rest : Chars} (h : char? c cs = some rest) :
    c ∈ cs ∧ rest <:+ cs := by
  rw [char?_some h]
  exact ⟨List.mem_cons_self, List.suffix_cons _ _⟩

theorem opens?_mem {word cs rest : Chars} {bracket : Char}
    (h : opens? word bracket cs = some rest) : bracket ∈ cs := by
  simp only [opens?, Option.bind_eq_bind, Option.bind_eq_some_iff] at h
  obtain ⟨tail, hl, hc⟩ := h
  exact ((trimLeft_suffix tail).trans (literal?_suffix hl)).subset (char?_mem hc).1

end Text

theorem assigned?_some {cs var rest : Chars} (h : assigned? cs = some (var, rest)) :
    IsName var ∧ '=' ∈ cs := by
  simp only [assigned?, Option.bind_eq_bind, Option.bind_eq_some_iff, Option.some.injEq,
    Prod.mk.injEq] at h
  obtain ⟨⟨word, tail⟩, hw, after, hc, rfl, -⟩ := h
  obtain ⟨hname, rfl⟩ := word?_some hw
  exact ⟨hname, List.mem_append_right _ ((trimLeft_suffix tail).subset (char?_mem hc).1)⟩

/-- However a variable is bound, it is a word, and an equals sign follows it. -/
theorem Binding.read?_some {binding : Binding} {cs var rest : Chars}
    (h : binding.read? cs = some (var, rest)) : IsName var ∧ '=' ∈ cs := by
  cases binding with
  | plain => exact assigned?_some h
  | spacedPointer =>
    simp only [Binding.read?, Option.bind_eq_bind, Option.bind_eq_some_iff] at h
    obtain ⟨⟨type, after⟩, hw, spaced, hb, starred, hc, ha⟩ := h
    obtain ⟨hname, heq⟩ := assigned?_some ha
    obtain ⟨-, rfl⟩ := word?_some hw
    have hsuffix := (trimLeft_suffix starred).trans ((char?_mem hc).2.trans (blanks?_suffix hb))
    exact ⟨hname, List.mem_append_right _ (hsuffix.subset heq)⟩
  | attachedPointer =>
    simp only [Binding.read?, Option.bind_eq_bind, Option.bind_eq_some_iff] at h
    obtain ⟨⟨type, after⟩, hw, starred, hc, ha⟩ := h
    obtain ⟨hname, heq⟩ := assigned?_some ha
    obtain ⟨-, rfl⟩ := word?_some hw
    exact ⟨hname, List.mem_append_right _
      (((trimLeft_suffix starred).trans (char?_mem hc).2).subset heq)⟩

/-- The primitives that acquire memory. -/
def acquiring : List String := allocators ++ ["new", "new[]"]

theorem allocatorCall?_some {cs rest : Chars} {f : String}
    (h : allocatorCall? cs = some (f, rest)) : f ∈ allocators := by
  obtain ⟨g, hg, ho⟩ := List.exists_of_findSome?_eq_some h
  obtain ⟨after, -, he⟩ := Option.map_eq_some_iff.mp ho
  cases he
  exact hg

/-- A maker keeps the variable, and tells arrays by their primitive. -/
theorem Maker.read?_some {maker : Maker} {var rest : Chars} {found : Found}
    (h : maker.read? var rest = some found) :
    found.var = var ∧ found.primitive ∈ acquiring ∧
      (found.isArray = true ↔ found.primitive = "new[]") := by
  have hcall : ∀ f ∈ allocators, f ∈ acquiring ∧ f ≠ "new[]" := by decide
  cases maker with
  | call =>
    simp only [Maker.read?, Option.bind_eq_bind, Option.bind_eq_some_iff, Option.some.injEq] at h
    obtain ⟨⟨f, after⟩, hf, rfl⟩ := h
    obtain ⟨hin, hne⟩ := hcall f (allocatorCall?_some hf)
    exact ⟨rfl, hin, by simp [hne]⟩
  | castCall =>
    simp only [Maker.read?, Option.bind_eq_bind, Option.bind_eq_some_iff, Option.some.injEq] at h
    obtain ⟨cast, -, ⟨f, after⟩, hf, rfl⟩ := h
    obtain ⟨hin, hne⟩ := hcall f (allocatorCall?_some hf)
    exact ⟨rfl, hin, by simp [hne]⟩
  | construct =>
    simp only [Maker.read?, Option.bind_eq_bind, Option.bind_eq_some_iff, Option.some.injEq] at h
    obtain ⟨type, -, after, -, rfl⟩ := h
    exact ⟨rfl, by simp [acquiring], by simp⟩
  | constructArray =>
    simp only [Maker.read?, Option.bind_eq_bind, Option.bind_eq_some_iff, Option.some.injEq] at h
    obtain ⟨type, -, count, -, rfl⟩ := h
    exact ⟨rfl, by simp [acquiring], by simp⟩
  | constructPlain =>
    simp only [Maker.read?, Option.bind_eq_bind, Option.bind_eq_some_iff, Option.some.injEq] at h
    obtain ⟨type, -, rfl⟩ := h
    exact ⟨rfl, by simp [acquiring], by simp⟩

theorem AcquisitionForm.find?_some {form : AcquisitionForm} {segment : Chars} {found : Found}
    (h : form.find? segment = some found) :
    IsName found.var ∧ found.primitive ∈ acquiring ∧
      (found.isArray = true ↔ found.primitive = "new[]") ∧ '=' ∈ segment := by
  obtain ⟨rest, hsuffix, ha⟩ := search_some h
  simp only [AcquisitionForm.at?, Option.bind_eq_bind, Option.bind_eq_some_iff] at ha
  obtain ⟨⟨var, after⟩, hb, hm⟩ := ha
  obtain ⟨hname, heq⟩ := Binding.read?_some hb
  obtain ⟨hvar, hin, harray⟩ := Maker.read?_some hm
  exact ⟨hvar ▸ hname, hin, harray, hsuffix.subset heq⟩

namespace ReleaseForm

theorem find?_some {form : ReleaseForm} {segment var : Chars} (h : form.find? segment = some var) :
    IsName var := by
  obtain ⟨rest, -, ha⟩ := search_some h
  cases form with
  | free =>
    simp only [at?, Option.bind_eq_bind, Option.bind_eq_some_iff, Option.some.injEq] at ha
    obtain ⟨opened, -, ⟨word, after⟩, hw, closed, -, rfl⟩ := ha
    exact (word?_some hw).1
  | deleteArray =>
    simp only [at?, Option.bind_eq_bind, Option.bind_eq_some_iff, Option.some.injEq] at ha
    obtain ⟨opened, -, closed, -, ⟨word, after⟩, hw, rfl⟩ := ha
    exact (word?_some hw).1
  | delete =>
    simp only [at?, Option.bind_eq_bind, Option.bind_eq_some_iff, Option.some.injEq] at ha
    obtain ⟨keyword, -, opened, -, ⟨word, after⟩, hw, rfl⟩ := ha
    exact (word?_some hw).1

/-- The bracket that a release cannot do without. -/
def bracket? : ReleaseForm → Option Char
  | free => some '('
  | deleteArray => some '['
  | delete => none

theorem find?_bracket {form : ReleaseForm} {bracket : Char} {segment var : Chars}
    (hb : form.bracket? = some bracket) (h : form.find? segment = some var) :
    bracket ∈ segment := by
  obtain ⟨rest, hsuffix, ha⟩ := search_some h
  cases form with
  | free =>
    cases hb
    simp only [at?, Option.bind_eq_bind, Option.bind_eq_some_iff] at ha
    obtain ⟨opened, ho, -⟩ := ha
    exact hsuffix.subset (opens?_mem ho)
  | deleteArray =>
    cases hb
    simp only [at?, Option.bind_eq_bind, Option.bind_eq_some_iff] at ha
    obtain ⟨opened, ho, -⟩ := ha
    exact hsuffix.subset (opens?_mem ho)
  | delete => cases hb

end ReleaseForm

end HeapAudit
