import HeapAudit.Size
import Mathlib.Data.Nat.Digits.Defs

namespace HeapAudit
open Text Number

namespace Number

/-- The value of a list of digits, the last of which has the lowest place. -/
theorem ofDigits_eq (base : Nat) (ds : List Nat) :
    ofDigits base ds = Nat.ofDigits base ds.reverse := by
  simp [ofDigits, Nat.ofDigits_eq_foldr, List.foldr_reverse, add_comm, mul_comm]

end Number

namespace Size

/-- What a text counts for where a count is expected. -/
inductive Counts (cs : Chars) : Nat → Prop
  | numeral (hne : trim cs ≠ []) (hdigits : ∀ c ∈ trim cs, isDigit c = true)
      (hlength : (trim cs).length ≤ 4300) :
      Counts cs (max 1 (Nat.ofDigits 10 (digitsOf (trim cs)).reverse))
  | other (h : trim cs = [] ∨ ∃ c ∈ trim cs, isFigure c = false) : Counts cs 1

/-- Nothing but digits, and yet no numeral that can be read. -/
structure Unreadable (cs : Chars) : Prop where
  nonempty : trim cs ≠ []
  figures : ∀ c ∈ trim cs, isFigure c = true
  unread : (∃ c ∈ trim cs, isDigit c = false) ∨ 4300 < (trim cs).length

/-- Something could not be read. -/
def Doubtful {α : Type} (x : Except Doubt α) : Prop := ∃ d, x = .error d

theorem Doubtful.bind {α β : Type} {x : Except Doubt α} (h : Doubtful x)
    (f : α → Except Doubt β) : Doubtful (x >>= f) := by
  obtain ⟨d, rfl⟩ := h
  exact ⟨d, rfl⟩

theorem Doubtful.bind_right {α β : Type} {f : α → Except Doubt β} (h : ∀ a, Doubtful (f a))
    (x : Except Doubt α) : Doubtful (x >>= f) := by
  cases x with
  | error d => exact ⟨d, rfl⟩
  | ok a => exact h a

theorem Doubtful.map {α β : Type} {x : Except Doubt α} (h : Doubtful x) (f : α → β) :
    Doubtful (x.map f) := by
  obtain ⟨d, rfl⟩ := h
  exact ⟨d, rfl⟩

variable {cs : Chars} {n : Nat}

theorem atLeastOne_eq (n : Nat) : atLeastOne n = max 1 n := by
  unfold atLeastOne
  split <;> omega

theorem isFigure_of_isDigit {c : Char} (h : isDigit c = true) : isFigure c = true := by
  rw [isFigure, h, Bool.true_or]

theorem numeral_eq (h : cs.length ≤ 4300) :
    Size.numeral cs = .ok (Nat.ofDigits 10 (digitsOf cs).reverse) := by
  rw [Size.numeral, readDigits, digitLimit, if_pos h, ofDigits_eq]
  rfl

theorem doubtful_numeral (h : 4300 < cs.length) : Doubtful (Size.numeral cs) := by
  rw [Size.numeral, readDigits, digitLimit, if_neg (Nat.not_le.mpr h)]
  exact ⟨_, rfl⟩

theorem Counts.pos (h : Counts cs n) : 1 ≤ n := by
  cases h with
  | numeral hne hdigits hlength => exact le_max_left _ _
  | other h => exact le_rfl

theorem count_other (h : trim cs = [] ∨ ∃ c ∈ trim cs, isFigure c = false) : count cs = .ok 1 := by
  have hother : ((trim cs).isEmpty || !(trim cs).all isFigure) = true := by
    rcases h with hnil | ⟨c, hc, hf⟩
    · simp [hnil]
    · have hall : (trim cs).all isFigure = false := List.all_eq_false.mpr ⟨c, hc, by simp [hf]⟩
      simp [hall]
  exact if_pos hother

theorem count_figures (hne : trim cs ≠ []) (hf : ∀ c ∈ trim cs, isFigure c = true) :
    count cs = if (trim cs).all isDigit then (Size.numeral (trim cs)).map atLeastOne
      else .error (.numeral (.malformed (String.ofList (trim cs)))) := by
  have hfigures : ¬ ((trim cs).isEmpty || !(trim cs).all isFigure) = true := by
    simp [hne, List.all_eq_true.mpr hf]
  exact if_neg hfigures

theorem Counts.count_eq (h : Counts cs n) : count cs = .ok n := by
  cases h with
  | numeral hne hdigits hlength =>
    have hfigures : ∀ c ∈ trim cs, isFigure c = true :=
      fun c hc => isFigure_of_isDigit (hdigits c hc)
    rw [count_figures hne hfigures, if_pos (List.all_eq_true.mpr hdigits), numeral_eq hlength]
    exact congrArg Except.ok (atLeastOne_eq _)
  | other h => exact count_other h

theorem Unreadable.count (h : Unreadable cs) : Doubtful (count cs) := by
  rw [count_figures h.nonempty h.figures]
  split
  · rename_i hall
    have hlong : 4300 < (trim cs).length := by
      rcases h.unread with ⟨c, hc, hd⟩ | hlong
      · rw [List.all_eq_true.mp hall c hc] at hd
        cases hd
      · exact hlong
    exact (doubtful_numeral hlong).map _
  · exact ⟨_, rfl⟩

/-- The size of a call whose arguments are text, or the size of one element if the text leaves a
doubt. -/
theorem estimate_text {language : Language} (hl : language.isCFamily = true) {e : Event}
    {s : String} (ha : e.arguments = .text s) :
    estimate language e = match ofText e.primitive s.toList with
      | .ok n => .ok (max 1 (n : Int))
      | .error _ => .ok (max 1 (language.elementSize : Int)) := by
  rw [estimate, measure, if_pos hl, ha, ofCall]
  cases ofText e.primitive s.toList with
  | ok n => rfl
  | error d => rfl

end Size

end HeapAudit
