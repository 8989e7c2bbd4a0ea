import HeapAudit.Proofs.Counts
import HeapAudit.Syntax.Evaluate
import Mathlib.Data.List.TakeWhile

namespace HeapAudit.Syntax
open Text Number

def figureChar (value : Nat) (capital : Bool) : Char :=
  (if capital then "0123456789ABCDEF" else "0123456789abcdef").toList.getD value ' '

/-- A digit of a base as it is written; a letter may be a capital. -/
structure Figure (base : Nat) where
  value : Fin base
  capital : Bool

namespace Figure

variable {base : Nat}

def char (f : Figure base) : Char := figureChar f.value f.capital

end Figure

/-- At least one digit; each of the others may have an underscore before it. -/
structure Digits (base : Nat) where
  first : Figure base
  rest : List (Bool × Figure base)

namespace Digits

variable {base : Nat} (d : Digits base)

def figures : List (Figure base) := d.first :: d.rest.map Prod.snd

def chars : Chars :=
  d.first.char :: d.rest.flatMap fun next =>
    if next.1 then ['_', next.2.char] else [next.2.char]

/-- The value of the digits, the last of which has the lowest place. -/
def value : Nat := Nat.ofDigits base (d.figures.map (·.value.val)).reverse

end Digits

inductive Radix where
  | hexadecimal
  | octal
  | binary

namespace Radix

def base : Radix → Nat
  | hexadecimal => 16
  | octal => 8
  | binary => 2

def letter (capital : Bool) : Radix → Char
  | hexadecimal => if capital then 'X' else 'x'
  | octal => if capital then 'O' else 'o'
  | binary => if capital then 'B' else 'b'

end Radix

/-- An integer: decimal, without leading zeros and of at most 4300 digits, or with the mark of its
base. -/
inductive IntegerLiteral where
  | decimal (digits : Digits 10) (leading : digits.first.value = 0 → digits.rest = [])
      (short : digits.figures.length ≤ 4300)
  | based (radix : Radix) (capital : Bool) (digits : Digits radix.base)

namespace IntegerLiteral

def chars : IntegerLiteral → Chars
  | decimal digits _ _ => digits.chars
  | based radix capital digits => '0' :: radix.letter capital :: digits.chars

def value : IntegerLiteral → Nat
  | decimal digits _ _ => digits.value
  | based _ _ digits => digits.value

end IntegerLiteral

/-- A character that reading leaves in its place. -/
def Lasting (c : Char) : Prop :=
  plainChar c = c ∧ isBlank c = false ∧ c ∉ ['_', 'n', '-', '+']

instance : DecidablePred Lasting := fun _ => inferInstanceAs (Decidable (_ ∧ _ ∧ _))

theorem lasting_figureChar : ∀ (value : Fin 16) (capital : Bool),
    Lasting (figureChar value capital) := by
  decide +kernel

theorem digitIn?_figureChar : ∀ (value : Fin 16) (capital : Bool) (base : Fin 17),
    value.val < base.val → digitIn? base (figureChar value capital) = some value.val := by
  decide +kernel

theorem lasting_letter (radix : Radix) (capital : Bool) : Lasting (radix.letter capital) := by
  cases radix <;> cases capital <;> decide +kernel

section Lasting

variable {cs : Chars} (h : ∀ c ∈ cs, Lasting c)

include h

theorem not_mem_of_lasting {c : Char} (hc : c ∈ ['_', 'n', '-', '+']) : c ∉ cs :=
  fun hm => (h c hm).2.2 hc

theorem lasting_reverse : ∀ c ∈ cs.reverse, Lasting c :=
  fun c hc => h c (List.mem_reverse.mp hc)

/-- The mark of a big integer is taken off. -/
theorem dropWhile_bigMark (big : Bool) :
    ((cs ++ if big then ['n'] else []).reverse.dropWhile (· = 'n')).reverse = cs := by
  have hdigits : cs.reverse.dropWhile (· = 'n') = cs.reverse := by
    apply List.dropWhile_eq_self_iff.mpr
    intro hl
    have hmark := not_mem_of_lasting (lasting_reverse h) (c := 'n') (by decide)
    simpa using ne_of_mem_of_not_mem (List.getElem_mem hl) hmark
  cases big with
  | false => simp [hdigits]
  | true => simp [hdigits]

theorem plain_lasting : plain cs = cs := by
  have hmap : cs.map plainChar = cs := by
    conv_rhs => rw [← List.map_id cs]
    exact List.map_congr_left fun c hc => (h c hc).1
  have hkept : ∀ ds : Chars, (∀ c ∈ ds, Lasting c) → ds.dropWhile isBlank = ds := by
    intro ds hds
    apply List.dropWhile_eq_self_iff.mpr
    intro hl
    simp [(hds _ (List.getElem_mem hl)).2.1]
  rw [plain, hmap, trim, trimLeft, hkept cs h, trimRight, hkept _ (lasting_reverse h),
    List.reverse_reverse]

theorem sign_lasting : sign cs = (false, cs) := by
  have hminus := not_mem_of_lasting h (c := '-') (by decide)
  have hplus := not_mem_of_lasting h (c := '+') (by decide)
  unfold sign
  split
  · simp at hminus
  · simp at hplus
  · rfl

/-- A decimal integer is read by its digits. -/
theorem readLiteral?_decimal (hzero : cs.head? = some '0' → cs.length = 1)
    (hshort : cs.length ≤ 4300) : readLiteral? cs = (readBase? 10 cs).map Int.ofNat := by
  unfold readLiteral?
  rw [plain_lasting h, sign_lasting h]
  dsimp only
  split
  · simp at hzero
  · have hlimit : cs.length ≤ digitLimit := hshort
    rw [if_pos hlimit]
    rfl

theorem readLiteral?_based {radix : Radix} {capital : Bool} {digits : Chars}
    (hcs : cs = '0' :: radix.letter capital :: digits) :
    readLiteral? cs = (readBase? radix.base digits).map Int.ofNat := by
  unfold readLiteral?
  rw [plain_lasting h, sign_lasting h, hcs]
  cases radix <;> cases capital <;> rfl

end Lasting

namespace Figure

variable {base : Nat} (hb : base ≤ 16)

include hb

theorem lasting (f : Figure base) : Lasting f.char :=
  lasting_figureChar (f.value.castLE hb) f.capital

theorem digitIn?_char (f : Figure base) : digitIn? base f.char = some f.value.val :=
  digitIn?_figureChar (f.value.castLE hb) f.capital ⟨base, by omega⟩ f.value.isLt

theorem mapM_digitIn? (fs : List (Figure base)) :
    (fs.map char).mapM (digitIn? base) = some (fs.map (·.value.val)) := by
  induction fs with
  | nil => rfl
  | cons f fs ih => simp [List.mapM_cons, f.digitIn?_char hb, ih]

end Figure

theorem Radix.base_le (radix : Radix) : radix.base ≤ 16 := by
  cases radix <;> decide

namespace Digits

variable {base : Nat} (hb : base ≤ 16) (d : Digits base)

include hb

theorem lasting : ∀ c ∈ d.figures.map Figure.char, Lasting c := by
  intro c hc
  obtain ⟨f, -, rfl⟩ := List.mem_map.mp hc
  exact f.lasting hb

theorem filter_chars : d.chars.filter (· ≠ '_') = d.figures.map Figure.char := by
  have hdigit : ∀ f : Figure base, f.char ≠ '_' := by
    intro f he
    exact (f.lasting hb).2.2 (by simp [he])
  obtain ⟨first, rest⟩ := d
  unfold chars figures
  induction rest with
  | nil => simp [hdigit]
  | cons next rest ih =>
    obtain ⟨spaced, f⟩ := next
    cases spaced with
    | false => simpa [hdigit] using ih
    | true => simpa [hdigit] using ih

theorem readBase?_figures : readBase? base (d.figures.map Figure.char) = some d.value := by
  rw [readBase?, if_neg (by simp [figures]), Figure.mapM_digitIn? hb, Option.map_some, ofDigits_eq]
  rfl

end Digits

theorem value_of_zero : ∀ (value : Fin 10) (capital : Bool),
    figureChar value capital = '0' → value = 0 := by
  decide +kernel

namespace IntegerLiteral

/-- A literal without its underscores. -/
def bare : IntegerLiteral → Chars
  | decimal digits _ _ => digits.figures.map Figure.char
  | based radix capital digits => '0' :: radix.letter capital :: digits.figures.map Figure.char

theorem lasting_bare (l : IntegerLiteral) : ∀ c ∈ l.bare, Lasting c := by
  cases l with
  | decimal digits leading short => exact digits.lasting (by decide)
  | based radix capital digits =>
    intro c hc
    rcases List.mem_cons.mp hc with rfl | hc
    · exact lasting_figureChar 0 false
    rcases List.mem_cons.mp hc with rfl | hc
    · exact lasting_letter radix capital
    · exact digits.lasting radix.base_le c hc

theorem filter_chars (l : IntegerLiteral) : l.chars.filter (· ≠ '_') = l.bare := by
  cases l with
  | decimal digits leading short => exact digits.filter_chars (by decide)
  | based radix capital digits =>
    have hletter : radix.letter capital ≠ '_' :=
      fun he => (lasting_letter radix capital).2.2 (by simp [he])
    rw [chars, List.filter_cons_of_pos (by decide),
      List.filter_cons_of_pos (by simpa using hletter), digits.filter_chars radix.base_le, bare]

theorem readLiteral?_bare (l : IntegerLiteral) : readLiteral? l.bare = some (l.value : Int) := by
  have hl := l.lasting_bare
  cases l with
  | decimal digits leading short =>
    -- A first zero is the only digit, so it is not taken for the start of a mark.
    have hzero : (digits.figures.map Figure.char).head? = some '0' →
        (digits.figures.map Figure.char).length = 1 := by
      intro h
      have hfirst : digits.first.char = '0' := by simpa [Digits.figures] using h
      simp [Digits.figures, leading (value_of_zero _ _ hfirst)]
    have hshort : (digits.figures.map Figure.char).length ≤ 4300 := by simpa using short
    rw [readLiteral?_decimal hl hzero hshort, bare, digits.readBase?_figures (by decide)]
    rfl
  | based radix capital digits =>
    rw [readLiteral?_based hl rfl, digits.readBase?_figures radix.base_le]
    rfl

end IntegerLiteral

/-- Underscores and the mark of a big integer do not count. -/
theorem numeral_eq {text cs : Chars} (htext : text.filter (· ≠ '_') = cs)
    (h : ∀ c ∈ cs, Lasting c) {n : Nat} (hread : readLiteral? cs = some (n : Int)) (big : Bool) :
    numeral (String.ofList (text ++ if big then ['n'] else [])) = .int n := by
  have hfilter : (text ++ if big then ['n'] else []).filter (· ≠ '_') =
      cs ++ if big then ['n'] else [] := by
    rw [List.filter_append, htext]
    cases big <;> rfl
  unfold numeral
  rw [String.toList_ofList]
  dsimp only
  rw [hfilter, dropWhile_bigMark h, hread]

/-- Every integer that is written without leading zeros, or with the mark of a base, is read as the
value of its digits. -/
theorem numeral_literal (l : IntegerLiteral) (big : Bool) :
    numeral (String.ofList (l.chars ++ if big then ['n'] else [])) = .int l.value :=
  numeral_eq l.filter_chars l.lasting_bare l.readLiteral?_bare big

example : numeral "0xF_fn" = .int 255 := rfl

end HeapAudit.Syntax
