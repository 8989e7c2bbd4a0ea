import HeapAudit.Number.Places
import HeapAudit.Proofs.Rounding
import Mathlib.Data.Nat.Digits.Defs

namespace HeapAudit.Number

/-- A whole number that is nearest to a value, and even if the value is halfway between two. -/
def NearestEven (x : ℚ) (k : Nat) : Prop := |x - k| ≤ 1 / 2 ∧ (|x - k| = 1 / 2 → k % 2 = 0)

section Nearest

variable {x y : ℚ} {k l : Nat}

theorem nearestEven_natCast (k : Nat) : NearestEven k k := by
  simp [NearestEven]

/-- Rounding keeps the order. -/
theorem NearestEven.mono (hx : NearestEven x k) (hy : NearestEven y l) (h : x ≤ y) : k ≤ l := by
  by_contra hlt
  have hkl : (l : ℚ) + 1 ≤ k := by exact_mod_cast not_le.mp hlt
  have hxk := abs_le.mp hx.1
  have hyl := abs_le.mp hy.1
  -- Both values are the midpoint between `l` and `k`, of which one is odd.
  have hmid : x = k - 1 / 2 := by linarith
  have hmid' : y = l + 1 / 2 := by linarith
  have heven := hx.2 (by rw [hmid]; norm_num)
  have heven' := hy.2 (by rw [hmid']; norm_num)
  have hnext : (k : ℚ) = l + 1 := by linarith
  have hsucc : k = l + 1 := by exact_mod_cast hnext
  omega

theorem NearestEven.unique (hk : NearestEven x k) (hl : NearestEven x l) : k = l :=
  le_antisymm (hk.mono hl le_rfl) (hl.mono hk le_rfl)

/-- A value between a whole number and the next is nearest to the one or to the other. -/
theorem nearestEven_below {q : Nat} {part : ℚ} (h0 : 0 ≤ part) (h : part < 1 / 2) :
    NearestEven (q + part) q := by
  rw [NearestEven, add_sub_cancel_left, abs_of_nonneg h0]
  exact ⟨h.le, fun he => absurd he h.ne⟩

theorem nearestEven_above {q : Nat} {part : ℚ} (h : 1 / 2 < part) (h1 : part < 1) :
    NearestEven (q + part) (q + 1) := by
  have hdiff : |(q : ℚ) + part - ((q + 1 : Nat) : ℚ)| = 1 - part := by
    push_cast
    rw [add_sub_add_left_eq_sub, abs_sub_comm, abs_of_pos (sub_pos.mpr h1)]
  rw [NearestEven, hdiff]
  exact ⟨by linarith, fun he => absurd he (by linarith)⟩

theorem nearestEven_half {q k : Nat} (hk : k = q ∨ k = q + 1) (heven : k % 2 = 0) :
    NearestEven (q + 1 / 2) k := by
  refine ⟨?_, fun _ => heven⟩
  rcases hk with rfl | rfl
  · norm_num
  · push_cast
    rw [add_sub_add_left_eq_sub]
    norm_num

theorem nearestEven_roundDiv (n : Nat) {d : Nat} (hd : 0 < d) :
    NearestEven ((n : ℚ) / d) (roundDiv n d) := by
  have hd' : (0 : ℚ) < d := by exact_mod_cast hd
  have hvalue : (n : ℚ) / d = (n / d : Nat) + ((n % d : Nat) : ℚ) / d := by
    have hn : (n : ℚ) = d * (n / d : Nat) + (n % d : Nat) := by
      exact_mod_cast (Nat.div_add_mod n d).symm
    conv_lhs => rw [hn]
    field_simp
  have hbelow : ((n % d : Nat) : ℚ) / d < 1 := by
    rw [div_lt_one hd']
    exact_mod_cast Nat.mod_lt n hd
  rw [hvalue]
  rcases lt_trichotomy (2 * (n % d)) d with hlow | hhalf | hhigh
  · have hpart : ((n % d : Nat) : ℚ) / d < 1 / 2 := by
      rw [div_lt_div_iff₀ hd' two_pos]
      exact_mod_cast (show n % d * 2 < 1 * d by omega)
    have hround : roundDiv n d = n / d := if_pos hlow
    rw [hround]
    exact nearestEven_below (by positivity) hpart
  · have hpart : ((n % d : Nat) : ℚ) / d = 1 / 2 := by
      rw [div_eq_div_iff hd'.ne' two_ne_zero]
      exact_mod_cast (show n % d * 2 = 1 * d by omega)
    rw [hpart]
    apply nearestEven_half
    · unfold roundDiv
      dsimp only
      split_ifs <;> omega
    · unfold roundDiv
      dsimp only
      split_ifs <;> omega
  · have hpart : 1 / 2 < ((n % d : Nat) : ℚ) / d := by
      rw [div_lt_div_iff₀ two_pos hd']
      exact_mod_cast (show 1 * d < n % d * 2 by omega)
    have hround : roundDiv n d = n / d + 1 := by
      unfold roundDiv
      dsimp only
      rw [if_neg (by omega), if_neg (by omega)]
    rw [hround]
    exact nearestEven_above hpart hbelow

theorem nearestEven_roundScaled (n : Nat) {d : Nat} (hd : 0 < d) (j : Int) :
    NearestEven ((n : ℚ) / d * 2 ^ j) (roundScaled n d j) := by
  obtain ⟨a, b, hb, hround, hvalue⟩ := exists_roundScaled (n := n) hd j
  rw [hround, ← hvalue]
  exact nearestEven_roundDiv a hb

end Nearest

/-- A decimal numeral: its whole part and its places, the last of which is not a zero. -/
structure Decimal where
  whole : Nat
  places : List (Fin 10)
  trimmed : places.getLast? ≠ some 0

namespace Decimal

variable (d : Decimal)

/-- The number that a numeral stands for. -/
def value : ℚ :=
  d.whole + (Nat.ofDigits 10 (d.places.map Fin.val).reverse : Nat) / 10 ^ d.places.length

def placeChar (digit : Fin 10) : Char := Nat.digitChar digit

/-- The places with the point before them; without places there is no point. -/
def fraction : List Char := if d.places = [] then [] else '.' :: d.places.map placeChar

def text : String := toString d.whole ++ String.ofList d.fraction

theorem placeChar_injective : Function.Injective placeChar := by
  intro a b
  revert a b
  decide

theorem isDigit_placeChar (digit : Fin 10) : (placeChar digit).isDigit = true := by
  revert digit
  decide

theorem toList_text : d.text.toList = Nat.toDigits 10 d.whole ++ d.fraction := by
  simp [text]

theorem isDigit_whole : ∀ c ∈ Nat.toDigits 10 d.whole, c.isDigit = true :=
  fun _ hc => Nat.isDigit_of_mem_toDigits (by decide) (by decide) hc

theorem mem_text {c : Char} (h : c ∈ d.text.toList) : c.isDigit = true ∨ c = '.' := by
  rw [toList_text, List.mem_append] at h
  rcases h with hw | hf
  · exact .inl (d.isDigit_whole c hw)
  · unfold fraction at hf
    split at hf
    · simp at hf
    · rcases List.mem_cons.mp hf with rfl | hf
      · exact .inr rfl
      · obtain ⟨digit, -, rfl⟩ := List.mem_map.mp hf
        exact .inl (isDigit_placeChar digit)

theorem takeWhile_fraction : d.fraction.takeWhile Char.isDigit = [] := by
  unfold fraction
  split <;> rfl

theorem dropWhile_fraction : d.fraction.dropWhile Char.isDigit = d.fraction := by
  unfold fraction
  split <;> rfl

/-- The whole part is read up to the point. -/
theorem takeWhile_text : d.text.toList.takeWhile Char.isDigit = Nat.toDigits 10 d.whole := by
  rw [toList_text, List.takeWhile_append_of_pos d.isDigit_whole, takeWhile_fraction,
    List.append_nil]

theorem dropWhile_text : d.text.toList.dropWhile Char.isDigit = d.fraction := by
  rw [toList_text, List.dropWhile_append_of_pos d.isDigit_whole, dropWhile_fraction]

theorem places_of_fraction {d e : Decimal} (h : d.fraction = e.fraction) : d.places = e.places := by
  unfold fraction at h
  split_ifs at h with hd he he
  · rw [hd, he]
  · exact List.map_injective_iff.mpr placeChar_injective (List.cons.inj h).2

/-- A numeral is known by its text. -/
theorem text_injective : Function.Injective text := by
  intro d e h
  have hw := congrArg (fun s => s.toList.takeWhile Char.isDigit) h
  have hf := congrArg (fun s => s.toList.dropWhile Char.isDigit) h
  simp only [takeWhile_text] at hw
  simp only [dropWhile_text] at hf
  have hwhole : d.whole = e.whole := by
    rw [← Nat.ofDigitChars_ten_toDigits (n := d.whole), hw, Nat.ofDigitChars_ten_toDigits]
  have hplaces := places_of_fraction hf
  cases d
  cases e
  simp_all

end Decimal

theorem toString_digit {n : Nat} (h : n < 10) : toString n = String.ofList [Nat.digitChar n] := by
  rw [Nat.toString_eq_ofList_toDigits, Nat.toDigits_of_lt_base h]

/-- Hundredths are written as the numeral of their value. -/
theorem hundredthsText_decimal (h : Nat) :
    ∃ d : Decimal, hundredthsText h = d.text ∧ d.value = h / 100 := by
  have htenth : h / 10 % 10 < 10 := Nat.mod_lt _ (by decide)
  have hhundredth : h % 10 < 10 := Nat.mod_lt _ (by decide)
  have hsum : (h : ℚ) = 100 * (h / 100 : Nat) + 10 * (h / 10 % 10 : Nat) + (h % 10 : Nat) := by
    exact_mod_cast (show h = 100 * (h / 100) + 10 * (h / 10 % 10) + h % 10 by omega)
  unfold hundredthsText
  dsimp only
  rw [toString_digit htenth, toString_digit hhundredth]
  split_ifs with h0 h1
  · refine ⟨⟨h / 100, [⟨h / 10 % 10, htenth⟩, ⟨h % 10, hhundredth⟩], by simpa using h0⟩, ?_, ?_⟩
    · apply String.toList_injective
      simp [Decimal.text, Decimal.fraction, Decimal.placeChar]
    · change ((h / 100 : Nat) : ℚ) + (Nat.ofDigits 10 [h % 10, h / 10 % 10] : Nat) / 10 ^ 2 = _
      rw [Nat.ofDigits_cons, Nat.ofDigits_singleton, Nat.cast_add, Nat.cast_mul, Nat.cast_ofNat]
      linarith
  · have hnone : h % 10 = 0 := not_not.mp h0
    refine ⟨⟨h / 100, [⟨h / 10 % 10, htenth⟩], by simpa using h1⟩, ?_, ?_⟩
    · apply String.toList_injective
      simp [Decimal.text, Decimal.fraction, Decimal.placeChar]
    · change ((h / 100 : Nat) : ℚ) + (Nat.ofDigits 10 [h / 10 % 10] : Nat) / 10 ^ 1 = _
      rw [hnone, Nat.cast_zero] at hsum
      rw [Nat.ofDigits_singleton]
      linarith
  · have hnone : h % 10 = 0 := not_not.mp h0
    have hnone' : h / 10 % 10 = 0 := not_not.mp h1
    refine ⟨⟨h / 100, [], by simp⟩, ?_, ?_⟩
    · simp [Decimal.text, Decimal.fraction]
    · change ((h / 100 : Nat) : ℚ) + (Nat.ofDigits 10 [] : Nat) / 10 ^ 0 = _
      rw [hnone, hnone', Nat.cast_zero] at hsum
      rw [Nat.ofDigits_nil, Nat.cast_zero]
      linarith

end HeapAudit.Number
