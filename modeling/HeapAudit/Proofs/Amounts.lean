import HeapAudit.Proofs.Decimals
import HeapAudit.Report.Bytes

namespace HeapAudit
open Number

namespace Number.Binary64

theorem ratio_value (m : Nat) (e : Int) :
    0 < (ratio m e).2 ∧ ((ratio m e).1 : ℚ) / (ratio m e).2 = m * 2 ^ e := by
  unfold ratio
  split
  · rename_i he
    rw [cast_shiftLeft m he]
    simp
  · rename_i he
    have hshift := cast_shiftLeft 1 (show 0 ≤ -e by omega)
    refine ⟨?_, ?_⟩
    · rw [Nat.shiftLeft_eq]
      positivity
    · rw [hshift, Nat.cast_one, one_mul, zpow_neg, div_inv_eq_mul]

/-- The significand of an integer has fifty-three places, which are enough for it. -/
theorem exists_significand {n : Nat} (hpos : 0 < n) (hn : n ≤ 2 ^ 53) :
    ∃ k : Nat, k < 2 ^ 53 ∧ (k : ℚ) = n * 2 ^ (52 - (Nat.log 2 n : Int)) := by
  have hlow : 2 ^ Nat.log 2 n ≤ n := Nat.pow_log_le_self 2 hpos.ne'
  have hhigh : n < 2 ^ (Nat.log 2 n + 1) := Nat.lt_pow_succ_log_self one_lt_two n
  generalize Nat.log 2 n = top at hlow hhigh ⊢
  rcases Nat.lt_or_ge 52 top with habove | hbelow
  · have hpow : 2 ^ 53 ≤ 2 ^ top := Nat.pow_le_pow_right two_pos habove
    obtain rfl : n = 2 ^ 53 := by omega
    obtain rfl : top = 53 := by
      have hle := (Nat.pow_le_pow_iff_right one_lt_two).mp hlow
      omega
    exact ⟨2 ^ 52, by norm_num, by norm_num⟩
  · refine ⟨n * 2 ^ (52 - top), ?_, ?_⟩
    · calc n * 2 ^ (52 - top) < 2 ^ (top + 1) * 2 ^ (52 - top) := by gcongr
        _ = 2 ^ 53 := by
          rw [← pow_add]
          congr 1
          omega
    · rw [Nat.cast_mul, Nat.cast_pow, Nat.cast_ofNat, ← zpow_natCast]
      congr 2
      omega

/-- Integers up to `2 ^ 53` are double precision numbers. -/
theorem ofInt?_exact {n : Nat} (hpos : 0 < n) (hn : n ≤ 2 ^ 53) :
    ∃ m e, ofInt? n = some (.finite false m e) ∧ (m : ℚ) * 2 ^ e = n := by
  obtain ⟨k, hk, hvalue⟩ := exists_significand hpos hn
  have hplace : placeOf n 1 = (Nat.log 2 n : Int) - 52 := by
    rw [placeOf_eq one_pos hpos.ne', Nat.cast_one, div_one, Int.log_natCast]
    omega
  have htop : Nat.log 2 n ≤ 53 := by
    rw [← Nat.log_pow one_lt_two 53]
    exact Nat.log_mono_right hn
  have hround : roundScaled n 1 (-((Nat.log 2 n : Int) - 52)) = k := by
    have hnear := nearestEven_roundScaled n one_pos (-((Nat.log 2 n : Int) - 52))
    rw [Nat.cast_one, div_one, neg_sub, ← hvalue] at hnear
    rw [neg_sub]
    exact hnear.unique (nearestEven_natCast k)
  refine ⟨k, (Nat.log 2 n : Int) - 52, ?_, ?_⟩
  · have hcarry : k ≠ 1 <<< 53 := hk.ne
    have hfinite : ¬ greatestExponent < (Nat.log 2 n : Int) - 52 := by
      unfold greatestExponent
      omega
    have hratio : ofRatio false n 1 = .finite false k ((Nat.log 2 n : Int) - 52) := by
      rw [ofRatio, if_neg hpos.ne']
      simp only [hplace, hround, if_neg hcarry, if_neg hfinite]
    have hsign : decide ((n : Int) < 0) = false := by simp
    rw [ofInt?, hsign, Int.natAbs_natCast, hratio]
  · rw [hvalue, mul_assoc, ← zpow_add₀ two_ne_zero]
    simp

end Number.Binary64

namespace Report

/-- An amount as it is shown: a number of a unit. -/
structure Amount where
  number : Decimal
  unit : Fin 4

namespace Amount

def text (a : Amount) : String :=
  a.number.text ++ " " ++ ["B", "KB", "MB", "GB"].get a.unit

/-- How much is shown, in bytes. -/
def quantity (a : Amount) : ℚ := a.number.value * 1024 ^ a.unit.val

/-- The unit is the largest one that `n` bytes reach, and the number is the nearest with two
decimal places. -/
structure Rounds (a : Amount) (n : Nat) : Prop where
  reached : 1024 ^ a.unit.val ≤ n
  largest : ∀ u : Fin 4, 1024 ^ u.val ≤ n → u ≤ a.unit
  nearest : ∃ k : Nat, a.number.value = k / 100 ∧ NearestEven (100 * (n / 1024 ^ a.unit.val)) k

/-- An amount is known by its text. -/
theorem text_injective : Function.Injective text := by
  intro a b h
  have hspace : ∀ d : Decimal, ' ' ∉ d.text.toList := by
    intro d hm
    rcases d.mem_text hm with hc | hc
    · simp at hc
    · simp at hc
  have hunits : ∀ u : Fin 4, ' ' ∉ (["B", "KB", "MB", "GB"].get u).toList := by decide
  have hnames : Function.Injective ["B", "KB", "MB", "GB"].get := by decide
  have hlist := congrArg String.toList h
  simp only [text, String.toList_append, List.append_assoc] at hlist
  obtain ⟨hnumber, -, hunit⟩ :=
    (List.append_cons_inj_of_notMem (hspace a.number) (hunits a.unit)).mp hlist
  obtain ⟨number, unit⟩ := a
  obtain ⟨number', unit'⟩ := b
  obtain rfl : number = number' := Decimal.text_injective (String.toList_injective hnumber)
  obtain rfl : unit = unit' := hnames (String.toList_injective hunit)
  rfl

theorem unit_pos (a : Amount) : (0 : ℚ) < 1024 ^ a.unit.val := by positivity

namespace Rounds

variable {a b : Amount} {m n : Nat}

theorem quantity_near (h : a.Rounds n) : |a.quantity - n| ≤ 5 / 1000 * 1024 ^ a.unit.val := by
  obtain ⟨k, hvalue, hnear, -⟩ := h.nearest
  have hunit := a.unit_pos
  have hoff : a.quantity - n =
      -(100 * (n / 1024 ^ a.unit.val) - k) * (1024 ^ a.unit.val / 100) := by
    rw [quantity, hvalue]
    field_simp
    ring
  calc |a.quantity - n|
      = |100 * (n / 1024 ^ a.unit.val) - (k : ℚ)| * (1024 ^ a.unit.val / 100) := by
        rw [hoff, abs_mul, abs_neg, abs_of_pos (by positivity : (0 : ℚ) < 1024 ^ a.unit.val / 100)]
    _ ≤ 1 / 2 * (1024 ^ a.unit.val / 100) := by gcongr
    _ = 5 / 1000 * 1024 ^ a.unit.val := by ring

/-- At least one of the unit is shown. -/
theorem unit_le_quantity (h : a.Rounds n) : 1024 ^ a.unit.val ≤ a.quantity := by
  obtain ⟨k, hvalue, hnear⟩ := h.nearest
  have hone : (1 : ℚ) ≤ n / 1024 ^ a.unit.val := by
    rw [one_le_div a.unit_pos]
    exact_mod_cast h.reached
  have hk : 100 ≤ k := (nearestEven_natCast 100).mono hnear (by push_cast; linarith)
  have hk' : (1 : ℚ) ≤ k / 100 := by
    rw [one_le_div (by norm_num)]
    exact_mod_cast hk
  rw [quantity, hvalue]
  exact le_mul_of_one_le_left a.unit_pos.le hk'

/-- At most one of the next unit is shown. -/
theorem quantity_le_next (h : a.Rounds n) (hlast : a.unit.val < 3) :
    a.quantity ≤ 1024 ^ (a.unit.val + 1) := by
  obtain ⟨k, hvalue, hnear⟩ := h.nearest
  have hbelow : n < 1024 ^ (a.unit.val + 1) := by
    by_contra hnext
    have hle := h.largest ⟨a.unit.val + 1, by omega⟩ (not_lt.mp hnext)
    exact absurd (Fin.le_def.mp hle) (Nat.not_succ_le_self _)
  have hpart : (n : ℚ) / 1024 ^ a.unit.val ≤ 1024 := by
    rw [div_le_iff₀ a.unit_pos, ← pow_succ']
    exact_mod_cast hbelow.le
  have hk : k ≤ 102400 := hnear.mono (nearestEven_natCast 102400) (by push_cast; linarith)
  have hk' : (k : ℚ) / 100 ≤ 1024 := by
    rw [div_le_iff₀ (by norm_num)]
    exact_mod_cast (show k ≤ 1024 * 100 from hk)
  rw [quantity, hvalue, pow_succ']
  exact mul_le_mul_of_nonneg_right hk' a.unit_pos.le

/-- Larger amounts are never shown as less: within a unit because rounding keeps the order, and
between units because nothing below a unit is shown as more than it. -/
theorem quantity_mono (ha : a.Rounds n) (hb : b.Rounds m) (h : n ≤ m) :
    a.quantity ≤ b.quantity := by
  rcases (hb.largest a.unit (ha.reached.trans h)).eq_or_lt with hsame | hlt
  · obtain ⟨k, hk, hnear⟩ := ha.nearest
    obtain ⟨l, hl, hnear'⟩ := hb.nearest
    rw [hsame] at hnear
    have hkl : k ≤ l := by
      apply hnear.mono hnear'
      gcongr
    rw [quantity, quantity, hk, hl, hsame]
    gcongr
  · have hnext : a.unit.val + 1 ≤ b.unit.val := Fin.lt_def.mp hlt
    calc a.quantity ≤ 1024 ^ (a.unit.val + 1) := ha.quantity_le_next (by omega)
      _ ≤ 1024 ^ b.unit.val := pow_le_pow_right₀ (by norm_num) hnext
      _ ≤ b.quantity := hb.unit_le_quantity

end Rounds

end Amount

/-- The unit is the largest one that is reached. -/
theorem unitOf_largest {n d : Nat} (hd : 0 < d) (hpos : 0 < n) :
    ∃ u : Fin 4, unitOf (n * d) d = u.val ∧ 1024 ^ u.val ≤ n ∧
      ∀ v : Fin 4, 1024 ^ v.val ≤ n → v ≤ u := by
  have hshift : ∀ k, n * d < d <<< k ↔ n < 2 ^ k := by
    intro k
    rw [Nat.shiftLeft_eq, Nat.mul_comm d, Nat.mul_lt_mul_right hd]
  have hbelow : ∀ u v : Fin 4, n < 1024 ^ (u.val + 1) → 1024 ^ v.val ≤ n → v ≤ u := by
    intro u v hlt hle
    have hpow := (Nat.pow_lt_pow_iff_right (show 1 < 1024 by decide)).mp (hle.trans_lt hlt)
    exact Fin.le_def.mpr (Nat.le_of_lt_succ hpow)
  unfold unitOf
  simp only [hshift]
  split_ifs with h1 h2 h3
  · exact ⟨0, rfl, hpos, fun v => hbelow 0 v h1⟩
  · exact ⟨1, rfl, not_lt.mp h1, fun v => hbelow 1 v h2⟩
  · exact ⟨2, rfl, not_lt.mp h2, fun v => hbelow 2 v h3⟩
  · exact ⟨3, rfl, not_lt.mp h3, fun v _ => Fin.le_last v⟩

theorem unitName_eq : ∀ u : Fin 4, unitName u = ["B", "KB", "MB", "GB"].get u := by
  decide

theorem finiteBytes_eq (m : Nat) (e : Int) :
    finiteBytes m e =
      hundredthsText (hundredths m
        (e - 10 * (unitOf (Binary64.ratio m e).1 (Binary64.ratio m e).2 : Nat))) ++ " " ++
      unitName (unitOf (Binary64.ratio m e).1 (Binary64.ratio m e).2) :=
  rfl

theorem finiteBytes_amount {m n : Nat} {e : Int} (hvalue : (m : ℚ) * 2 ^ e = n) (hpos : 0 < n) :
    ∃ a : Amount, finiteBytes m e = a.text ∧ a.Rounds n := by
  obtain ⟨hd, hratio⟩ := Binary64.ratio_value m e
  have hd' : ((Binary64.ratio m e).2 : ℚ) ≠ 0 := by exact_mod_cast hd.ne'
  have hwhole : (Binary64.ratio m e).1 = n * (Binary64.ratio m e).2 := by
    rw [hvalue, div_eq_iff hd'] at hratio
    exact_mod_cast hratio
  obtain ⟨u, hu, hreached, hlargest⟩ := unitOf_largest hd hpos
  rw [← hwhole] at hu
  obtain ⟨number, htext, hnumber⟩ := hundredthsText_decimal (hundredths m (e - 10 * u))
  refine ⟨⟨number, u⟩, ?_, hreached, hlargest, _, hnumber, ?_⟩
  · rw [finiteBytes_eq, hu, htext, unitName_eq]
    rfl
  · obtain ⟨hd, hratio⟩ := Binary64.ratio_value m (e - 10 * u)
    have hnear := nearestEven_roundDiv (100 * (Binary64.ratio m (e - 10 * u)).1) hd
    have hscaled : (m : ℚ) * 2 ^ (e - 10 * (u.val : Int)) = n / 1024 ^ u.val := by
      have hunit : (2 : ℚ) ^ (10 * (u.val : Int)) = 1024 ^ u.val := by
        rw [zpow_mul, zpow_natCast]
        norm_num
      rw [zpow_sub₀ two_ne_zero, ← mul_div_assoc, hvalue, hunit]
    rw [Nat.cast_mul, Nat.cast_ofNat, mul_div_assoc, hratio, hscaled] at hnear
    exact hnear

theorem bytes_amount {n : Nat} (hpos : 0 < n) (hn : n ≤ 2 ^ 53) :
    ∃ a : Amount, bytes n = .ok a.text ∧ a.Rounds n := by
  obtain ⟨m, e, hexact, hvalue⟩ := Binary64.ofInt?_exact hpos hn
  obtain ⟨a, htext, ha⟩ := finiteBytes_amount hvalue hpos
  refine ⟨a, ?_, ha⟩
  have hm : m ≠ 0 := by
    rintro rfl
    have hzero : (0 : ℚ) = n := by simpa using hvalue
    exact hpos.ne (by exact_mod_cast hzero)
  have hnot : ¬ (n : Int) ≤ 0 := by omega
  rw [bytes, if_neg hnot, hexact]
  simp [realBytes, hm, htext]

/-- An amount of up to `2 ^ 53` bytes is shown in the largest unit it reaches, rounded to two
decimal places; it is off by at most half a hundredth of the unit, and no larger amount is shown as
less. -/
theorem bytes_shown {n : Nat} (hpos : 0 < n) (hn : n ≤ 2 ^ 53) :
    ∃ a : Amount, bytes n = .ok a.text ∧
      (1024 ^ a.unit.val ≤ n ∧ ∀ u : Fin 4, 1024 ^ u.val ≤ n → u ≤ a.unit) ∧
      (∃ k : Nat, a.number.value = k / 100 ∧ NearestEven (100 * (n / 1024 ^ a.unit.val)) k) ∧
      |a.quantity - n| ≤ 5 / 1000 * 1024 ^ a.unit.val ∧
      ∀ (m : Nat) (b : Amount), n ≤ m → m ≤ 2 ^ 53 → bytes m = .ok b.text →
        a.quantity ≤ b.quantity := by
  obtain ⟨a, htext, ha⟩ := bytes_amount hpos hn
  refine ⟨a, htext, ⟨ha.reached, ha.largest⟩, ha.nearest, ha.quantity_near, ?_⟩
  intro m b hle hm hb
  obtain ⟨c, hc, hround⟩ := bytes_amount (hpos.trans_le hle) hm
  obtain rfl : c = b := by
    rw [hc, Except.ok.injEq] at hb
    exact Amount.text_injective hb
  exact ha.quantity_mono hround hle

/-- One byte less than a megabyte is shown as 1024 kilobytes, which is not more. -/
theorem bytes_shown_crossing :
    ∃ a b : Amount, bytes (1048575 : Nat) = .ok a.text ∧ a.text = "1024 KB" ∧
      bytes (1048576 : Nat) = .ok b.text ∧ b.text = "1 MB" ∧ a.quantity ≤ b.quantity := by
  have hbelow : bytes (1048575 : Nat) = .ok "1024 KB" := rfl
  have hnext : bytes (1048576 : Nat) = .ok "1 MB" := rfl
  obtain ⟨a, ha, -, -, -, hmono⟩ := bytes_shown (n := 1048575) (by decide) (by decide)
  obtain ⟨b, hb, -⟩ := bytes_shown (n := 1048576) (by decide) (by decide)
  refine ⟨a, b, ha, ?_, hb, ?_, hmono 1048576 b (by decide) (by decide) hb⟩
  · exact (Except.ok.inj (hbelow.symm.trans ha)).symm
  · exact (Except.ok.inj (hnext.symm.trans hb)).symm

end Report

end HeapAudit
