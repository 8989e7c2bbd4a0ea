import HeapAudit.Number.Binary64
import Mathlib.Algebra.Order.Field.Power
import Mathlib.Data.Int.Log
import Mathlib.Data.Rat.Floor
import Mathlib.Tactic.FieldSimp
import Mathlib.Tactic.Linarith
import Mathlib.Tactic.Positivity
import Mathlib.Tactic.Ring

namespace HeapAudit.Number

/-- A shift is a product with a power of two. -/
theorem cast_shiftLeft (n : Nat) {k : Int} (hk : 0 ≤ k) :
    ((n <<< k.toNat : Nat) : ℚ) = n * 2 ^ k := by
  obtain ⟨i, rfl⟩ := Int.eq_ofNat_of_zero_le hk
  rw [Int.toNat_natCast, Nat.shiftLeft_eq, zpow_natCast]
  push_cast
  rfl

section Rounded

variable {n d k : Nat} (hd : 0 < d)

include hd

/-- An even number is reached from half a unit below it on, where the tie goes to it. -/
theorem le_roundDiv (hk : k % 2 = 0) : k ≤ roundDiv n d ↔ 2 * (k * d) ≤ 2 * n + d := by
  have hn := Nat.div_add_mod n d
  have hr := Nat.mod_lt n hd
  rw [mul_comm d] at hn
  unfold roundDiv
  dsimp only
  rcases lt_trichotomy k (n / d + 1) with hbelow | rfl | habove
  · have hmul : k * d ≤ n / d * d := Nat.mul_le_mul_right d (Nat.le_of_lt_succ hbelow)
    have hreached : 2 * (k * d) ≤ 2 * n + d := by omega
    split_ifs <;> omega
  · have hmul : (n / d + 1) * d = n / d * d + d := Nat.succ_mul _ _
    rw [hmul]
    split_ifs <;> omega
  · have hmul : (n / d + 2) * d ≤ k * d := Nat.mul_le_mul_right d habove
    rw [Nat.add_mul] at hmul
    split_ifs <;> omega

theorem roundDiv_le (h : n < k * d) : roundDiv n d ≤ k := by
  have hq : n / d < k := (Nat.div_lt_iff_lt_mul hd).mpr h
  unfold roundDiv
  dsimp only
  split_ifs <;> omega

/-- The fraction that is rounded. -/
theorem exists_roundScaled (j : Int) :
    ∃ a b : Nat, 0 < b ∧ roundScaled n d j = roundDiv a b ∧ (a : ℚ) / b = n / d * 2 ^ j := by
  unfold roundScaled
  split
  · rename_i hj
    refine ⟨_, _, hd, rfl, ?_⟩
    rw [cast_shiftLeft n hj]
    ring
  · rename_i hj
    have hshift := cast_shiftLeft d (show 0 ≤ -j by omega)
    refine ⟨_, _, ?_, rfl, ?_⟩
    · rw [Nat.shiftLeft_eq]
      positivity
    · rw [hshift, zpow_neg]
      field_simp

theorem le_roundScaled (hk : k % 2 = 0) (j : Int) :
    k ≤ roundScaled n d j ↔ (k : ℚ) - 1 / 2 ≤ n / d * 2 ^ j := by
  obtain ⟨a, b, hb, hround, hvalue⟩ := exists_roundScaled hd j
  have hb' : (0 : ℚ) < b := by exact_mod_cast hb
  rw [hround, le_roundDiv hb hk, ← hvalue, le_div_iff₀ hb']
  have hcast : 2 * (k * b) ≤ 2 * a + b ↔ 2 * ((k : ℚ) * b) ≤ 2 * a + b := by exact_mod_cast Iff.rfl
  rw [hcast]
  constructor
  · intro h
    linarith
  · intro h
    linarith

theorem roundScaled_le {j : Int} (h : (n : ℚ) / d * 2 ^ j < k) : roundScaled n d j ≤ k := by
  obtain ⟨a, b, hb, hround, hvalue⟩ := exists_roundScaled hd j
  have hb' : (0 : ℚ) < b := by exact_mod_cast hb
  rw [← hvalue, div_lt_iff₀ hb'] at h
  rw [hround]
  exact roundDiv_le hb (by exact_mod_cast h)

end Rounded

namespace Binary64

section Places

variable {n d : Nat} (hd : 0 < d)

include hd

theorem reaches_iff (k : Int) : reaches n d k = true ↔ (2 : ℚ) ^ k ≤ n / d := by
  have hd' : (0 : ℚ) < d := by exact_mod_cast hd
  unfold reaches
  split
  · rename_i hk
    have hshift := cast_shiftLeft d hk
    rw [decide_eq_true_iff, le_div_iff₀ hd', mul_comm, ← hshift, Nat.cast_le]
  · rename_i hk
    have hshift : d ≤ n <<< (-k).toNat ↔ (d : ℚ) ≤ n * 2 ^ (-k) := by
      rw [← cast_shiftLeft n (show 0 ≤ -k by omega), Nat.cast_le]
    rw [decide_eq_true_iff, le_div_iff₀ hd', hshift, zpow_neg, ← div_eq_mul_inv,
      le_div_iff₀ (by positivity), mul_comm]

/-- The last place is fifty-two places below the first, but not below the least. -/
theorem placeOf_eq (hn : n ≠ 0) :
    placeOf n d = max (-1074) (Int.log 2 ((n : ℚ) / d) - 52) := by
  have hd' : (0 : ℚ) < d := by exact_mod_cast hd
  have hpos : (0 : ℚ) < n / d := by positivity
  have hhigh : (n : ℚ) / d < 2 ^ ((n.log2 : Int) - d.log2 + 1) := by
    have hntop : (n : ℚ) < 2 ^ ((n.log2 : Int) + 1) := by exact_mod_cast Nat.lt_log2_self
    have hdtop : (2 : ℚ) ^ (d.log2 : Int) ≤ d := by exact_mod_cast Nat.log2_self_le hd.ne'
    rw [div_lt_iff₀ hd']
    calc (n : ℚ) < 2 ^ ((n.log2 : Int) + 1) := hntop
      _ = 2 ^ ((n.log2 : Int) - d.log2 + 1) * 2 ^ (d.log2 : Int) := by
        rw [← zpow_add₀ two_ne_zero]
        congr 1
        ring
      _ ≤ 2 ^ ((n.log2 : Int) - d.log2 + 1) * d := by gcongr
  have hlow : (2 : ℚ) ^ ((n.log2 : Int) - d.log2 - 1) ≤ n / d := by
    have hntop : (2 : ℚ) ^ (n.log2 : Int) ≤ n := by exact_mod_cast Nat.log2_self_le hn
    have hdtop : (d : ℚ) < 2 ^ ((d.log2 : Int) + 1) := by exact_mod_cast Nat.lt_log2_self
    rw [le_div_iff₀ hd']
    calc (2 : ℚ) ^ ((n.log2 : Int) - d.log2 - 1) * d
        ≤ 2 ^ ((n.log2 : Int) - d.log2 - 1) * 2 ^ ((d.log2 : Int) + 1) := by gcongr
      _ = 2 ^ (n.log2 : Int) := by
        rw [← zpow_add₀ two_ne_zero]
        congr 1
        ring
      _ ≤ n := hntop
  -- The guess from the lengths of both numbers is the exponent itself or one too high.
  have hbelow := (Int.lt_zpow_iff_log_lt one_lt_two hpos).mp hhigh
  have habove := (Int.zpow_le_iff_le_log one_lt_two hpos).mp hlow
  have hreach : reaches n d ((n.log2 : Int) - d.log2) = true ↔
      (n.log2 : Int) - d.log2 ≤ Int.log 2 ((n : ℚ) / d) := by
    rw [reaches_iff hd, ← Int.zpow_le_iff_le_log one_lt_two hpos]
    rfl
  unfold placeOf leastExponent
  dsimp only
  split
  · rename_i h
    rw [hreach] at h
    omega
  · rename_i h
    rw [hreach] at h
    omega

end Places

/-- Half of a last place above the greatest finite number. -/
def limit : ℚ := 2 ^ 1024 - 2 ^ 970

theorem limit_eq : limit = (2 ^ 54 - 1) * 2 ^ 970 := by
  have hpow : (2 : ℚ) ^ 1024 = 2 ^ 54 * 2 ^ 970 := pow_add 2 54 970
  rw [limit, hpow, sub_one_mul]

theorem limit_pos : 0 < limit := by
  rw [limit_eq]
  positivity

theorem isFinite_rounded (negative : Bool) {n : Nat} (hn : n ≠ 0) (d : Nat) :
    (ofRatio negative n d).isFinite = true ↔
      (if roundScaled n d (-placeOf n d) = 2 ^ 53 then placeOf n d + 1 else placeOf n d) ≤ 971 := by
  rw [ofRatio, if_neg hn]
  have hshift : 1 <<< 53 = 2 ^ 53 := by decide
  simp only [hshift, greatestExponent]
  split_ifs <;> simp_all [isFinite]

/-- With the last place of the greatest finite number, the significand is rounded up to the next
power of two from the limit on. -/
theorem roundScaled_carry {n d : Nat} (hd : 0 < d) (h : (n : ℚ) / d < 2 ^ (1024 : Int)) :
    roundScaled n d (-971) = 2 ^ 53 ↔ limit ≤ (n : ℚ) / d := by
  have hunit : (2 : ℚ) ^ (971 : Int) = 2 * 2 ^ 970 := by
    rw [zpow_ofNat]
    exact pow_succ' 2 970
  have htop : (2 : ℚ) ^ (1024 : Int) = 2 ^ 53 * 2 ^ (971 : Int) := by
    rw [zpow_ofNat, zpow_ofNat]
    exact pow_add 2 53 971
  have hscale : (n : ℚ) / d * 2 ^ (-971 : Int) = n / d / 2 ^ (971 : Int) := by
    rw [zpow_neg, ← div_eq_mul_inv]
  have hle : roundScaled n d (-971) ≤ 2 ^ 53 := by
    apply roundScaled_le hd
    rw [hscale, div_lt_iff₀ (by positivity), Nat.cast_pow, Nat.cast_ofNat, ← htop]
    exact h
  have hlimit : (((2 ^ 53 : Nat) : ℚ) - 1 / 2) * 2 ^ (971 : Int) = limit := by
    rw [hunit, limit_eq]
    generalize (2 : ℚ) ^ 970 = unit
    push_cast
    ring
  have hreach : 2 ^ 53 ≤ roundScaled n d (-971) ↔ limit ≤ (n : ℚ) / d := by
    rw [le_roundScaled hd (by decide), hscale, le_div_iff₀ (by positivity), hlimit]
  rw [← hreach]
  exact ⟨fun heq => heq.ge, fun hge => Nat.le_antisymm hle hge⟩

/-- A quotient is rounded to a finite number just below the limit. -/
theorem isFinite_ofRatio (negative : Bool) (n : Nat) {d : Nat} (hd : 0 < d) :
    (ofRatio negative n d).isFinite = true ↔ (n : ℚ) / d < limit := by
  by_cases hn : n = 0
  · subst hn
    simp [ofRatio, isFinite, limit_pos]
  · have hpos : (0 : ℚ) < n / d := by positivity
    have hlow : (2 : ℚ) ^ Int.log 2 ((n : ℚ) / d) ≤ n / d := Int.zpow_log_le_self one_lt_two hpos
    have hhigh : (n : ℚ) / d < 2 ^ (Int.log 2 ((n : ℚ) / d) + 1) :=
      Int.lt_zpow_succ_log_self one_lt_two _
    rw [isFinite_rounded negative hn, placeOf_eq hd hn]
    generalize Int.log 2 ((n : ℚ) / d) = top at hlow hhigh ⊢
    rcases lt_trichotomy top 1023 with hbelow | rfl | habove
    · have hlt : (n : ℚ) / d < limit := by
        calc (n : ℚ) / d < 2 ^ (top + 1) := hhigh
          _ ≤ 2 ^ (1023 : Int) := zpow_le_zpow_right₀ one_le_two (by omega)
          _ = 2 ^ 1023 := zpow_ofNat 2 1023
          _ = 2 ^ 53 * 2 ^ 970 := pow_add 2 53 970
          _ < (2 ^ 54 - 1) * 2 ^ 970 := mul_lt_mul_of_pos_right (by norm_num) (by positivity)
          _ = limit := limit_eq.symm
      refine iff_of_true ?_ hlt
      split_ifs <;> omega
    · have hcarry := roundScaled_carry hd hhigh
      rw [show max (-1074) (1023 - 52 : Int) = 971 from rfl, ← not_le, ← hcarry]
      split_ifs with h
      · exact iff_of_false (by decide) (not_not.mpr h)
      · exact iff_of_true le_rfl h
    · have hle : limit ≤ (n : ℚ) / d := by
        calc limit ≤ (2 : ℚ) ^ 1024 := sub_le_self _ (by positivity)
          _ = 2 ^ (1024 : Int) := (zpow_ofNat 2 1024).symm
          _ ≤ 2 ^ top := zpow_le_zpow_right₀ one_le_two (by omega)
          _ ≤ n / d := hlow
      refine iff_of_false ?_ (not_lt.mpr hle)
      split_ifs <;> omega

theorem isFinite_ofDyadic (negative : Bool) (m : Nat) (e : Int) :
    (ofDyadic negative m e).isFinite = true ↔ (m : ℚ) * 2 ^ e < limit := by
  unfold ofDyadic
  split
  · rename_i he
    rw [isFinite_ofRatio _ _ one_pos, cast_shiftLeft m he, Nat.cast_one, div_one]
  · rename_i he
    have hshift := cast_shiftLeft 1 (show 0 ≤ -e by omega)
    have hpos : 0 < 1 <<< (-e).toNat := by
      rw [Nat.shiftLeft_eq]
      positivity
    rw [isFinite_ofRatio _ _ hpos, hshift, Nat.cast_one, one_mul, zpow_neg, div_inv_eq_mul]

/-- A product of finite numbers is finite just below the limit. -/
theorem isFinite_mul (s : Bool) (m : Nat) (e : Int) (t : Bool) (n : Nat) (f : Int) :
    ((finite s m e).mul (finite t n f)).isFinite = true ↔
      (m : ℚ) * 2 ^ e * (n * 2 ^ f) < limit := by
  have hvalue : ((m * n : Nat) : ℚ) * 2 ^ (e + f) = m * 2 ^ e * (n * 2 ^ f) := by
    rw [zpow_add₀ two_ne_zero]
    push_cast
    ring
  rw [mul, isFinite_ofDyadic, hvalue]

end Binary64

end HeapAudit.Number
