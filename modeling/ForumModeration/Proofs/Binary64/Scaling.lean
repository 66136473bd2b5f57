import ForumModeration.Binary64.Scaled
import ForumModeration.Proofs.Binary64.Rounding

/-!
# `ForumModeration.Proofs.Binary64.Scaling`: which scaled numbers are in range

A number that is scaled by a power of ten is rounded three times: the digits, the power and the
product. Each time it grows by at most one part in `2 ^ 53` (`value_nearestBits_le`). So what is
far enough below `2 ^ 1024` to begin with is not rounded to infinity (`scaled?_of_nonneg`).
-/

set_option autoImplicit false

namespace ForumModeration.Binary64

variable {x y : Binary64} {exponent : Int}

theorem isFinite_ofMagnitudeBits (negative : Bool) {magnitude : Nat}
    (h : magnitude < infinityBits) : (ofMagnitudeBits negative magnitude).isFinite = true := by
  rw [isFinite, magnitudeBits_ofMagnitudeBits negative (h.trans (by decide))]
  exact decide_eq_true h

theorem value_nonneg (x : Binary64) : 0 ≤ x.value :=
  mul_nonneg (Nat.cast_nonneg _) (zpow_nonneg (by norm_num) _)

/-- A product is finite if the exact product is. -/
theorem isFinite_mul (h : x.value * y.value < limit) :
    (x.mul y).isFinite = true := by
  refine isFinite_ofMagnitudeBits _ (nearestBits_lt_infinityBits
    (Nat.mul_pos x.ratio_den_pos y.ratio_den_pos) ?_)
  push_cast
  rw [mul_div_mul_comm, ratio_value, ratio_value]
  exact h

/-- A decimal from one on grows by at most one part in `2 ^ 53` when it is rounded, and so does
zero. -/
theorem value_nearest_le {d : Decimal} (one : d.digits ≠ 0 → 1 ≤ d.value)
    (h : d.value < limit) :
    (nearest false d).value ≤ d.value * (1 + 1 / 2 ^ 53) := by
  by_cases zero : d.digits = 0
  · have none : (ofMagnitudeBits false 0).significand = 0 := rfl
    rw [nearest, nearestDecimalBits, if_pos zero, value, none, Decimal.value, zero]
    simp
  · rw [nearest, nearestDecimalBits_eq]
    rw [← d.ratio_value] at one h ⊢
    exact value_nearestBits_le false d.ratio_den_pos (one zero) h

/-- The largest power of ten is below the limit. -/
private theorem powerOfTen_lt {n : Nat} (h : n ≤ maxPower) : (10 : ℚ) ^ (n : Int) < limit := by
  unfold limit
  calc (10 : ℚ) ^ (n : Int) ≤ 10 ^ (maxPower : Int) :=
        zpow_le_zpow_right₀ (by norm_num) (by exact_mod_cast h)
    _ < 0x1FFFFFFFFFFFFF * 2 ^ (971 : Int) := by
        have powers : 10 ^ maxPower < 0x1FFFFFFFFFFFFF * 2 ^ 971 := by decide +kernel
        exact_mod_cast powers
    _ < (2 ^ 53 - 1 / 2) * 2 ^ (971 : Int) :=
        mul_lt_mul_of_pos_right (by norm_num) (zpow_pos (by norm_num) _)

theorem value_powerOfTen_le {n : Nat} (h : n ≤ maxPower) :
    (powerOfTen n).value ≤ 10 ^ (n : Int) * (1 + 1 / 2 ^ 53) := by
  have value : (⟨1, n⟩ : Decimal).value = 10 ^ (n : Int) := by
    rw [Decimal.value, Nat.cast_one, one_mul]
  rw [← value]
  refine value_nearest_le (fun _ => ?_) ?_
  · rw [value]
    exact one_le_zpow₀ (by norm_num) (Int.natCast_nonneg n)
  · rw [value]
    exact powerOfTen_lt h

/-- What is scaled down stays in range. -/
theorem scaled?_of_neg (negative : exponent < 0) : (x.scaled? exponent).isSome = true := by
  fun_induction scaled? x exponent with
  | case1 x exponent small nonneg => omega
  | case2 x exponent small nonneg => omega
  | case3 => rfl
  | case4 => rfl
  | case5 x exponent large nonzero nonneg => omega
  | case6 x exponent large nonzero nonneg ih =>
    refine ih ?_
    unfold maxPower at *
    omega

/-- Only zero is below the limit with a power of ten that is beyond the largest. -/
private theorem eq_zero_of_lt_limit {digits n : Nat} (large : maxPower < n)
    (h : digits * (10 : ℚ) ^ (n : Int) < limit) : digits = 0 := by
  by_contra nonzero
  have one : (1 : ℚ) ≤ digits := by exact_mod_cast Nat.one_le_iff_ne_zero.mpr nonzero
  refine absurd h (not_lt.mpr ?_)
  calc limit ≤ 2 ^ (1024 : Int) := limit_lt.le
    _ ≤ 10 ^ (309 : Int) := by
        have powers : (2 : Nat) ^ 1024 ≤ 10 ^ 309 := by decide +kernel
        exact_mod_cast powers
    _ ≤ 10 ^ (n : Int) := by
        refine zpow_le_zpow_right₀ (by norm_num) ?_
        unfold maxPower at large
        omega
    _ ≤ digits * 10 ^ (n : Int) := le_mul_of_one_le_left (by positivity) one

/-- What is scaled up stays in range if the exact product may grow twice. -/
theorem scaled?_of_nonneg {digits : Nat} (nonneg : 0 ≤ exponent)
    (h : digits * (10 : ℚ) ^ exponent * (1 + 1 / 2 ^ 53) ^ 2 < limit) :
    ((nearest false ⟨digits, 0⟩).scaled? exponent).isSome = true := by
  obtain ⟨n, rfl⟩ := Int.eq_ofNat_of_zero_le nonneg
  have power : (1 : ℚ) ≤ 10 ^ (n : Int) := one_le_zpow₀ (by norm_num) (Int.natCast_nonneg n)
  have exact_ : digits * (10 : ℚ) ^ (n : Int) < limit :=
    lt_of_le_of_lt (le_mul_of_one_le_right (by positivity) (by norm_num)) h
  unfold scaled?
  rw [Int.natAbs_natCast]
  by_cases small : n ≤ maxPower
  · have value : (⟨digits, 0⟩ : Decimal).value = digits := by
      rw [Decimal.value, zpow_zero, mul_one]
    have rounded : (nearest false ⟨digits, 0⟩).value ≤ digits * (1 + 1 / 2 ^ 53) := by
      rw [← value]
      refine value_nearest_le (fun nonzero => ?_) ?_
      · rw [value]
        exact_mod_cast Nat.one_le_iff_ne_zero.mpr nonzero
      · rw [value]
        exact lt_of_le_of_lt (le_mul_of_one_le_right (Nat.cast_nonneg _) power) exact_
    have finite : ((nearest false ⟨digits, 0⟩).mul (powerOfTen n)).isFinite = true := by
      refine isFinite_mul (lt_of_le_of_lt ?_ h)
      calc (nearest false ⟨digits, 0⟩).value * (powerOfTen n).value
          ≤ digits * (1 + 1 / 2 ^ 53) * (10 ^ (n : Int) * (1 + 1 / 2 ^ 53)) :=
            mul_le_mul rounded (value_powerOfTen_le small) (powerOfTen n).value_nonneg
              (by positivity)
        _ = digits * 10 ^ (n : Int) * (1 + 1 / 2 ^ 53) ^ 2 := by ring
    rw [if_pos small, if_pos nonneg]
    simp only [finite, if_true, Option.isSome_some]
  · rw [if_neg small, eq_zero_of_lt_limit (not_le.mp small) exact_, if_pos (by decide)]
    rfl

end ForumModeration.Binary64
