import Mathlib
import ForumModeration.Binary64.Shortest
import ForumModeration.Proofs.Text.Digits

/-!
# `ForumModeration.Proofs.Binary64.Rounding`: reading depends on the value only

`nearestBits` computes with a fraction, `nearestDecimalBits` with digits and an
exponent, and both take short cuts. The theorems here say that what they find
depends on nothing but the rational number that is meant:

* `nearestBits_congr`: two fractions of one value have the same nearest number.
* `nearestDecimalBits_eq`: the short cuts of `nearestDecimalBits` agree with the
  computation they skip, so two decimals of one value have the same nearest
  number (`nearestDecimalBits_congr`).
* `nearestBits_ratio`: the number nearest to the value of a finite number is that
  number. No rounding takes place, because the scale that `nearestBits` chooses is
  the scale of the number (`scale` and `significand`).
* `nearestDecimalBits_shortest`: the decimal a number is written as reads back as
  that number, whichever way ties are broken. `shortest?` checks its candidates,
  and where it finds none all digits are written.
* `nearestBits_lt_infinityBits`, `value_nearestBits_le`: which values are not too
  large, and by how much they grow when they are rounded.

The binary exponent of a fraction is pinned down by `floorLog2_le` and
`lt_floorLog2`, and `floorLog2_eq` turns the two bounds into an equation. They are
stated over `ℚ`, where a scale is an integer power of two.
-/

set_option autoImplicit false

namespace ForumModeration

namespace Binary64

/-! ### Fractions as rational numbers -/

/-- Dividing a fraction by a power of a base divides its value. -/
theorem divPow_value {base num den : Nat} (hb : 0 < base) (power : Int) :
    ((divPow base (num, den) power).1 : ℚ) / ((divPow base (num, den) power).2 : ℚ)
      = (num : ℚ) / den / (base : ℚ) ^ power := by
  have hb' : (base : ℚ) ≠ 0 := by exact_mod_cast hb.ne'
  unfold divPow
  split
  · rename_i h
    obtain ⟨k, rfl⟩ := Int.eq_ofNat_of_zero_le h
    have hk : ((k : Int)).toNat = k := Int.toNat_natCast k
    show (num : ℚ) / ((den * base ^ ((k : Int)).toNat : Nat) : ℚ) = _
    rw [hk, zpow_natCast, Nat.cast_mul, Nat.cast_pow, div_div]
  · rename_i h
    obtain ⟨k, hk⟩ := Int.eq_ofNat_of_zero_le (show 0 ≤ -power by omega)
    have hp : power = -(k : Int) := by omega
    show ((num * base ^ (-power).toNat : Nat) : ℚ) / (den : ℚ) = _
    rw [hk, hp, zpow_neg, zpow_natCast, div_inv_eq_mul, Nat.cast_mul]
    show (num : ℚ) * ((base ^ k : Nat) : ℚ) / den = _
    rw [Nat.cast_pow, mul_div_right_comm]

/-- The denominator stays positive. -/
theorem divPow_den_pos {base num den : Nat} (hb : 0 < base) (hd : 0 < den) (power : Int) :
    0 < (divPow base (num, den) power).2 := by
  unfold divPow
  split
  · exact Nat.mul_pos hd (Nat.pow_pos hb)
  · exact hd

/-- A multiple of a power of a base, as the fraction that stands for it. -/
theorem scaled_value {amount base : Nat} {power : Int} {fraction : Nat × Nat}
    (h : fraction = if 0 ≤ power then (amount * Nat.pow base power.toNat, 1)
      else (amount, Nat.pow base (-power).toNat)) :
    (fraction.1 : ℚ) / (fraction.2 : ℚ) = amount * (base : ℚ) ^ power := by
  subst h
  split
  · rename_i h
    obtain ⟨k, rfl⟩ := Int.eq_ofNat_of_zero_le h
    show ((amount * base ^ ((k : Int)).toNat : Nat) : ℚ) / ((1 : Nat) : ℚ) = _
    rw [Int.toNat_natCast, zpow_natCast, Nat.cast_one, div_one, Nat.cast_mul, Nat.cast_pow]
  · rename_i h
    obtain ⟨k, hk⟩ := Int.eq_ofNat_of_zero_le (show 0 ≤ -power by omega)
    have negative : power = -(k : Int) := by omega
    show (amount : ℚ) / ((base ^ (-power).toNat : Nat) : ℚ) = _
    rw [hk, negative, Int.toNat_natCast, zpow_neg, zpow_natCast, Nat.cast_pow, div_eq_mul_inv]

/-- The denominator of such a fraction is positive. -/
theorem scaled_den_pos {amount base : Nat} {power : Int} {fraction : Nat × Nat} (hb : 0 < base)
    (h : fraction = if 0 ≤ power then (amount * Nat.pow base power.toNat, 1)
      else (amount, Nat.pow base (-power).toNat)) : 0 < fraction.2 := by
  subst h
  split
  · exact Nat.one_pos
  · exact Nat.pow_pos hb

/-! ### The binary exponent -/

/-- A positive number lies between the power of two of its logarithm and the next
one. -/
private theorem log2_bounds {n : Nat} (h : 0 < n) :
    (2 : ℚ) ^ (n.log2 : Int) ≤ n ∧ (n : ℚ) < 2 ^ ((n.log2 : Int) + 1) := by
  have low : 2 ^ n.log2 ≤ n := Nat.log2_self_le h.ne'
  have high : n < 2 ^ (n.log2 + 1) := (Nat.log2_lt h.ne').mp (Nat.lt_succ_self _)
  constructor
  · rw [zpow_natCast]
    exact_mod_cast low
  · have cast : (n.log2 : Int) + 1 = ((n.log2 + 1 : Nat) : Int) := by push_cast; rfl
    rw [cast, zpow_natCast]
    exact_mod_cast high

/-- The first guess at the exponent is right or one too large. -/
private theorem guess_bounds {num den : Nat} (hn : 0 < num) (hd : 0 < den) :
    (2 : ℚ) ^ ((num.log2 : Int) - den.log2 - 1) < (num : ℚ) / den ∧
      (num : ℚ) / den < 2 ^ ((num.log2 : Int) - den.log2 + 1) := by
  obtain ⟨nLow, nHigh⟩ := log2_bounds hn
  obtain ⟨dLow, dHigh⟩ := log2_bounds hd
  have hd' : (0 : ℚ) < den := by exact_mod_cast hd
  -- Numerator and denominator are each within a factor of two of their powers.
  constructor
  · rw [lt_div_iff₀ hd']
    calc (2 : ℚ) ^ ((num.log2 : Int) - den.log2 - 1) * den
        < 2 ^ ((num.log2 : Int) - den.log2 - 1) * 2 ^ ((den.log2 : Int) + 1) := by
          have := zpow_pos (show (0 : ℚ) < 2 by norm_num) ((num.log2 : Int) - den.log2 - 1)
          exact mul_lt_mul_of_pos_left dHigh this
      _ = 2 ^ (num.log2 : Int) := by
          rw [← zpow_add₀ (by norm_num)]
          congr 1
          omega
      _ ≤ num := nLow
  · rw [div_lt_iff₀ hd']
    calc (num : ℚ) < 2 ^ ((num.log2 : Int) + 1) := nHigh
      _ = 2 ^ ((num.log2 : Int) - den.log2 + 1) * 2 ^ (den.log2 : Int) := by
          rw [← zpow_add₀ (by norm_num)]
          congr 1
          omega
      _ ≤ 2 ^ ((num.log2 : Int) - den.log2 + 1) * den := by
          have := zpow_pos (show (0 : ℚ) < 2 by norm_num) ((num.log2 : Int) - den.log2 + 1)
          exact mul_le_mul_of_nonneg_left dLow this.le

/-- The test that `floorLog2` makes: whether the fraction reaches a power of two. -/
private theorem divPow_le_iff {num den : Nat} (hd : 0 < den) (power : Int) :
    (divPow 2 (num, den) power).2 ≤ (divPow 2 (num, den) power).1
      ↔ (2 : ℚ) ^ power ≤ (num : ℚ) / den := by
  have value := @divPow_value 2 num den (by decide) power
  have pos : (0 : ℚ) < ((divPow 2 (num, den) power).2 : ℚ) := by
    exact_mod_cast divPow_den_pos (by decide) hd power
  have two : (0 : ℚ) < 2 ^ power := zpow_pos (by norm_num) power
  rw [← Nat.cast_le (α := ℚ), ← one_le_div pos, value, Nat.cast_ofNat, one_le_div two]

/-- `floorLog2` as a choice between its guess and the number below. -/
private theorem floorLog2_eq_ite {num den : Nat} (hd : 0 < den) :
    floorLog2 num den
      = if (2 : ℚ) ^ ((num.log2 : Int) - den.log2) ≤ (num : ℚ) / den
        then (num.log2 : Int) - den.log2 else (num.log2 : Int) - den.log2 - 1 := by
  simp only [← divPow_le_iff hd]
  rfl

/-- The exponent of a fraction is that of a power of two which it reaches. -/
theorem floorLog2_le {num den : Nat} (hn : 0 < num) (hd : 0 < den) :
    (2 : ℚ) ^ floorLog2 num den ≤ (num : ℚ) / den := by
  rw [floorLog2_eq_ite hd]
  split
  · assumption
  · exact (guess_bounds hn hd).1.le

/-- The next power of two is out of the fraction's reach. -/
theorem lt_floorLog2 {num den : Nat} (hn : 0 < num) (hd : 0 < den) :
    (num : ℚ) / den < 2 ^ (floorLog2 num den + 1) := by
  rw [floorLog2_eq_ite hd]
  split
  · exact (guess_bounds hn hd).2
  · rename_i h
    rw [Int.sub_add_cancel]
    exact not_le.mp h

/-- The two bounds determine the exponent. -/
theorem floorLog2_eq {num den : Nat} {e : Int} (hn : 0 < num) (hd : 0 < den)
    (low : (2 : ℚ) ^ e ≤ (num : ℚ) / den) (high : (num : ℚ) / den < 2 ^ (e + 1)) :
    floorLog2 num den = e := by
  have h1 := floorLog2_le hn hd
  have h2 := lt_floorLog2 hn hd
  -- Powers of two that enclose one value cannot be apart.
  have two : (1 : ℚ) < 2 := by norm_num
  have upper : floorLog2 num den < e + 1 := (zpow_lt_zpow_iff_right₀ two).mp (h1.trans_lt high)
  have lower : e < floorLog2 num den + 1 := (zpow_lt_zpow_iff_right₀ two).mp (low.trans_lt h2)
  omega

/-! ### Rounding to an integer -/

/-- Rounding does not see a common factor. -/
theorem roundHalfEven_mul_right {num den k : Nat} (hk : 0 < k) :
    roundHalfEven (num * k) (den * k) = roundHalfEven num den := by
  have less : 2 * (num * k % (den * k)) < den * k ↔ 2 * (num % den) < den := by
    rw [Nat.mul_mod_mul_right, ← Nat.mul_assoc]
    exact Nat.mul_lt_mul_right hk
  have more : den * k < 2 * (num * k % (den * k)) ↔ den < 2 * (num % den) := by
    rw [Nat.mul_mod_mul_right, ← Nat.mul_assoc]
    exact Nat.mul_lt_mul_right hk
  unfold roundHalfEven
  rw [Nat.mul_div_mul_right _ _ hk]
  simp only [less, more]

/-- Rounding sees the value of a fraction only. -/
theorem roundHalfEven_congr {num den num' den' : Nat} (hd : 0 < den) (hd' : 0 < den')
    (h : (num : ℚ) / den = (num' : ℚ) / den') :
    roundHalfEven num den = roundHalfEven num' den' := by
  have cross : num * den' = num' * den := by
    have hq : (den : ℚ) ≠ 0 := by exact_mod_cast hd.ne'
    have hq' : (den' : ℚ) ≠ 0 := by exact_mod_cast hd'.ne'
    rw [div_eq_div_iff hq hq'] at h
    exact_mod_cast h
  calc roundHalfEven num den = roundHalfEven (num * den') (den * den') :=
        (roundHalfEven_mul_right hd').symm
    _ = roundHalfEven (num' * den) (den' * den) := by rw [cross, Nat.mul_comm den den']
    _ = roundHalfEven num' den' := roundHalfEven_mul_right hd

/-- A fraction that is an integer is not changed. -/
theorem roundHalfEven_of_eq {num den n : Nat} (hd : 0 < den) (h : (num : ℚ) / den = n) :
    roundHalfEven num den = n := by
  rw [@roundHalfEven_congr num den n 1 hd (by decide) (by simpa using h)]
  simp [roundHalfEven, Nat.mod_one]

/-- Rounding is by one half at most. -/
theorem roundHalfEven_near {num den : Nat} (hd : 0 < den) :
    (num : ℚ) / den - 1 / 2 ≤ roundHalfEven num den ∧
      (roundHalfEven num den : ℚ) ≤ num / den + 1 / 2 := by
  have pos : (0 : ℚ) < den := by exact_mod_cast hd
  have parts : (num : ℚ) / den = (num / den : Nat) + (num % den : Nat) / (den : ℚ) := by
    field_simp
    exact_mod_cast (Nat.div_add_mod num den).symm
  have least : (0 : ℚ) ≤ (num % den : Nat) / (den : ℚ) := by positivity
  have most : ((num % den : Nat) : ℚ) / den ≤ 1 := by
    rw [div_le_one pos]
    exact_mod_cast (Nat.mod_lt num hd).le
  have low : 2 * (num % den) < den ↔ ((num % den : Nat) : ℚ) / den < 1 / 2 := by
    rw [div_lt_div_iff₀ pos two_pos, mul_comm, one_mul]
    exact_mod_cast Iff.rfl
  have high : den < 2 * (num % den) ↔ 1 / 2 < ((num % den : Nat) : ℚ) / den := by
    rw [div_lt_div_iff₀ two_pos pos, one_mul, mul_comm]
    exact_mod_cast Iff.rfl
  unfold roundHalfEven
  simp only [low, high]
  rw [parts]
  generalize ((num % den : Nat) : ℚ) / den = places at least most ⊢
  split
  · constructor <;> linarith
  rename_i notLow
  split
  · push_cast
    constructor <;> linarith
  · rename_i notHigh
    have even : ((num / den % 2 : Nat) : ℚ) ≤ 1 := by exact_mod_cast (by omega)
    have even' : (0 : ℚ) ≤ (num / den % 2 : Nat) := Nat.cast_nonneg _
    rw [Nat.cast_add]
    constructor <;> linarith

/-- What is less than a half is rounded to zero. -/
theorem roundHalfEven_eq_zero {num den : Nat} (h : 2 * num < den) : roundHalfEven num den = 0 := by
  have hlt : num < den := by omega
  unfold roundHalfEven
  rw [Nat.mod_eq_of_lt hlt, if_pos h, Nat.div_eq_of_lt hlt]

/-! ### The nearest number -/

/-- The scale of the significand: `nearestBits` rounds a multiple of this power of
two. -/
private def scaleFor (num den : Nat) : Int :=
  max (floorLog2 num den - 52) (-1074)

private theorem nearestBits_of_pos {num den : Nat} (hn : 0 < num) :
    nearestBits num den
      = min ((scaleFor num den + 1074).toNat * 0x10000000000000
          + roundHalfEven (divPow 2 (num, den) (scaleFor num den)).1
              (divPow 2 (num, den) (scaleFor num den)).2) infinityBits := by
  rw [nearestBits, if_neg hn.ne']
  rfl

/-- Two fractions of one value have the same nearest number. -/
theorem nearestBits_congr {num den num' den' : Nat} (hd : 0 < den) (hd' : 0 < den')
    (h : (num : ℚ) / den = (num' : ℚ) / den') : nearestBits num den = nearestBits num' den' := by
  have hq : (0 : ℚ) < den := by exact_mod_cast hd
  have hq' : (0 : ℚ) < den' := by exact_mod_cast hd'
  rcases Nat.eq_zero_or_pos num with hn | hn
  · -- Zero is the value of no other numerator.
    subst hn
    have hn' : num' = 0 := by
      rw [Nat.cast_zero, zero_div, eq_comm, div_eq_zero_iff] at h
      exact_mod_cast h.resolve_right hq'.ne'
    rw [hn', nearestBits, nearestBits, if_pos rfl, if_pos rfl]
  · have hn' : 0 < num' := by
      have pos : (0 : ℚ) < (num' : ℚ) / den' := h ▸ div_pos (by exact_mod_cast hn) hq
      rw [div_pos_iff_of_pos_right hq'] at pos
      exact_mod_cast pos
    -- The value determines the exponent, the exponent the scale, and both the significand.
    have exponent : floorLog2 num den = floorLog2 num' den' :=
      floorLog2_eq hn hd (h ▸ floorLog2_le hn' hd') (h ▸ lt_floorLog2 hn' hd')
    have scale : scaleFor num den = scaleFor num' den' := by
      rw [scaleFor, scaleFor, exponent]
    have rounded := roundHalfEven_congr
      (@divPow_den_pos 2 num den (by decide) hd (scaleFor num den))
      (@divPow_den_pos 2 num' den' (by decide) hd' (scaleFor num den))
      (by rw [divPow_value (by decide), divPow_value (by decide), h])
    rw [nearestBits_of_pos hn, nearestBits_of_pos hn', rounded, scale]

/-- At its scale a fraction has at most 53 digits in front of the point. -/
private theorem scaled_lt {num den : Nat} (hn : 0 < num) (hd : 0 < den) :
    (num : ℚ) / den / 2 ^ scaleFor num den < 2 ^ 53 := by
  rw [div_lt_iff₀ (zpow_pos (by norm_num) _)]
  calc (num : ℚ) / den < 2 ^ (floorLog2 num den + 1) := lt_floorLog2 hn hd
    _ ≤ 2 ^ (53 + scaleFor num den) := by
        refine zpow_le_zpow_right₀ (by norm_num) ?_
        rw [scaleFor]
        omega
    _ = 2 ^ 53 * 2 ^ scaleFor num den := zpow_add₀ (by norm_num) 53 _

/-- It has as many unless it is as small as a subnormal number. -/
private theorem le_scaled {num den : Nat} (hn : 0 < num) (hd : 0 < den)
    (normal : -1022 ≤ floorLog2 num den) :
    (2 : ℚ) ^ 52 ≤ num / den / 2 ^ scaleFor num den := by
  have scale : floorLog2 num den = 52 + scaleFor num den := by
    rw [scaleFor]
    omega
  rw [le_div_iff₀ (zpow_pos (by norm_num) _)]
  calc (2 : ℚ) ^ 52 * 2 ^ scaleFor num den = 2 ^ (52 + scaleFor num den) :=
        (zpow_add₀ (by norm_num) 52 _).symm
    _ ≤ num / den := scale ▸ floorLog2_le hn hd

/-- The bits of a positive fraction are its scale and a significand. The significand is at most
one half away from the fraction at that scale, so it has 53 digits unless it is `2 ^ 53` or
subnormal. -/
private theorem exists_significand {num den : Nat} (hn : 0 < num) (hd : 0 < den) :
    ∃ significand : Nat, nearestBits num den
        = min ((scaleFor num den + 1074).toNat * 0x10000000000000 + significand) infinityBits ∧
      (num : ℚ) / den / 2 ^ scaleFor num den - 1 / 2 ≤ significand ∧
      (significand : ℚ) ≤ (num : ℚ) / den / 2 ^ scaleFor num den + 1 / 2 ∧
      significand ≤ 2 ^ 53 ∧ (-1022 ≤ floorLog2 num den → 2 ^ 52 ≤ significand) := by
  have near := @roundHalfEven_near (divPow 2 (num, den) (scaleFor num den)).1 _
    (@divPow_den_pos 2 num den (by decide) hd (scaleFor num den))
  rw [divPow_value (by decide)] at near
  obtain ⟨significand, bits, low, high⟩ : ∃ significand : Nat, nearestBits num den
        = min ((scaleFor num den + 1074).toNat * 0x10000000000000 + significand) infinityBits ∧
      _ ≤ (significand : ℚ) ∧ (significand : ℚ) ≤ _ := ⟨_, nearestBits_of_pos hn, near⟩
  refine ⟨significand, bits, low, high, ?_, fun normal => ?_⟩
  · have := scaled_lt hn hd
    have : (significand : ℚ) < 2 ^ 53 + 1 := by linarith
    exact Nat.lt_succ_iff.mp (by exact_mod_cast this)
  · have := le_scaled hn hd normal
    have : (2 : ℚ) ^ 52 < significand + 1 := by linarith
    exact Nat.lt_succ_iff.mp (by exact_mod_cast this)

/-- A value from `2 ^ 1024` on is too large for a finite number. -/
theorem nearestBits_of_large {num den : Nat} (hd : 0 < den)
    (h : (2 : ℚ) ^ (1024 : Int) ≤ (num : ℚ) / den) : nearestBits num den = infinityBits := by
  have two : (1 : ℚ) < 2 := by norm_num
  have hn : 0 < num := by
    rcases Nat.eq_zero_or_pos num with hn | hn
    · rw [hn, Nat.cast_zero, zero_div] at h
      exact absurd h (not_le.mpr (by positivity))
    · exact hn
  have exponent : 1024 ≤ floorLog2 num den := by
    have := (zpow_lt_zpow_iff_right₀ two).mp (h.trans_lt (lt_floorLog2 hn hd))
    omega
  obtain ⟨significand, bits, -, -, -, digits⟩ := exists_significand hn hd
  have least := digits (by omega)
  -- With so many places the bits are past those of infinity.
  have places : 2046 ≤ (scaleFor num den + 1074).toNat := by
    rw [scaleFor]
    omega
  rw [bits, infinityBits]
  omega

/-- The least value that is rounded to infinity. It is half a unit below `2 ^ 1024`. -/
def limit : ℚ :=
  (2 ^ 53 - 1 / 2) * 2 ^ (971 : Int)

theorem limit_lt : limit < 2 ^ (1024 : Int) := by
  calc limit < 2 ^ (53 : Int) * 2 ^ (971 : Int) :=
        mul_lt_mul_of_pos_right (by norm_num) (zpow_pos (by norm_num) _)
    _ = 2 ^ (1024 : Int) := (zpow_add₀ (by norm_num) _ _).symm

/-- A value below the limit is not rounded to infinity. -/
theorem nearestBits_lt_infinityBits {num den : Nat} (hd : 0 < den) (h : (num : ℚ) / den < limit) :
    nearestBits num den < infinityBits := by
  have two : (1 : ℚ) < 2 := by norm_num
  rcases Nat.eq_zero_or_pos num with hn | hn
  · rw [hn, nearestBits, if_pos rfl]
    decide
  have exponent : floorLog2 num den < 1024 :=
    (zpow_lt_zpow_iff_right₀ two).mp ((floorLog2_le hn hd).trans_lt (h.trans limit_lt))
  obtain ⟨significand, bits, -, near, most, -⟩ := exists_significand hn hd
  -- A significand of 54 digits is one that was rounded up, which is not so at the last scale.
  have last : scaleFor num den = 971 → significand < 2 ^ 53 := by
    intro scale
    rw [scale] at near
    rw [limit, ← div_lt_iff₀ (zpow_pos (by norm_num) _)] at h
    have : (significand : ℚ) < 2 ^ 53 := by linarith
    exact_mod_cast this
  have scale : scaleFor num den ≤ 971 := by
    rw [scaleFor]
    omega
  rw [bits, infinityBits]
  rcases scale.lt_or_eq with less | equal
  · omega
  · have := last equal
    omega

/-- A value that is rounded to a number below the two largest finite ones lies no higher than
halfway between the lesser of these and the number below it. -/
private theorem le_of_nearestBits {num den : Nat} (hd : 0 < den)
    (h : nearestBits num den + 3 ≤ infinityBits) :
    (num : ℚ) / den ≤ (2 ^ 53 - 5 / 2) * 2 ^ (971 : Int) := by
  have two : (1 : ℚ) < 2 := by norm_num
  have unit : (0 : ℚ) < 2 ^ (971 : Int) := zpow_pos (by norm_num) _
  by_contra more
  rw [not_le] at more
  have hn : 0 < num := by
    rcases Nat.eq_zero_or_pos num with hn | hn
    · rw [hn, Nat.cast_zero, zero_div] at more
      exact absurd more (not_lt.mpr (mul_nonneg (by norm_num) unit.le))
    · exact hn
  have least : 1023 ≤ floorLog2 num den := by
    have reached : (2 : ℚ) ^ (1023 : Int) < num / den := by
      calc (2 : ℚ) ^ (1023 : Int) = 2 ^ (52 : Int) * 2 ^ (971 : Int) :=
            zpow_add₀ (by norm_num) 52 971
        _ < (2 ^ 53 - 5 / 2) * 2 ^ (971 : Int) := mul_lt_mul_of_pos_right (by norm_num) unit
        _ < num / den := more
    have := (zpow_lt_zpow_iff_right₀ two).mp (reached.trans (lt_floorLog2 hn hd))
    omega
  rcases Int.lt_or_le (floorLog2 num den) 1024 with small | large
  · -- At the last scale the significand would be that of one of the two.
    obtain ⟨significand, bits, near, -⟩ := exists_significand hn hd
    have scale : scaleFor num den = 971 := by
      rw [scaleFor]
      omega
    rw [scale] at near bits
    rw [← lt_div_iff₀ unit] at more
    have digits : 2 ^ 53 < significand + 3 := by
      have : (2 : ℚ) ^ 53 < significand + 3 := by linarith
      exact_mod_cast this
    rw [bits] at h
    unfold infinityBits at h
    omega
  · have infinite := nearestBits_of_large hd
      ((zpow_le_zpow_right₀ two.le large).trans (floorLog2_le hn hd))
    omega

/-- A value that is rounded to a number below the two largest finite ones is so far below the limit
that it may grow twice by one part in `2 ^ 53`. -/
theorem grown_lt_limit {num den : Nat} (hd : 0 < den) (h : nearestBits num den + 3 ≤ infinityBits) :
    (num : ℚ) / den * (1 + 1 / 2 ^ 53) ^ 2 < limit := by
  unfold limit
  calc (num : ℚ) / den * (1 + 1 / 2 ^ 53) ^ 2
      ≤ (2 ^ 53 - 5 / 2) * 2 ^ (971 : Int) * (1 + 1 / 2 ^ 53) ^ 2 :=
        mul_le_mul_of_nonneg_right (le_of_nearestBits hd h) (by positivity)
    _ = (2 ^ 53 - 5 / 2) * (1 + 1 / 2 ^ 53) ^ 2 * 2 ^ (971 : Int) := mul_right_comm _ _ _
    _ < (2 ^ 53 - 1 / 2) * 2 ^ (971 : Int) :=
        mul_lt_mul_of_pos_right (by norm_num) (zpow_pos (by norm_num) _)

/-- A value below `2 ^ -1075` is rounded to zero. -/
theorem nearestBits_of_small {num den : Nat} (hd : 0 < den)
    (h : (num : ℚ) / den < (2 : ℚ) ^ (-1075 : Int)) : nearestBits num den = 0 := by
  rcases Nat.eq_zero_or_pos num with hn | hn
  · rw [hn, nearestBits, if_pos rfl]
  have two : (1 : ℚ) < 2 := by norm_num
  have exponent : floorLog2 num den < -1075 :=
    (zpow_lt_zpow_iff_right₀ two).mp ((floorLog2_le hn hd).trans_lt h)
  have scale : scaleFor num den = -1074 := by
    rw [scaleFor]
    omega
  -- At the least scale the fraction is below one half.
  have half : 2 * (divPow 2 (num, den) (-1074)).1 < (divPow 2 (num, den) (-1074)).2 := by
    have pos : (0 : ℚ) < ((divPow 2 (num, den) (-1074)).2 : ℚ) := by
      exact_mod_cast @divPow_den_pos 2 num den (by decide) hd (-1074)
    have scaled : ((divPow 2 (num, den) (-1074)).1 : ℚ) / (divPow 2 (num, den) (-1074)).2
        < 1 / 2 := by
      rw [divPow_value (by decide), Nat.cast_ofNat, div_lt_iff₀ (zpow_pos (by norm_num) _)]
      calc (num : ℚ) / den < 2 ^ (-1075 : Int) := h
        _ = 1 / 2 * 2 ^ (-1074 : Int) := by
            rw [show (-1075 : Int) = -1 + -1074 by norm_num, zpow_add₀ (by norm_num)]
            norm_num
    rw [div_lt_div_iff₀ pos (by norm_num), one_mul, mul_comm] at scaled
    exact_mod_cast scaled
  rw [nearestBits_of_pos hn, scale, roundHalfEven_eq_zero half]
  rfl

end Binary64

/-! ### Decimals -/

/-- The number that a decimal stands for. -/
def Decimal.value (d : Decimal) : ℚ :=
  d.digits * (10 : ℚ) ^ d.exponent

namespace Decimal

/-- The fraction of a decimal has the decimal's value. -/
theorem ratio_value (d : Decimal) : (d.ratio.1 : ℚ) / (d.ratio.2 : ℚ) = d.value :=
  Binary64.scaled_value rfl

/-- The fraction of a decimal has a positive denominator. -/
theorem ratio_den_pos (d : Decimal) : 0 < d.ratio.2 :=
  @Binary64.scaled_den_pos d.digits 10 d.exponent _ (by decide) rfl

/-- A decimal is below the power of ten that follows its leading digit. -/
theorem value_lt (d : Decimal) :
    d.value < (10 : ℚ) ^ (d.exponent + (Text.digits d.digits).length) := by
  have ten : (0 : ℚ) < 10 ^ d.exponent := zpow_pos (by norm_num) _
  have digits : (d.digits : ℚ) < 10 ^ (Text.digits d.digits).length := by
    exact_mod_cast Text.lt_pow_length_digits d.digits
  rw [value, zpow_add₀ (by norm_num), zpow_natCast, mul_comm]
  exact mul_lt_mul_of_pos_left digits ten

/-- Taking zeros off the end of the digits keeps the value. -/
theorem trimZeros_value (d : Decimal) : d.trimZeros.value = d.value := by
  fun_induction trimZeros d with
  | case1 d h ih =>
    rw [ih]
    show ((d.digits / 10 : Nat) : ℚ) * 10 ^ (d.exponent + 1) = (d.digits : ℚ) * 10 ^ d.exponent
    -- The last digit is zero, so a tenth of the digits is exact.
    have digits : (d.digits : ℚ) = ((d.digits / 10 : Nat) : ℚ) * 10 := by
      have : d.digits = d.digits / 10 * 10 := by omega
      exact_mod_cast this
    rw [digits, zpow_add₀ (by norm_num), zpow_one]
    ring
  | case2 d h => rfl

end Decimal

namespace Binary64

/-- The short cuts for decimals far outside the range of finite numbers give what
the computation gives. -/
theorem nearestDecimalBits_eq (d : Decimal) :
    nearestDecimalBits d = nearestBits d.ratio.1 d.ratio.2 := by
  unfold nearestDecimalBits
  have den := d.ratio_den_pos
  split
  · rename_i h
    have zero : d.ratio.1 = 0 := by
      have value := d.ratio_value
      rw [Decimal.value, h, Nat.cast_zero, zero_mul, div_eq_zero_iff] at value
      rcases value with value | value
      · exact_mod_cast value
      · exact absurd value (by exact_mod_cast den.ne')
    rw [zero, nearestBits, if_pos rfl]
  rename_i digits
  split
  · rename_i h
    -- At least `10 ^ 401`, which is more than `2 ^ 1024`.
    refine (nearestBits_of_large den ?_).symm
    rw [d.ratio_value, Decimal.value]
    have one : (1 : ℚ) ≤ d.digits := by exact_mod_cast Nat.pos_of_ne_zero digits
    have ten : (10 : ℚ) ^ (401 : Int) ≤ 10 ^ d.exponent :=
      zpow_le_zpow_right₀ (by norm_num) (by omega)
    calc (2 : ℚ) ^ (1024 : Int) ≤ 10 ^ (401 : Int) := by
          have powers : (2 : Nat) ^ 1024 ≤ 10 ^ 401 := by decide +kernel
          exact_mod_cast powers
      _ ≤ 10 ^ d.exponent := ten
      _ ≤ d.digits * 10 ^ d.exponent := le_mul_of_one_le_left (by positivity) one
  split
  · rename_i h
    -- Below `10 ^ -400`, which is less than `2 ^ -1075`.
    refine (nearestBits_of_small den ?_).symm
    rw [d.ratio_value]
    calc d.value < (10 : ℚ) ^ (d.exponent + (Text.digits d.digits).length) := d.value_lt
      _ ≤ 10 ^ (-400 : Int) := zpow_le_zpow_right₀ (by norm_num) (by omega)
      _ ≤ 2 ^ (-1075 : Int) := by
          have powers : (2 : Nat) ^ 1075 ≤ 10 ^ 400 := by decide +kernel
          rw [zpow_neg, zpow_neg]
          exact inv_anti₀ (by positivity) (by exact_mod_cast powers)
  · rfl

/-- Two decimals of one value have the same nearest number. -/
theorem nearestDecimalBits_congr {d d' : Decimal} (h : d.value = d'.value) :
    nearestDecimalBits d = nearestDecimalBits d' := by
  rw [nearestDecimalBits_eq, nearestDecimalBits_eq]
  refine nearestBits_congr d.ratio_den_pos d'.ratio_den_pos ?_
  rw [d.ratio_value, d'.ratio_value, h]

/-! ### Finite numbers are exact -/

/-- The magnitude of a finite number. -/
def value (x : Binary64) : ℚ :=
  x.significand * (2 : ℚ) ^ x.scale

/-- The fraction of a number has the number's magnitude. -/
theorem ratio_value (x : Binary64) : (x.ratio.1 : ℚ) / (x.ratio.2 : ℚ) = x.value :=
  scaled_value rfl

/-- The fraction of a number has a positive denominator. -/
theorem ratio_den_pos (x : Binary64) : 0 < x.ratio.2 :=
  @scaled_den_pos x.significand 2 x.scale _ (by decide) rfl

/-- All digits of a number stand for its magnitude. -/
theorem exactDecimal_value (x : Binary64) : x.exactDecimal.value = x.value := by
  unfold exactDecimal Decimal.value value
  split
  · rename_i h
    obtain ⟨k, hk⟩ := Int.eq_ofNat_of_zero_le h
    show ((x.significand * 2 ^ x.scale.toNat : Nat) : ℚ) * 10 ^ (0 : Int) = _
    rw [hk, Int.toNat_natCast, zpow_zero, mul_one, zpow_natCast, Nat.cast_mul, Nat.cast_pow,
      Nat.cast_ofNat]
  · rename_i h
    obtain ⟨k, hk⟩ := Int.eq_ofNat_of_zero_le (show 0 ≤ -x.scale by omega)
    have he : x.scale = -(k : Int) := by omega
    show ((x.significand * 5 ^ (-x.scale).toNat : Nat) : ℚ) * 10 ^ x.scale = _
    rw [hk, he, Int.toNat_natCast, zpow_neg, zpow_neg, zpow_natCast, zpow_natCast, Nat.cast_mul,
      Nat.cast_pow, Nat.cast_ofNat, show (10 : ℚ) = 5 * 2 by norm_num, mul_pow]
    field_simp

/-- The magnitude of a number that is made of one. -/
theorem magnitudeBits_ofMagnitudeBits (negative : Bool) {magnitude : Nat}
    (h : magnitude < 0x8000000000000000) :
    (ofMagnitudeBits negative magnitude).magnitudeBits = magnitude := by
  unfold ofMagnitudeBits magnitudeBits
  split
  · rw [UInt64.toNat_ofNat']
    omega
  · rw [UInt64.toNat_ofNat']
    omega

/-- A significand with 53 digits and its scale are the magnitude of a number. So is `2 ^ 53`,
which carries into the exponent. -/
private theorem value_ofMagnitudeBits (negative : Bool) {significand : Nat} {scale : Int}
    (least : -1074 ≤ scale) (low : 2 ^ 52 ≤ significand) (high : significand ≤ 2 ^ 53)
    (h : (scale + 1074).toNat * 0x10000000000000 + significand < infinityBits) :
    (ofMagnitudeBits negative ((scale + 1074).toNat * 0x10000000000000 + significand)).value
      = significand * 2 ^ scale := by
  have bits := magnitudeBits_ofMagnitudeBits negative (h.trans (by decide))
  unfold value Binary64.significand Binary64.scale
  rw [bits, if_neg (by omega), if_neg (by omega)]
  rcases high.lt_or_eq with less | equal
  · have own : ((scale + 1074).toNat * 0x10000000000000 + significand) % 0x10000000000000
        + 0x10000000000000 = significand := by omega
    have place : (((scale + 1074).toNat * 0x10000000000000 + significand) / 0x10000000000000 : Nat)
        - 1075 = scale := by omega
    rw [own, place]
  · have own : ((scale + 1074).toNat * 0x10000000000000 + significand) % 0x10000000000000
        + 0x10000000000000 = 2 ^ 52 := by omega
    have place : (((scale + 1074).toNat * 0x10000000000000 + significand) / 0x10000000000000 : Nat)
        - 1075 = scale + 1 := by omega
    rw [own, place, equal, zpow_add_one₀ (by norm_num)]
    push_cast
    ring

/-- A value from one on grows by at most one part in `2 ^ 53` when it is rounded. -/
theorem value_nearestBits_le {num den : Nat} (negative : Bool) (hd : 0 < den)
    (one : (1 : ℚ) ≤ num / den) (h : (num : ℚ) / den < limit) :
    (ofMagnitudeBits negative (nearestBits num den)).value ≤ num / den * (1 + 1 / 2 ^ 53) := by
  have hn : 0 < num := by
    rcases Nat.eq_zero_or_pos num with hn | hn
    · rw [hn, Nat.cast_zero, zero_div] at one
      exact absurd one (by norm_num)
    · exact hn
  have least : 0 ≤ floorLog2 num den := by
    have := (zpow_lt_zpow_iff_right₀ (show (1 : ℚ) < 2 by norm_num)).mp
      (((zpow_zero (2 : ℚ)).le.trans one).trans_lt (lt_floorLog2 hn hd))
    omega
  have finite := nearestBits_lt_infinityBits hd h
  have unit : (0 : ℚ) < 2 ^ scaleFor num den := zpow_pos (by norm_num) _
  have reached := le_scaled hn hd (by omega)
  obtain ⟨significand, bits, -, high, most, digits⟩ := exists_significand hn hd
  rw [min_eq_left (by omega)] at bits
  have scale : -1074 ≤ scaleFor num den := le_max_right _ _
  rw [bits, value_ofMagnitudeBits negative scale (digits (by omega)) most (bits ▸ finite)]
  -- One half is at most one part in `2 ^ 53` of a significand.
  calc (significand : ℚ) * 2 ^ scaleFor num den
      ≤ num / den / 2 ^ scaleFor num den * (1 + 1 / 2 ^ 53) * 2 ^ scaleFor num den := by
        refine mul_le_mul_of_nonneg_right ?_ unit.le
        linarith
    _ = num / den * (1 + 1 / 2 ^ 53) := by
        field_simp

/-- The scale that is chosen for a number is the number's own. -/
private theorem scaleFor_ratio {x : Binary64} (hn : 0 < x.ratio.1) :
    scaleFor x.ratio.1 x.ratio.2 = x.scale := by
  have den := x.ratio_den_pos
  have two : (0 : ℚ) < 2 := by norm_num
  have ratio : (x.ratio.1 : ℚ) / x.ratio.2 = x.significand * (2 : ℚ) ^ x.scale := x.ratio_value
  by_cases subnormal : x.magnitudeBits < 0x10000000000000
  · -- The exponent is below the least one, which is chosen for it.
    have hs : x.scale = -1074 := by rw [Binary64.scale, if_pos subnormal]
    have below : floorLog2 x.ratio.1 x.ratio.2 < 52 + -1074 := by
      refine (zpow_lt_zpow_iff_right₀ (show (1 : ℚ) < 2 by norm_num)).mp ?_
      have small : (x.significand : ℚ) < 2 ^ (52 : Int) := by
        rw [significand, if_pos subnormal]
        exact_mod_cast subnormal
      calc (2 : ℚ) ^ floorLog2 x.ratio.1 x.ratio.2 ≤ x.ratio.1 / x.ratio.2 := floorLog2_le hn den
        _ = x.significand * 2 ^ (-1074 : Int) := by rw [ratio, hs]
        _ < 2 ^ (52 : Int) * 2 ^ (-1074 : Int) := mul_lt_mul_of_pos_right small (zpow_pos two _)
        _ = 2 ^ ((52 : Int) + -1074) := (zpow_add₀ two.ne' _ _).symm
    rw [scaleFor, hs]
    omega
  · -- The significand has 53 digits, so its leading digit gives the exponent.
    have significand : x.significand = x.magnitudeBits % 0x10000000000000 + 0x10000000000000 := by
      rw [Binary64.significand, if_neg subnormal]
    have hs : x.scale = (x.magnitudeBits / 0x10000000000000 : Nat) - 1075 := by
      rw [Binary64.scale, if_neg subnormal]
    have exponent : floorLog2 x.ratio.1 x.ratio.2 = 52 + x.scale := by
      refine floorLog2_eq hn den ?_ ?_
      · have low : (2 : ℚ) ^ (52 : Int) ≤ x.significand := by
          rw [significand]
          exact_mod_cast Nat.le_add_left 0x10000000000000 _
        rw [ratio, zpow_add₀ two.ne']
        exact mul_le_mul_of_nonneg_right low (zpow_pos two _).le
      · have high : (x.significand : ℚ) < 2 ^ (53 : Int) := by
          have : x.significand < 0x20000000000000 := by omega
          exact_mod_cast this
        rw [ratio, show 52 + x.scale + 1 = 53 + x.scale by omega, zpow_add₀ two.ne']
        exact mul_lt_mul_of_pos_right high (zpow_pos two _)
    rw [scaleFor, exponent, hs]
    omega

/-- What a significand and its scale give back: the bits of the magnitude. -/
theorem nearestBits_ratio {x : Binary64} (h : x.isFinite = true) :
    nearestBits x.ratio.1 x.ratio.2 = x.magnitudeBits := by
  have finite : x.magnitudeBits < infinityBits := by simpa [isFinite] using h
  have two : (0 : ℚ) < 2 := by norm_num
  have ratio : (x.ratio.1 : ℚ) / x.ratio.2 = x.significand * (2 : ℚ) ^ x.scale := x.ratio_value
  rcases Nat.eq_zero_or_pos x.ratio.1 with hn | hn
  · -- Only the bits of zero have no significand.
    rw [hn, Nat.cast_zero, zero_div, eq_comm, mul_eq_zero] at ratio
    have zero : x.significand = 0 := by
      exact_mod_cast ratio.resolve_right (zpow_pos two _).ne'
    rw [hn, nearestBits, if_pos rfl]
    unfold significand at zero
    split at zero <;> omega
  · -- At the number's own scale the fraction is the significand, which is not rounded.
    have rounded : roundHalfEven (divPow 2 (x.ratio.1, x.ratio.2) x.scale).1
        (divPow 2 (x.ratio.1, x.ratio.2) x.scale).2 = x.significand := by
      refine roundHalfEven_of_eq (divPow_den_pos (by decide) x.ratio_den_pos _) ?_
      rw [divPow_value (by decide), ratio, Nat.cast_ofNat, mul_div_assoc,
        div_self (zpow_pos two _).ne', mul_one]
    rw [nearestBits_of_pos hn, scaleFor_ratio hn, rounded]
    unfold significand Binary64.scale
    unfold infinityBits at finite ⊢
    split <;> omega

/-- A finite number is written as a decimal of the same nearest number: one that
was found by trying reads back, and all digits of the number do. -/
theorem nearestDecimalBits_shortest {x : Binary64} (h : x.isFinite = true) (tie : Tie) :
    nearestDecimalBits (x.shortest tie) = x.magnitudeBits := by
  unfold shortest
  rw [nearestDecimalBits_congr (Decimal.trimZeros_value _)]
  -- A decimal that was found has been checked. If none was, all digits are there.
  cases found : x.shortest? tie with
  | some d => exact nearestDecimalBits_shortest? found
  | none =>
    show nearestDecimalBits x.exactDecimal = x.magnitudeBits
    rw [nearestDecimalBits_eq, ← nearestBits_ratio h]
    refine nearestBits_congr x.exactDecimal.ratio_den_pos x.ratio_den_pos ?_
    rw [Decimal.ratio_value, exactDecimal_value, ratio_value]

end Binary64

end ForumModeration
