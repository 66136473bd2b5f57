import ForumModeration.Proofs.Binary64.Scaling
import ForumModeration.Proofs.Json.Numbers

/-!
# `ForumModeration.Proofs.Json.Floats`: floating-point numbers in documents

A finite floating-point number is written in a document with digits to which it is the nearest.
They are read as a numeral, which is no integer. What floating-point number the numeral is read as
is another matter: its digits are rounded, and they are rounded again when they are scaled. So the
number that comes back, `Binary64.reread`, may differ from the one that was written.

What always holds is that some number comes back (`float_recovers`). Numbers are not too large
once more after they are written, although those next to infinity come close. There are two of
these on either side of zero, and they are tried one by one. All others are so far below the limit
that what they gain by rounding does not matter (`float?_isSome`).
-/

set_option autoImplicit false

namespace ForumModeration

open Text

namespace Numeral

variable {n : Numeral}

/-- The decimal that a numeral stands for. -/
def exact (n : Numeral) : Decimal :=
  ⟨numberOf (n.whole ++ n.places.getD []), n.power.getD 0 - (n.places.getD []).length⟩

/-- Digits behind a significand multiply it by a power of ten, and do not make it less. -/
theorem significand_le (significand : Nat) (digits : List Char) :
    significand * 10 ^ digits.length ≤ Nat.ofDigitChars 10 digits significand := by
  rw [Nat.ofDigitChars_eq_ofDigitChars_zero, Nat.mul_comm]
  exact Nat.le_add_right _ _

/-- All digits are taken if the number that they make fits. -/
theorem gather_eq {significand : Nat} {digits : List Char}
    (fits : Nat.ofDigitChars 10 digits significand < 0x10000000000000000) :
    gather significand digits = (Nat.ofDigitChars 10 digits significand, 0) := by
  induction digits generalizing significand with
  | nil => rfl
  | cons c digits ih =>
    have first : Nat.ofDigitChars 10 [c] significand < 0x10000000000000000 :=
      calc Nat.ofDigitChars 10 [c] significand
          ≤ Nat.ofDigitChars 10 [c] significand * 10 ^ digits.length :=
            Nat.le_mul_of_pos_right _ (Nat.pow_pos (by decide))
        _ ≤ Nat.ofDigitChars 10 digits (Nat.ofDigitChars 10 [c] significand) :=
            significand_le _ _
        _ < 0x10000000000000000 := fits
    rw [gather, if_pos first]
    exact ih fits

/-- Digits that are left count like zeros, so for no more than they are. -/
theorem gather_le (significand : Nat) (digits : List Char) :
    (gather significand digits).1 * 10 ^ (gather significand digits).2
      ≤ Nat.ofDigitChars 10 digits significand := by
  induction digits generalizing significand with
  | nil => exact (Nat.mul_one _).le
  | cons c digits ih =>
    rw [gather]
    split
    · exact ih _
    · exact significand_le significand (c :: digits)

/-- A numeral whose whole part fits into 64 bits is not made larger where it is truncated. -/
theorem truncated_value_le (fits : numberOf n.whole < 0x10000000000000000) :
    n.truncated.value ≤ n.exact.value := by
  have taken := gather_le (numberOf n.whole) (n.places.getD [])
  obtain ⟨⟨significand, dropped⟩, found⟩ : ∃ taken,
      gather (numberOf n.whole) (n.places.getD []) = taken := ⟨_, rfl⟩
  have number : numberOf (n.whole ++ n.places.getD [])
      = Nat.ofDigitChars 10 (n.places.getD []) (numberOf n.whole) := Nat.ofDigitChars_append 0
  have whole : gather 0 n.whole = (numberOf n.whole, 0) := gather_eq fits
  have truncated : n.truncated = ⟨significand, dropped + n.exact.exponent⟩ := by
    unfold Numeral.truncated exact
    rw [whole]
    dsimp only
    rw [found]
    dsimp only
    congr 1
    omega
  rw [found, ← number] at taken
  rw [truncated, Decimal.value, zpow_add₀ (by norm_num), ← mul_assoc, zpow_natCast]
  refine mul_le_mul_of_nonneg_right ?_ (zpow_nonneg (by norm_num) _)
  exact_mod_cast taken

/-- A numeral is in range if its whole part fits into 64 bits and its digits are below those of
the two largest finite numbers. -/
theorem float?_isSome (fits : numberOf n.whole < 0x10000000000000000)
    (h : Binary64.nearestDecimalBits n.exact + 3 ≤ Binary64.infinityBits) :
    n.float?.isSome = true := by
  rw [float?, Option.isSome_map]
  rcases Int.lt_or_le n.truncated.exponent 0 with negative | nonneg
  · exact Binary64.scaled?_of_neg negative
  · refine Binary64.scaled?_of_nonneg nonneg ?_
    rw [Binary64.nearestDecimalBits_eq] at h
    calc n.truncated.value * (1 + 1 / 2 ^ 53) ^ 2 ≤ n.exact.value * (1 + 1 / 2 ^ 53) ^ 2 :=
          mul_le_mul_of_nonneg_right (truncated_value_le fits) (by positivity)
      _ = n.exact.ratio.1 / n.exact.ratio.2 * (1 + 1 / 2 ^ 53) ^ 2 := by rw [Decimal.ratio_value]
      _ < Binary64.limit := Binary64.grown_lt_limit n.exact.ratio_den_pos h

end Numeral

/-! ### Written numbers -/

namespace Json.Document

open ForumModeration.Parser

variable {rest : List Char}

/-- Scientific notation is a digit, perhaps a point and more digits, and an exponent. -/
theorem numeral_scientific (negative : Bool) {d : Decimal} (positive : d.digits ≠ 0) :
    ∃ n : Numeral, (∀ {rest}, Ends rest →
        numeral (signText negative ++ d.scientific true ++ rest) = .ok (n, rest)) ∧
      n.isInteger = false ∧ n.exact = d ∧ numberOf n.whole < 10 := by
  obtain ⟨first, others, written⟩ := List.exists_cons_of_ne_nil (digits_ne_nil d.digits)
  have all : ∀ c ∈ first :: others, c.isDigit = true := fun c mem =>
    isDigit_of_mem_digits (written.symm ▸ mem)
  have digit : Digits [first] :=
    ⟨List.cons_ne_nil _ _, List.forall_mem_singleton.mpr (all _ List.mem_cons_self)⟩
  have leading : NoLeadingZero [first] := by
    have start := head?_digits positive
    rw [written] at start
    exact .inr start
  let places : Option (List Char) := if others.isEmpty then none else some others
  refine ⟨⟨negative, [first], places, some d.leadingExponent⟩, ?_, Bool.and_false _, ?_,
    numberOf_lt digit.2⟩
  · intro rest ends
    have exponent_ := exponent_of d.leadingExponent (ends.noNumber.imp fun _ hc => hc.1)
    generalize tail : 'e' :: (if 0 ≤ d.leadingExponent then ['+'] else [])
      ++ signedDigits d.leadingExponent = exponentText at exponent_
    have text : signText negative ++ d.scientific true ++ rest
        = signText negative ++ [first] ++
          ((if others.isEmpty then [] else '.' :: others) ++ (exponentText ++ rest)) := by
      rw [← tail, Decimal.scientific, written]
      simp
    have letter : Ahead (fun c => c.isDigit = false ∧ c ≠ '.') (exponentText ++ rest) := by
      rw [← tail]
      exact ahead_cons.mpr (by decide)
    obtain ⟨fraction_, noDigit⟩ :=
      fraction_of_others (fun c mem => all c (List.mem_cons_of_mem _ mem)) letter
    rw [text]
    exact numeral_of_parts digit leading noDigit fraction_ exponent_
  · have places_ : places.getD [] = others := by
      cases others <;> rfl
    have number : numberOf (first :: others) = d.digits := written ▸ numberOf_digits d.digits
    -- Each digit behind the first one counts for one in the exponent.
    have power : d.leadingExponent - others.length = d.exponent := by
      rw [Decimal.leadingExponent, written, List.length_cons]
      omega
    show Decimal.mk (numberOf (first :: places.getD []))
      (d.leadingExponent - (places.getD []).length) = d
    rw [places_, number, power]

/-- A point with digits on either side of it. -/
theorem numeral_point (negative : Bool) {whole places : List Char} (digits : Digits whole)
    (leading : NoLeadingZero whole) (more : Digits places) (ends : Ends rest) :
    numeral (signText negative ++ (whole ++ '.' :: places) ++ rest)
      = .ok (⟨negative, whole, some places, none⟩, rest) := by
  have next := ends.noNumber
  have text : signText negative ++ (whole ++ '.' :: places) ++ rest
      = signText negative ++ whole ++ '.' :: (places ++ rest) := by
    simp only [List.append_assoc, List.cons_append]
  rw [text]
  exact numeral_of_parts digits leading (ahead_cons.mpr rfl)
    (fraction_of more (next.imp fun _ hc => hc.1)) (noExponent (next.imp fun _ hc => hc.2.2))

/-- The digits in front of the point stand for no more than all of them. -/
theorem whole_le (whole places : List Char) :
    (numberOf whole : ℚ)
      ≤ (⟨numberOf (whole ++ places), -(places.length : Int)⟩ : Decimal).value := by
  have number : numberOf (whole ++ places) = Nat.ofDigitChars 10 places (numberOf whole) :=
    Nat.ofDigitChars_append 0
  rw [number, Decimal.value, zpow_neg, zpow_natCast, ← div_eq_mul_inv, le_div_iff₀ (by positivity)]
  exact_mod_cast Numeral.significand_le (numberOf whole) places

/-- Positional notation of a number that is not too large is a point with digits on either side,
and those in front of it fit into 64 bits. -/
theorem numeral_positional (negative : Bool) {d : Decimal} (positive : d.digits ≠ 0)
    (low : d.leadingExponent ≤ 15) :
    ∃ n : Numeral, (∀ {rest}, Ends rest →
        numeral (signText negative ++ d.positional ++ rest) = .ok (n, rest)) ∧
      n.isInteger = false ∧ n.exact.value = d.value ∧
      numberOf n.whole < 0x10000000000000000 := by
  obtain ⟨whole, places, written, digits, more, leading, value⟩ := d.positional_value
  have small : (numberOf whole : ℚ) < 10 ^ (16 : Int) :=
    calc (numberOf whole : ℚ) ≤ d.value := value ▸ whole_le whole places
      _ < _ := d.value_lt
      _ ≤ 10 ^ (16 : Int) := zpow_le_zpow_right₀ (by norm_num) (by
        unfold Decimal.leadingExponent at low
        omega)
  have small : numberOf whole < 10 ^ 16 := by exact_mod_cast small
  refine ⟨⟨negative, whole, some places, none⟩, ?_, rfl, ?_, small.trans (by decide)⟩
  · intro rest ends
    rw [written]
    exact numeral_point negative digits (leading positive) more ends
  · rw [← value, Numeral.exact, Option.getD_some, Option.getD_none, Int.zero_sub]

/-- The floating-point number that a text is read as, if it is a number in range. -/
def float? (text : List Char) : Option Binary64 :=
  (numeral text).toOption.bind fun read => read.1.float?

end Json.Document

open Json.Document

/-- The floating-point number that comes back for a finite one that is written. -/
def Binary64.reread (x : Binary64) : Binary64 :=
  (Json.Document.float? (Json.writeFloat x)).getD x

namespace Json.Document

/-- The numeral that is written for a finite number is no integer, and the number is the nearest to
the decimal that it stands for. -/
theorem numeral_writeFloat {x : Binary64} (finite : x.isFinite = true) :
    ∃ n : Numeral, (∀ {rest}, Ends rest → numeral (writeFloat x ++ rest) = .ok (n, rest)) ∧
      n.isInteger = false ∧ Binary64.nearestDecimalBits n.exact = x.magnitudeBits ∧
      numberOf n.whole < 0x10000000000000000 := by
  rw [writeFloat, if_pos finite, NumberStyle.write_eq _ finite, NumberStyle.magnitude]
  by_cases zero : x.isZero = true
  · -- Zero has no shortest decimal and is written by itself.
    rw [if_pos zero]
    refine ⟨_, numeral_point x.isNegative digits_zero (.inl rfl) digits_zero, rfl, ?_,
      (by decide : numberOf ['0'] < 0x10000000000000000)⟩
    rw [of_decide_eq_true zero]
    rfl
  · rw [if_neg zero, if_pos finite]
    dsimp only
    have shortest := Binary64.nearestDecimalBits_shortest finite .toEven
    have positive : (x.shortest .toEven).digits ≠ 0 := by
      intro none
      rw [Binary64.nearestDecimalBits, if_pos none] at shortest
      exact zero (decide_eq_true shortest.symm)
    split
    · rename_i positional
      have low : (x.shortest .toEven).leadingExponent ≤ 15 :=
        of_decide_eq_true ((Bool.and_eq_true _ _).mp positional).2
      obtain ⟨n, reads, noInteger, value, fits⟩ := numeral_positional x.isNegative positive low
      exact ⟨n, reads, noInteger, (Binary64.nearestDecimalBits_congr value).trans shortest, fits⟩
    · obtain ⟨n, reads, noInteger, exact_, fits⟩ := numeral_scientific x.isNegative positive
      exact ⟨n, reads, noInteger, exact_ ▸ shortest, by omega⟩

/-- The two largest finite numbers of either sign are in range when they are read back. -/
private theorem float?_largest (negative : Bool) {magnitude : Nat}
    (h : magnitude < Binary64.infinityBits) (large : Binary64.infinityBits < magnitude + 3) :
    (float? (writeFloat (.ofMagnitudeBits negative magnitude))).isSome = true := by
  have all : ∀ negative, ∀ magnitude ∈ [Binary64.infinityBits - 2, Binary64.infinityBits - 1],
      (float? (writeFloat (.ofMagnitudeBits negative magnitude))).isSome = true := by
    decide +kernel
  refine all negative magnitude ?_
  simp only [List.mem_cons, List.not_mem_nil, or_false]
  omega

/-- Some number comes back for every finite number: what is written for it is no integer, and it
is in range. -/
theorem float_recovers {x : Binary64} (finite : x.isFinite = true) :
    ∃ n : Numeral, (∀ {rest}, Ends rest → numeral (writeFloat x ++ rest) = .ok (n, rest)) ∧
      n.int64? = none ∧ n.float? = some x.reread := by
  obtain ⟨n, reads, noInteger, nearest, fits⟩ := numeral_writeFloat finite
  have read : float? (writeFloat x) = n.float? := by
    have whole := @reads [] (ahead_nil _)
    rw [List.append_nil] at whole
    rw [float?, whole]
    rfl
  have inRange : n.float?.isSome = true := by
    rcases Nat.lt_or_ge Binary64.infinityBits (x.magnitudeBits + 3) with large | small
    · rw [← read, ← x.ofMagnitudeBits_magnitudeBits]
      exact float?_largest _ (of_decide_eq_true finite) large
    · exact Numeral.float?_isSome fits (nearest ▸ small)
  refine ⟨n, reads, ?_, ?_⟩
  · rw [Numeral.int64?, noInteger]
    rfl
  · obtain ⟨y, same⟩ := Option.isSome_iff_exists.mp inRange
    rw [Binary64.reread, read, same]
    rfl

end Json.Document

end ForumModeration
