import ForumModeration.Proofs.Text.Letters
import ForumModeration.Text.Digits

/-!
# `ForumModeration.Proofs.Text.Digits`: runs of digits

Numbers are written as runs of digits (`Digits`), fields of a date in a fixed width
(`length_padded`). Zeros at the end of a run multiply by ten
(`numberOf_append_zeros`).
-/

set_option autoImplicit false

namespace ForumModeration.Text

/-- A run of digits. -/
def Digits (written : List Char) : Prop :=
  written ≠ [] ∧ ∀ c ∈ written, c.isDigit = true

theorem digits_digits (n : Nat) : Digits (digits n) :=
  ⟨digits_ne_nil n, fun _ => isDigit_of_mem_digits⟩

theorem digits_zero : Digits ['0'] :=
  ⟨by simp, by simp⟩

/-- A run of digits starts with one, whatever follows it. -/
theorem Digits.start {run : List Char} (digits : Digits run) (rest : List Char) :
    ∃ c tail, run ++ rest = c :: tail ∧ c.isDigit = true := by
  obtain ⟨nonempty, all⟩ := digits
  obtain ⟨c, run, rfl⟩ := List.exists_cons_of_ne_nil nonempty
  exact ⟨c, run ++ rest, rfl, all c (by simp)⟩

theorem isDigit_of_mem_zeros {c : Char} {count : Nat} (h : c ∈ List.replicate count '0') :
    c.isDigit = true := by
  rw [(List.mem_replicate.mp h).2]
  rfl

theorem isDigit_of_mem_append {run run' : List Char} (h : ∀ c ∈ run, c.isDigit = true)
    (h' : ∀ c ∈ run', c.isDigit = true) : ∀ c ∈ run ++ run', c.isDigit = true := by
  intro c mem
  rcases List.mem_append.mp mem with mem | mem
  · exact h c mem
  · exact h' c mem

/-- Zeros behind the digits of a number. -/
theorem numberOf_append_zeros (written : List Char) (count : Nat) :
    numberOf (written ++ List.replicate count '0') = numberOf written * 10 ^ count := by
  rw [numberOf, Nat.ofDigitChars_append, Nat.ofDigitChars_replicate_zero, Nat.mul_comm]
  rfl

/-- A number is below the power of ten of its count of digits. -/
theorem lt_pow_length_digits (n : Nat) : n < 10 ^ (digits n).length :=
  (Nat.length_toDigits_le_iff (by decide) Nat.length_toDigits_pos).mp (Nat.le_refl _)

/-- Digits as an integer is written with them: it starts with a zero only if it is zero. -/
def NoLeadingZero (written : List Char) : Prop :=
  written = ['0'] ∨ written.head? ≠ some '0'

/-- A run of digits stands for a number below the power of ten of its length. -/
theorem numberOf_lt {written : List Char} (digits : ∀ c ∈ written, c.isDigit = true) :
    numberOf written < 10 ^ written.length := by
  induction written with
  | nil => exact Nat.one_pos
  | cons c written ih =>
    have others := ih fun d mem => digits d (List.mem_cons_of_mem _ mem)
    have low : c.toNat - '0'.toNat ≤ 9 := by
      have digit := (isDigit_iff c).mp (digits c (by simp))
      show c.toNat - 48 ≤ 9
      omega
    -- The leading digit counts for the power of ten of the digits behind it.
    have split : numberOf (c :: written)
        = 10 ^ written.length * (c.toNat - '0'.toNat) + numberOf written := by
      rw [numberOf, Nat.ofDigitChars_cons, Nat.ofDigitChars_eq_ofDigitChars_zero, Nat.mul_zero,
        Nat.zero_add]
      rfl
    have leading := Nat.mul_le_mul_left (10 ^ written.length) low
    rw [split, List.length_cons, Nat.pow_succ]
    omega

/-- The digits of a number other than zero start with another digit. -/
theorem head?_digits {n : Nat} (h : n ≠ 0) : (digits n).head? ≠ some '0' := by
  intro zero
  obtain ⟨others, written⟩ := List.head?_eq_some_iff.mp zero
  have all : ∀ c ∈ others, c.isDigit = true := fun c mem =>
    isDigit_of_mem_digits (written ▸ List.mem_cons_of_mem _ mem)
  have number : numberOf others = n := by
    have same := numberOf_digits n
    rw [written] at same
    exact (numberOf_zeros_append 1 others).symm.trans same
  have small : n < 10 ^ others.length := number ▸ numberOf_lt all
  rcases Nat.eq_zero_or_pos others.length with alone | positive
  · rw [alone] at small
    omega
  · -- So the other digits alone are as many as the number has.
    have length := (Nat.length_toDigits_le_iff (by decide) positive).mpr small
    rw [show Nat.toDigits 10 n = '0' :: others from written, List.length_cons] at length
    omega

theorem noLeadingZero_digits (n : Nat) : NoLeadingZero (digits n) := by
  by_cases zero : n = 0
  · subst zero
    exact .inl rfl
  · exact .inr (head?_digits zero)

/-- A number that fits a width fills it. -/
theorem length_padded {width n : Nat} (positive : 0 < width) (h : n < 10 ^ width) :
    (padded width n).length = width := by
  have fits : (digits n).length ≤ width :=
    (Nat.length_toDigits_le_iff (by decide) positive).mpr h
  rw [padded, List.length_append, List.length_replicate, Nat.sub_add_cancel fits]

end ForumModeration.Text
