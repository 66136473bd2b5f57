/-!
# `ForumModeration.Text.Digits`: numbers written in decimal

Numbers are written in base ten and read back by `numberOf`, which ignores
leading zeros. Fields of a date are padded with zeros to a fixed width.

* `numberOf_digits`, `numberOf_padded`: what is written reads back.
-/

set_option autoImplicit false

namespace ForumModeration.Text

/-- The decimal digits of a number, without leading zeros. -/
def digits (n : Nat) : List Char :=
  Nat.toDigits 10 n

/-- A number in decimal, as a string. -/
def decimal (n : Nat) : String :=
  String.ofList (digits n)

/-- The number that a run of decimal digits stands for. -/
def numberOf (text : List Char) : Nat :=
  Nat.ofDigitChars 10 text 0

/-- A number with zeros in front of it up to the given width. -/
def padded (width n : Nat) : List Char :=
  List.replicate (width - (digits n).length) '0' ++ digits n

/-- A number with its sign, which only negative numbers show. -/
def signedDigits : Int → List Char
  | .ofNat n => digits n
  | .negSucc n => '-' :: digits (n + 1)

theorem numberOf_digits (n : Nat) : numberOf (digits n) = n :=
  Nat.ofDigitChars_ten_toDigits

theorem isDigit_of_mem_digits {n : Nat} {c : Char} (h : c ∈ digits n) : c.isDigit = true :=
  Nat.isDigit_of_mem_toDigits (by decide) (by decide) h

theorem digits_ne_nil (n : Nat) : digits n ≠ [] :=
  List.ne_nil_of_length_pos Nat.length_toDigits_pos

theorem numberOf_zeros_append (count : Nat) (text : List Char) :
    numberOf (List.replicate count '0' ++ text) = numberOf text := by
  induction count with
  | zero => rfl
  | succ count ih =>
    rw [List.replicate_succ, List.cons_append]
    exact ih

theorem numberOf_padded (width n : Nat) : numberOf (padded width n) = n := by
  rw [padded, numberOf_zeros_append, numberOf_digits]

theorem isDigit_of_mem_padded {width n : Nat} {c : Char} (h : c ∈ padded width n) :
    c.isDigit = true := by
  rcases List.mem_append.1 h with h | h
  · rw [(List.mem_replicate.1 h).2]; rfl
  · exact isDigit_of_mem_digits h

end ForumModeration.Text
