import ForumModeration.Json.Document
import ForumModeration.Json.Encoding
import ForumModeration.Proofs.Grammar.Numbers

/-!
# `ForumModeration.Proofs.Json.Numbers`: integers in documents are read back

A number is read from a document as a numeral. What it stands for is decided later: an integer of
64 bits if there is neither a point nor an exponent and it fits, else a floating-point number.

* `numeral_of_parts`: the numeral of a text, from what its parts are read as.
* `int64_recovers`, `int32_recovers`: the numeral that is written for an integer stands for it.
-/

set_option autoImplicit false

namespace ForumModeration

namespace Json.Document

open Text ForumModeration.Parser

variable {text rest mid : List Char}

/-- What can follow a document in a written one: a comma or a closing bracket, if anything. -/
def Ends (rest : List Char) : Prop :=
  Ahead (fun c => c = ',' ∨ c = ']' ∨ c = '\x7d') rest

/-- No digit, point or letter of an exponent goes on with a number. -/
theorem Ends.noNumber (ends : Ends rest) :
    Ahead (fun c => c.isDigit = false ∧ c ≠ '.' ∧ c ≠ 'e' ∧ c ≠ 'E') rest :=
  ends.imp fun _ closing => by rcases closing with rfl | rfl | rfl <;> decide

/-- A text that starts with no blank is not shortened. -/
theorem skipBlanks_eq_self (h : Ahead (isBlank · = false) text) : skipBlanks text = text := by
  cases text with
  | nil => rfl
  | cons c text =>
    rw [skipBlanks, List.dropWhile_cons_of_neg]
    rw [ahead_cons.mp h]
    decide

theorem isBlank_eq_false_of_isDigit {c : Char} (h : c.isDigit = true) : isBlank c = false := by
  simp only [isBlank, Bool.or_eq_false_iff, decide_eq_false_iff_not]
  refine ⟨⟨⟨?_, ?_⟩, ?_⟩, ?_⟩ <;> (rintro rfl; revert h; decide)

/-! ### The parts of a numeral -/

theorem wholeDigits_of {whole : List Char} (digits : Digits whole) (leading : NoLeadingZero whole)
    (ends : Ahead (Char.isDigit · = false) rest) :
    wholeDigits (whole ++ rest) = .ok (whole, rest) := by
  unfold wholeDigits
  rcases leading with rfl | leading
  · refine orElse_of_ok ?_
    rw [List.singleton_append, bind_of_ok (char_eq_ok.mpr ⟨rfl, rfl⟩)]
    rfl
  · have noZero : (char '0').Declines (whole ++ rest) := by
      refine char_declines ?_
      obtain ⟨nonempty, -⟩ := digits
      intro c mem
      rw [List.head?_append_of_ne_nil _ nonempty] at mem
      rintro rfl
      exact leading mem
    rw [(Declines.bind noZero).orElse_eq]
    exact run_eq_ok.mpr ⟨digits.1, rfl, digits.2, ends⟩

/-- The numeral of a text, from what the parts behind its integer are read as. -/
theorem numeral_of_parts {negative : Bool} {whole after : List Char}
    {places : Option (List Char)} {power : Option Int} (digits : Digits whole)
    (leading : NoLeadingZero whole) (ends : Ahead (Char.isDigit · = false) after)
    (places_ : fractionDigits.optional after = .ok (places, mid))
    (power_ : exponent.optional mid = .ok (power, rest)) :
    numeral (signText negative ++ whole ++ after)
      = .ok ({ negative, whole, places, power }, rest) := by
  have noBlank : Ahead (isBlank · = false) (signText negative ++ whole ++ after) := by
    cases negative with
    | true => exact ahead_cons.mpr rfl
    | false =>
      obtain ⟨c, tail, start, digit⟩ := digits.start after
      show Ahead _ (whole ++ after)
      rw [start, ahead_cons]
      exact isBlank_eq_false_of_isDigit digit
  obtain ⟨sign, isNegative, sign_⟩ := @Grammar.sign_of_digits after negative _ digits
  unfold numeral token
  rw [skipBlanks_eq_self noBlank, bind_of_ok sign_,
    bind_of_ok (wholeDigits_of digits leading ends), bind_of_ok places_, bind_of_ok power_,
    isNegative]
  rfl

theorem noFraction (h : Ahead (· ≠ '.') rest) : fractionDigits.optional rest = .ok (none, rest) :=
  Declines.optional (Declines.bind (char_declines h))

theorem noExponent (h : Ahead (fun c => c ≠ 'e' ∧ c ≠ 'E') rest) :
    exponent.optional rest = .ok (none, rest) := by
  refine Declines.optional (Declines.bind (satisfying_declines (h.imp fun c hc => ?_)))
  simp [hc.1, hc.2]

theorem fraction_of {places : List Char} (digits : Digits places)
    (ends : Ahead (Char.isDigit · = false) rest) :
    fractionDigits.optional ('.' :: (places ++ rest)) = .ok (some places, rest) := by
  refine optional_of_ok ?_
  unfold fractionDigits
  rw [bind_of_ok (char_eq_ok.mpr ⟨rfl, rfl⟩)]
  exact run_eq_ok.mpr ⟨digits.1, rfl, digits.2, ends⟩

/-- Digits behind the first one are read with a point in front of them, and where there are none
there is no point. -/
theorem fraction_of_others {others : List Char} (digits : ∀ c ∈ others, c.isDigit = true)
    (next : Ahead (fun c => c.isDigit = false ∧ c ≠ '.') rest) :
    fractionDigits.optional ((if others.isEmpty then [] else '.' :: others) ++ rest)
        = .ok (if others.isEmpty then none else some others, rest) ∧
      Ahead (Char.isDigit · = false) ((if others.isEmpty then [] else '.' :: others) ++ rest) := by
  cases others with
  | nil => exact ⟨noFraction (next.imp fun _ hc => hc.2), next.imp fun _ hc => hc.1⟩
  | cons c others =>
    exact ⟨fraction_of ⟨List.cons_ne_nil _ _, digits⟩ (next.imp fun _ hc => hc.1),
      ahead_cons.mpr rfl⟩

/-- An exponent shows its sign also where it is positive. -/
theorem exponent_of (power : Int) (ends : Ahead (Char.isDigit · = false) rest) :
    exponent.optional ('e' :: (if 0 ≤ power then ['+'] else []) ++ signedDigits power ++ rest)
      = .ok (some power, rest) := by
  refine optional_of_ok ?_
  unfold exponent
  have digits : ∀ n, run Char.isDigit (Text.digits n ++ rest) = .ok (Text.digits n, rest) :=
    fun n => run_eq_ok.mpr ⟨digits_ne_nil n, rfl, fun _ => isDigit_of_mem_digits, ends⟩
  have mark : ∀ {c : Char}, (c = '+' || c = '-') = true → ∀ tail : List Char,
      (satisfying fun c => c = '+' || c = '-').optional (c :: tail) = .ok (some c, tail) :=
    fun known _ => optional_of_ok (satisfying_eq_ok.mpr ⟨rfl, known⟩)
  cases power with
  | ofNat n =>
    have written : 'e' :: (if (0 : Int) ≤ .ofNat n then ['+'] else []) ++ signedDigits (.ofNat n)
        ++ rest = 'e' :: '+' :: (Text.digits n ++ rest) := by
      rw [if_pos (show (0 : Int) ≤ .ofNat n from Int.natCast_nonneg n)]
      rfl
    rw [written, bind_of_ok (satisfying_eq_ok.mpr ⟨rfl, rfl⟩), bind_of_ok (mark rfl _),
      bind_of_ok (digits n), numberOf_digits]
    rfl
  | negSucc n =>
    have written : 'e' :: (if (0 : Int) ≤ .negSucc n then ['+'] else [])
        ++ signedDigits (.negSucc n) ++ rest = 'e' :: '-' :: (Text.digits (n + 1) ++ rest) := by
      rw [if_neg (Int.not_le.mpr (Int.negSucc_lt_zero n))]
      rfl
    rw [written, bind_of_ok (satisfying_eq_ok.mpr ⟨rfl, rfl⟩), bind_of_ok (mark rfl _),
      bind_of_ok (digits (n + 1)), numberOf_digits]
    rfl

/-! ### Integers -/

/-- The numeral that is written for an integer. -/
theorem numeral_signedDigits (i : Int) (ends : Ends rest) :
    numeral (signedDigits i ++ rest)
      = .ok (⟨decide (i < 0), Text.digits i.natAbs, none, none⟩, rest) := by
  have next := ends.noNumber
  have read : ∀ (negative : Bool) (n : Nat),
      numeral (signText negative ++ Text.digits n ++ rest)
        = .ok (⟨negative, Text.digits n, none, none⟩, rest) := fun negative n =>
    numeral_of_parts (digits_digits n) (noLeadingZero_digits n) (next.imp fun _ hc => hc.1)
      (noFraction (next.imp fun _ hc => hc.2.1)) (noExponent (next.imp fun _ hc => hc.2.2))
  cases i with
  | ofNat n => exact read false n
  | negSucc n =>
    rw [decide_eq_true (Int.negSucc_lt_zero n)]
    exact read true (n + 1)

/-- What is read as an integer is in range. -/
theorem isInRange_of_int64? {n : Numeral} {i : Int64} (h : n.int64? = some i) :
    n.isInRange = true := by
  rw [Numeral.isInRange, h]
  rfl

/-- The numeral that is written for a 64-bit integer stands for it. -/
theorem int64_recovers (i : Int64) :
    ∃ n : Numeral, (∀ {rest}, Ends rest → numeral (signedDigits i.toInt ++ rest) = .ok (n, rest)) ∧
      n.int64? = some i ∧ n.isInRange = true := by
  have least := Int64.le_toInt i
  have most := Int64.toInt_lt i
  have whole : Numeral.int64? ⟨decide (i.toInt < 0), Text.digits i.toInt.natAbs, none, none⟩
      = some i := by
    unfold Numeral.int64?
    simp only [Numeral.isInteger, Option.isNone_none, Bool.and_self, Bool.not_true,
      Bool.false_eq_true, if_false, decide_eq_true_eq, numberOf_digits]
    by_cases negative : i.toInt < 0
    · have amount : -(i.toInt.natAbs : Int) = i.toInt := by omega
      have fits : (0 < i.toInt.natAbs && i.toInt.natAbs ≤ 0x8000000000000000) = true := by
        simp only [Bool.and_eq_true, decide_eq_true_eq]
        omega
      rw [if_pos negative, if_pos fits, amount, Int64.ofInt_toInt]
    · have amount : (i.toInt.natAbs : Int) = i.toInt := by omega
      rw [if_neg negative, if_pos (by omega), ← Int64.ofInt_eq_ofNat, amount, Int64.ofInt_toInt]
  exact ⟨_, numeral_signedDigits i.toInt, whole, isInRange_of_int64? whole⟩

/-- The numeral that is written for a 32-bit integer stands for it. -/
theorem int32_recovers (i : Int32) :
    ∃ n : Numeral, (∀ {rest}, Ends rest → numeral (signedDigits i.toInt ++ rest) = .ok (n, rest)) ∧
      n.int32? = some i ∧ n.isInRange = true := by
  have least := Int32.le_toInt i
  have most := Int32.toInt_lt i
  have wide : (Int64.ofInt i.toInt).toInt = i.toInt :=
    Int64.toInt_ofInt_of_le (by omega) (by omega)
  obtain ⟨n, read, whole, inRange⟩ := int64_recovers (.ofInt i.toInt)
  rw [wide] at read
  refine ⟨n, read, ?_, inRange⟩
  unfold Numeral.int32?
  rw [whole]
  show (if _ then some (Int32.ofInt (Int64.ofInt i.toInt).toInt) else none) = _
  rw [wide, if_pos ⟨by omega, by omega⟩, Int32.ofInt_toInt]

end Json.Document

end ForumModeration
