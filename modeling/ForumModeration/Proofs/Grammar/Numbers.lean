import ForumModeration.Grammar.Literal
import ForumModeration.Proofs.Binary64.Rounding
import ForumModeration.Proofs.Grammar.Tokens

/-!
# `ForumModeration.Proofs.Grammar.Numbers`: numbers and their texts

`NumberText` lists the texts of numbers: digits with a sign in front, an integer of
64 bits or, with a point and more digits, the nearest floating-point number.

* `numberText_of_number`: the reader accepts such texts only.
* `number_of_numberText`: it accepts all of them, if what follows is no identifier
  character and no point.
* `number_declines`: it declines everything that starts with neither a digit nor a
  sign.
* `numberText_int`, `numberText_float`: what is written for an integer, and for a
  finite floating-point number, is a text of that number. The decimal that is written
  is the nearest one (`Binary64.nearestDecimalBits_shortest`), and its value does not
  depend on where the point stands (`positional_value`).
-/

set_option autoImplicit false

namespace ForumModeration

open Text

/-- The sign in front of a negative number. -/
def signText (negative : Bool) : List Char :=
  if negative then ['-'] else []

/-- The texts of numbers. -/
inductive NumberText : List Char → Value → Prop where
  /-- An integer that fits 64 bits. -/
  | int {negative : Bool} {whole : List Char} {n : Int} (digits : Digits whole)
      (amount : n = if negative then -(numberOf whole : Int) else numberOf whole)
      (inRange : -0x8000000000000000 ≤ n ∧ n < 0x8000000000000000) :
      NumberText (signText negative ++ whole) (.int (.ofInt n))
  /-- Digits on either side of a point. -/
  | float {negative : Bool} {whole places : List Char} (digits : Digits whole)
      (more : Digits places) :
      NumberText (signText negative ++ whole ++ '.' :: places)
        (.float (.nearest negative ⟨numberOf (whole ++ places), -(places.length : Int)⟩))

/-- A number starts with a digit or a sign. -/
theorem NumberText.start {written : List Char} {value : Value} (h : NumberText written value) :
    ∃ c tail, written = c :: tail ∧ startsNoToken c = true := by
  have first : ∀ {negative : Bool} {whole tail : List Char}, Digits whole →
      ∃ c more, signText negative ++ whole ++ tail = c :: more ∧ startsNoToken c = true := by
    intro negative whole tail digits
    cases negative with
    | true => exact ⟨'-', whole ++ tail, rfl, by decide⟩
    | false =>
      obtain ⟨c, more, start, digit⟩ := digits.start tail
      exact ⟨c, more, start, startsNoToken_of_isDigit digit⟩
  cases h with
  | @int negative whole _ digits _ _ =>
    have start := @first negative _ [] digits
    rwa [List.append_nil] at start
  | float digits _ => exact first digits

namespace Grammar

open ForumModeration.Parser

variable {text rest written : List Char} {value : Value}

/-! ### Reading -/

private theorem sign_eq_ok {sign : Option Char}
    (h : optional (char '-') text = .ok (sign, rest)) : text = signText sign.isSome ++ rest := by
  rcases optional_eq_ok.mp h with ⟨c, rfl, read⟩ | ⟨rfl, rfl, _⟩
  · exact (char_eq_ok.mp read).1
  · rfl

/-- What the reader of numbers reads is the text of a number, and no identifier
character follows. -/
theorem numberText_of_number (h : number text = .ok (value, rest)) :
    ∃ written, text = written ++ rest ∧ NumberText written value ∧
      Ahead (isIdent · = false) rest := by
  unfold number at h
  obtain ⟨sign, t1, hsign, h1⟩ := bind_eq_ok.mp h
  obtain ⟨whole, t2, hwhole, h2⟩ := bind_eq_ok.mp h1
  obtain ⟨places, t3, hplaces, h3⟩ := bind_eq_ok.mp h2
  obtain ⟨_, t4, hnext, h4⟩ := bind_eq_ok.mp h3
  obtain ⟨nonempty, hw, digits, _⟩ := run_eq_ok.mp hwhole
  obtain ⟨rfl, boundary⟩ := notBefore_eq_ok.mp hnext
  have hs := sign_eq_ok hsign
  subst hs hw
  rcases optional_eq_ok.mp hplaces with ⟨p, rfl, read⟩ | ⟨rfl, rfl, _⟩
  · obtain ⟨_, t5, hpoint, hp⟩ := bind_eq_ok.mp read
    obtain ⟨rfl, _⟩ := char_eq_ok.mp hpoint
    obtain ⟨nonempty', rfl, digits', _⟩ := run_eq_ok.mp hp
    obtain ⟨rfl, rfl⟩ := pure_eq_ok.mp h4
    refine ⟨signText sign.isSome ++ whole ++ '.' :: p, ?_, ?_, boundary⟩
    · simp only [List.append_assoc, List.cons_append]
    · exact .float ⟨nonempty, digits⟩ ⟨nonempty', digits'⟩
  · simp only at h4
    generalize amount : (if sign.isSome = true then -(numberOf whole : Int) else numberOf whole) = n
      at h4
    by_cases inRange : -0x8000000000000000 ≤ n ∧ n < 0x8000000000000000
    · rw [if_pos inRange] at h4
      obtain ⟨rfl, rfl⟩ := pure_eq_ok.mp h4
      exact ⟨signText sign.isSome ++ whole, by rw [List.append_assoc],
        .int ⟨nonempty, digits⟩ amount.symm inRange, boundary⟩
    · rw [if_neg inRange] at h4
      cases h4

/-- The sign is read, and where there is none the digits follow. -/
theorem sign_of_digits {negative : Bool} {whole : List Char} (digits : Digits whole) :
    ∃ sign : Option Char, sign.isSome = negative ∧
      optional (char '-') (signText negative ++ whole ++ rest) = .ok (sign, whole ++ rest) := by
  cases negative with
  | true => exact ⟨some '-', rfl, optional_of_ok (char_eq_ok.mpr ⟨rfl, rfl⟩)⟩
  | false =>
    refine ⟨none, rfl, Declines.optional (char_declines ?_)⟩
    obtain ⟨nonempty, all⟩ := digits
    cases whole with
    | nil => exact absurd rfl nonempty
    | cons c whole =>
      show Ahead _ (c :: (whole ++ rest))
      rw [ahead_cons]
      rintro rfl
      have := all '-' (by simp)
      revert this
      decide

/-- The text of a number is read, if nothing follows that would go on with it. -/
theorem number_of_numberText (h : NumberText written value)
    (ends : Ahead (fun c => isIdent c = false ∧ c ≠ '.') rest) :
    number (written ++ rest) = .ok (value, rest) := by
  have noIdent : Ahead (isIdent · = false) rest := ends.imp fun _ hc => hc.1
  have noDigit : Ahead (Char.isDigit · = false) rest :=
    noIdent.imp fun _ => isDigit_eq_false_of_isIdent
  unfold number
  cases h with
  | @int negative whole n digits amount inRange =>
    obtain ⟨sign, hneg, hsign⟩ := @sign_of_digits rest negative _ digits
    rw [bind_of_ok hsign, bind_of_ok (run_eq_ok.mpr ⟨digits.1, rfl, digits.2, noDigit⟩)]
    have noPlaces : (char '.' >>= fun _ => run Char.isDigit).Declines rest :=
      Declines.bind (char_declines (ends.imp fun _ hc => hc.2))
    rw [bind_of_ok noPlaces.optional, bind_of_ok (notBefore_eq_ok.mpr ⟨rfl, noIdent⟩)]
    simp only [hneg, ← amount, inRange, and_self, if_true]
    rfl
  | @float negative whole places digits more =>
    obtain ⟨sign, hneg, hsign⟩ :=
      @sign_of_digits ('.' :: places ++ rest) negative _ digits
    rw [List.append_assoc, bind_of_ok hsign]
    have point : Ahead (Char.isDigit · = false) ('.' :: places ++ rest) := by
      rw [List.cons_append, ahead_cons]
      decide
    have hplaces : (char '.' >>= fun _ => run Char.isDigit) ('.' :: places ++ rest)
        = .ok (places, rest) := by
      rw [List.cons_append, bind_of_ok (char_eq_ok.mpr ⟨rfl, rfl⟩)]
      exact run_eq_ok.mpr ⟨more.1, rfl, more.2, noDigit⟩
    rw [bind_of_ok (run_eq_ok.mpr ⟨digits.1, rfl, digits.2, point⟩),
      bind_of_ok (optional_of_ok hplaces), bind_of_ok (notBefore_eq_ok.mpr ⟨rfl, noIdent⟩), hneg]
    rfl

/-- A number starts with a digit or a sign. -/
theorem number_declines (h : Ahead (fun c => c.isDigit = false ∧ c ≠ '-') text) :
    number.Declines text := by
  unfold number
  have noSign := char_declines (c := '-') (h.imp fun _ hc => hc.2)
  exact Declines.after noSign.optional (Declines.bind (run_declines (h.imp fun _ hc => hc.1)))

end Grammar

/-! ### Writing integers -/

/-- An integer of 64 bits is written as a text of it. -/
theorem numberText_int (n : Int64) : NumberText (signedDigits n.toInt) (.int n) := by
  have inRange : -0x8000000000000000 ≤ n.toInt ∧ n.toInt < 0x8000000000000000 :=
    ⟨Int64.le_toInt n, Int64.toInt_lt n⟩
  have same : Int64.ofInt n.toInt = n := Int64.ofInt_toInt n
  generalize hi : n.toInt = i at *
  rw [← same]
  -- The sign is written apart from the amount.
  cases i with
  | ofNat k =>
    have amount : (numberOf (digits k) : Int) = k := by rw [numberOf_digits]
    exact @NumberText.int false _ _ (digits_digits k) amount.symm inRange
  | negSucc k =>
    have amount : -(numberOf (digits (k + 1)) : Int) = Int.negSucc k := by
      rw [numberOf_digits]
      rfl
    exact @NumberText.int true _ _ (digits_digits (k + 1)) amount.symm inRange

/-! ### Writing floating-point numbers -/

namespace Binary64

/-- A number is made of its sign and its magnitude. -/
theorem ofMagnitudeBits_magnitudeBits (x : Binary64) :
    ofMagnitudeBits x.isNegative x.magnitudeBits = x := by
  obtain ⟨bits⟩ := x
  have bound := bits.toNat_lt
  simp only [ofMagnitudeBits, isNegative, magnitudeBits, decide_eq_true_eq, mk.injEq]
  by_cases negative : 0x8000000000000000 ≤ bits.toNat
  · rw [if_pos negative,
      show 0x8000000000000000 + bits.toNat % 0x8000000000000000 = bits.toNat by omega,
      UInt64.ofNat_toNat]
  · rw [if_neg negative, Nat.mod_eq_of_lt (by omega), UInt64.ofNat_toNat]

/-- A decimal with the nearest number's bits is read as that number. -/
theorem nearest_eq {x : Binary64} {d : Decimal} (h : nearestDecimalBits d = x.magnitudeBits) :
    nearest x.isNegative d = x := by
  rw [nearest, h, ofMagnitudeBits_magnitudeBits]

end Binary64

namespace Decimal

/-- Zeros behind the digits and one zero as the only place. -/
private theorem value_append_zeros {d : Decimal} {k : Nat} (h : d.exponent = k) :
    (⟨numberOf (Text.digits d.digits ++ List.replicate k '0' ++ ['0']), -1⟩ : Decimal).value
      = d.value := by
  have written : Text.digits d.digits ++ List.replicate k '0' ++ ['0']
      = Text.digits d.digits ++ List.replicate (k + 1) '0' := by
    rw [List.append_assoc, List.replicate_succ']
  rw [written, numberOf_append_zeros, numberOf_digits, value, value, h]
  simp only [zpow_natCast]
  push_cast
  rw [pow_succ, zpow_neg, zpow_one]
  field_simp

/-- Zeros in front of the digits change nothing. -/
private theorem value_zeros_append {d : Decimal} {k : Nat} (h : d.exponent = -(k : Int))
    (n : Nat) :
    (⟨numberOf ('0' :: (List.replicate n '0' ++ Text.digits d.digits)), -(k : Int)⟩ :
      Decimal).value = d.value := by
  have written : '0' :: (List.replicate n '0' ++ Text.digits d.digits)
      = List.replicate (n + 1) '0' ++ Text.digits d.digits := by
    rw [List.replicate_succ]
    rfl
  rw [written, numberOf_zeros_append, numberOf_digits, value, value, h]

/-- Positional notation is digits, a point and digits, and has the decimal's value. -/
theorem positional_value (d : Decimal) :
    ∃ whole places, d.positional = whole ++ '.' :: places ∧ Digits whole ∧ Digits places ∧
      (d.digits ≠ 0 → NoLeadingZero whole) ∧
      (⟨numberOf (whole ++ places), -(places.length : Int)⟩ : Decimal).value = d.value := by
  have first : d.digits ≠ 0 → (Text.digits d.digits).head? ≠ some '0' := head?_digits
  have nonempty := Text.digits_ne_nil d.digits
  have all : ∀ c ∈ Text.digits d.digits, c.isDigit = true := fun _ => isDigit_of_mem_digits
  have zeros : ∀ n, ∀ c ∈ List.replicate n '0', c.isDigit = true :=
    fun _ _ => isDigit_of_mem_zeros
  unfold positional
  simp only
  split
  · rename_i h
    -- No places are needed; one zero is written.
    obtain ⟨k, hk⟩ := Int.eq_ofNat_of_zero_le h
    have hk' : d.exponent.toNat = k := by omega
    refine ⟨Text.digits d.digits ++ List.replicate k '0', ['0'], by rw [hk'],
      ⟨by simp [Text.digits_ne_nil], isDigit_of_mem_append all (zeros k)⟩, digits_zero, ?_, ?_⟩
    · intro positive
      refine .inr ?_
      rw [List.head?_append_of_ne_nil _ nonempty]
      exact first positive
    · exact value_append_zeros hk
  rename_i h
  obtain ⟨k, hk⟩ := Int.eq_ofNat_of_zero_le (show 0 ≤ -d.exponent by omega)
  have hk' : (-d.exponent).toNat = k := by omega
  have he : d.exponent = -(k : Int) := by omega
  have positive : 0 < k := by omega
  rw [hk']
  split
  · rename_i short
    -- The point stands within the digits.
    refine ⟨(Text.digits d.digits).take ((Text.digits d.digits).length - k),
      (Text.digits d.digits).drop ((Text.digits d.digits).length - k), rfl, ⟨?_, ?_⟩, ⟨?_, ?_⟩,
      ?_, ?_⟩
    · have : (Text.digits d.digits).length - k ≠ 0 := by omega
      simp [this, Text.digits_ne_nil]
    · exact fun c hc => all c (List.mem_of_mem_take hc)
    · simp only [ne_eq, List.drop_eq_nil_iff]
      omega
    · exact fun c hc => all c (List.mem_of_mem_drop hc)
    · intro positive
      refine .inr ?_
      rw [List.head?_take, if_neg (by omega)]
      exact first positive
    · rw [List.take_append_drop, numberOf_digits, value, value, he, List.length_drop,
        Nat.sub_sub_self (by omega)]
  · rename_i long
    -- All digits are places, with zeros in front of them.
    refine ⟨['0'], List.replicate (k - (Text.digits d.digits).length) '0' ++ Text.digits d.digits,
      by simp, digits_zero,
      ⟨by simp [Text.digits_ne_nil], isDigit_of_mem_append (zeros _) all⟩, fun _ => .inl rfl, ?_⟩
    rw [List.length_append, List.length_replicate, Nat.sub_add_cancel (by omega)]
    exact value_zeros_append he _

end Decimal

/-- The text of a finite number is its sign and the text of its magnitude. -/
theorem NumberStyle.write_eq (style : NumberStyle) {x : Binary64} (finite : x.isFinite = true) :
    style.write x = signText x.isNegative ++ style.magnitude x := by
  rw [write, Binary64.isNaN_eq_false_of_isFinite finite]
  cases x.isNegative <;> rfl

/-- A finite number is written as a text of it. -/
theorem numberText_float {x : Binary64} (h : x.isFinite = true) :
    NumberText (NumberStyle.ruleText.write x) (.float x) := by
  obtain ⟨whole, places, magnitude, digits, more, nearest⟩ :
      ∃ whole places, NumberStyle.ruleText.magnitude x = whole ++ '.' :: places ∧ Digits whole ∧
        Digits places ∧ Binary64.nearestDecimalBits
          ⟨numberOf (whole ++ places), -(places.length : Int)⟩ = x.magnitudeBits := by
    -- Zero has no shortest decimal and is written by itself.
    by_cases zero : x.isZero = true
    · refine ⟨['0'], ['0'], ?_, digits_zero, digits_zero, ?_⟩
      · rw [NumberStyle.magnitude, if_pos zero]
        rfl
      · rw [of_decide_eq_true zero]
        rfl
    · obtain ⟨whole, places, written, digits, more, -, value⟩ :=
        (x.shortest .up).positional_value
      refine ⟨whole, places, ?_, digits, more, ?_⟩
      · rw [NumberStyle.magnitude, if_neg zero, if_pos h]
        exact written
      · rw [Binary64.nearestDecimalBits_congr value, Binary64.nearestDecimalBits_shortest h]
  have text : NumberStyle.ruleText.write x
      = signText x.isNegative ++ whole ++ '.' :: places := by
    rw [NumberStyle.write_eq _ h, magnitude, List.append_assoc]
  have same := @NumberText.float x.isNegative _ _ digits more
  rw [Binary64.nearest_eq nearest, ← text] at same
  exact same

end ForumModeration
