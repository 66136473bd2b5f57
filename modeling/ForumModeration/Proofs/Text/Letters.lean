import Mathlib
import ForumModeration.Text.Classes

/-!
# `ForumModeration.Proofs.Text.Letters`: character classes and letter case

Tokens are compared in lower case (`lower`). The character classes that the
grammar asks for do not depend on the case of a letter, so a question about the
characters of a text can be answered from the characters of the token it spells:

* `isIdent_toLower`, `isDigit_toLower`, `isBlank_toLower`: the three classes.
* `toLower_eq_iff`: a character that is no letter is spelled one way only.

Everything rests on the code points: `toLower_cases` says what `Char.toLower` does
to them.
-/

set_option autoImplicit false

namespace ForumModeration.Text

/-- A text in lower case. -/
def lower (text : List Char) : List Char :=
  text.map Char.toLower

@[simp] theorem lower_nil : lower [] = [] := rfl

@[simp] theorem lower_cons (c : Char) (text : List Char) :
    lower (c :: text) = c.toLower :: lower text := rfl

@[simp] theorem lower_append (a b : List Char) : lower (a ++ b) = lower a ++ lower b :=
  List.map_append

@[simp] theorem length_lower (text : List Char) : (lower text).length = text.length :=
  List.length_map ..

/-- The lower case of a character: the character itself, or 32 further on. -/
theorem toLower_cases (c : Char) :
    (c.toLower = c ∧ ¬(0x41 ≤ c.toNat ∧ c.toNat ≤ 0x5A)) ∨
      (0x41 ≤ c.toNat ∧ c.toNat ≤ 0x5A ∧ c.toLower.toNat = c.toNat + 32) := by
  unfold Char.toLower
  split
  · rename_i h
    right
    have low : 0x41 ≤ c.toNat := UInt32.le_iff_toNat_le.mp h.1
    have high : c.toNat ≤ 0x5A := UInt32.le_iff_toNat_le.mp h.2
    refine ⟨low, high, ?_⟩
    show (c.val + 32).toNat = c.val.toNat + 32
    have bound : c.val.toNat ≤ 0x5A := high
    rw [UInt32.toNat_add]
    show (c.val.toNat + 32) % 4294967296 = _
    omega
  · rename_i h
    left
    refine ⟨rfl, ?_⟩
    rintro ⟨low, high⟩
    exact h ⟨UInt32.le_iff_toNat_le.mpr low, UInt32.le_iff_toNat_le.mpr high⟩

/-- The code points of the digits. -/
theorem isDigit_iff (c : Char) : c.isDigit = true ↔ 0x30 ≤ c.toNat ∧ c.toNat ≤ 0x39 := by
  show (decide (c.val ≥ '0'.val) && decide (c.val ≤ '9'.val)) = true ↔ _
  rw [Bool.and_eq_true, decide_eq_true_eq, decide_eq_true_eq]
  exact Iff.and UInt32.le_iff_toNat_le UInt32.le_iff_toNat_le

/-- The code points of the identifier characters. -/
theorem isIdent_iff (c : Char) :
    isIdent c = true ↔ (0x30 ≤ c.toNat ∧ c.toNat ≤ 0x39) ∨ (0x41 ≤ c.toNat ∧ c.toNat ≤ 0x5A) ∨
      (0x61 ≤ c.toNat ∧ c.toNat ≤ 0x7A) ∨ c.toNat = 0x5F := by
  have underscore : c = '_' ↔ c.toNat = 0x5F := by
    constructor
    · rintro rfl
      rfl
    · intro h
      exact Char.toNat_inj.mp h
  -- The classes of characters are ranges of code points.
  unfold isIdent
  rw [Bool.or_eq_true, decide_eq_true_eq, underscore]
  constructor
  · rintro (h | h)
    · have := toNat_of_isAlphanum h
      omega
    · omega
  · intro h
    by_cases h5F : c.toNat = 0x5F
    · exact .inr h5F
    · left
      show (decide (c.val ≥ 'A'.val ∧ c.val ≤ 'Z'.val) ||
        (decide (c.val ≥ 'a'.val) && decide (c.val ≤ 'z'.val)) ||
        (decide (c.val ≥ '0'.val) && decide (c.val ≤ '9'.val))) = true
      simp only [Bool.or_eq_true, Bool.and_eq_true, decide_eq_true_eq, ge_iff_le,
        UInt32.le_iff_toNat_le]
      show ((0x41 ≤ c.toNat ∧ c.toNat ≤ 0x5A) ∨ (0x61 ≤ c.toNat ∧ c.toNat ≤ 0x7A)) ∨
        (0x30 ≤ c.toNat ∧ c.toNat ≤ 0x39)
      omega

/-- White space is outside the letters, so it has no case. -/
theorem not_upper_of_isBlank {c : Char} (h : isBlank c = true) :
    ¬(0x41 ≤ c.toNat ∧ c.toNat ≤ 0x7A) := by
  simp only [isBlank, Bool.or_eq_true, Bool.and_eq_true, decide_eq_true_eq] at h
  omega

@[simp] theorem isDigit_toLower (c : Char) : c.toLower.isDigit = c.isDigit := by
  rcases toLower_cases c with h | h
  · rw [h.1]
  · rw [Bool.eq_iff_iff, isDigit_iff, isDigit_iff]
    omega

@[simp] theorem isIdent_toLower (c : Char) : isIdent c.toLower = isIdent c := by
  rcases toLower_cases c with h | h
  · rw [h.1]
  · rw [Bool.eq_iff_iff, isIdent_iff, isIdent_iff]
    omega

@[simp] theorem isBlank_toLower (c : Char) : isBlank c.toLower = isBlank c := by
  rcases toLower_cases c with h | h
  · rw [h.1]
  · have h1 : isBlank c = false := by
      by_contra blank
      have := not_upper_of_isBlank (by simpa using blank)
      omega
    have h2 : isBlank c.toLower = false := by
      by_contra blank
      have := not_upper_of_isBlank (by simpa using blank)
      omega
    rw [h1, h2]

/-- A character that is no letter is the lower case of itself only. -/
theorem toLower_eq_iff {c d : Char} (h : ¬(0x61 ≤ d.toNat ∧ d.toNat ≤ 0x7A)) :
    c.toLower = d ↔ c = d ∧ ¬(0x41 ≤ d.toNat ∧ d.toNat ≤ 0x5A) := by
  rcases toLower_cases c with hc | hc
  · rw [hc.1]
    constructor
    · rintro rfl
      exact ⟨rfl, hc.2⟩
    · rintro ⟨rfl, _⟩
      rfl
  · constructor
    · rintro rfl
      omega
    · rintro ⟨rfl, upper⟩
      omega

/-- No digit is an upper-case letter, so digits keep their place in lower case. -/
theorem isIdent_of_isDigit {c : Char} (h : c.isDigit = true) : isIdent c = true := by
  rw [isDigit_iff] at h
  rw [isIdent_iff]
  omega

theorem isDigit_eq_false_of_isIdent {c : Char} (h : isIdent c = false) : c.isDigit = false := by
  by_contra digit
  rw [isIdent_of_isDigit (by simpa using digit)] at h
  cases h

theorem isIdent_eq_false_of_isBlank {c : Char} (h : isBlank c = true) : isIdent c = false := by
  by_contra ident
  rw [isBlank_eq_false_of_isIdent (by simpa using ident)] at h
  cases h

theorem isBlank_eq_false_of_isDigit {c : Char} (h : c.isDigit = true) : isBlank c = false :=
  isBlank_eq_false_of_isIdent (isIdent_of_isDigit h)

/-- A space is blank. -/
theorem isBlank_of_mem_space : ∀ c ∈ [' '], isBlank c = true := by
  intro c mem
  rw [List.mem_singleton.mp mem]
  decide

/-- A text that spells another one ends in the same letter, perhaps in the other case. -/
theorem exists_getLast?_of_lower {text text' : List Char} (same : lower text = lower text')
    {c : Char} (last : text'.getLast? = some c) :
    ∃ d, text.getLast? = some d ∧ d.toLower = c.toLower := by
  have lasts := congrArg List.getLast? same
  rw [lower, lower, List.getLast?_map, List.getLast?_map, last, Option.map_some,
    Option.map_eq_some_iff] at lasts
  exact lasts

/-! ### Blanks in front of a text -/

theorem skipBlanks_eq_of_not_blank {c : Char} {text : List Char} (h : isBlank c = false) :
    skipBlanks (c :: text) = c :: text := by
  simp [skipBlanks, h]

theorem skipBlanks_cons_of_blank {c : Char} {text : List Char} (h : isBlank c = true) :
    skipBlanks (c :: text) = skipBlanks text := by
  simp [skipBlanks, h]

theorem skipBlanks_append_of_blank {blanks text : List Char} (h : ∀ c ∈ blanks, isBlank c = true) :
    skipBlanks (blanks ++ text) = skipBlanks text := by
  induction blanks with
  | nil => rfl
  | cons c blanks ih =>
    rw [List.cons_append, skipBlanks_cons_of_blank (h c (by simp)),
      ih fun d hd => h d (by simp [hd])]

@[simp] theorem skipBlanks_skipBlanks (text : List Char) :
    skipBlanks (skipBlanks text) = skipBlanks text :=
  List.dropWhile_idempotent (p := isBlank) text

/-- The blanks that are skipped. -/
theorem exists_blanks (text : List Char) :
    ∃ blanks, text = blanks ++ skipBlanks text ∧ ∀ c ∈ blanks, isBlank c = true :=
  ⟨text.takeWhile isBlank, List.takeWhile_append_dropWhile.symm,
    fun _ hc => List.mem_takeWhile_imp hc⟩

end ForumModeration.Text
