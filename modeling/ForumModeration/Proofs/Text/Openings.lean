import ForumModeration.Proofs.Text.CodePoints
import ForumModeration.Text.DisplayWidth

/-!
# `ForumModeration.Proofs.Text.Openings`: what a text is wide at least

Some characters add no column, and some take one back from the text behind them. They only do
so in front of text that opens with something wide enough, so no text is narrower than what it
opens with asks for (`least_measure`). In particular no width is negative, and `displayWidth`
cuts nothing off (`displayWidth_eq_measure`).

What a text opens with is found among the ranges of `openers` and `pictures`. The columns that a
character takes are settled by comparing these with the tables of widths.
-/

set_option autoImplicit false

namespace ForumModeration.Text

namespace DisplayWidth

variable {c : Char} {next : Following} {w : Int}

/-- The least width of a text that opens this way. -/
def Opening.least : Opening → Int
  | plain => 0
  | skinTone | regionals | emoji | joinedEmoji | joinedKeycap | joinedRegionalPair
  | joinedTagLetters _ | joinedTagDigits _ | tifinaghJoined => 2
  | joinedRegional | joinedRegionalOdd => 3
  | _ => 1

theorem Opening.least_nonneg (o : Opening) : 0 ≤ o.least := by
  cases o <;> simp [Opening.least]

/-! ### What characters take and open -/

/-- Letters and signs that text opens with in some way, pictures and line feeds apart. -/
def openers : CodePoints :=
  [(0x05DC, 0x05DC), (0x0622, 0x0623), (0x0625, 0x0625), (0x0627, 0x0627), (0x0671, 0x0673),
   (0x0675, 0x0675), (0x0773, 0x0774), (0x0870, 0x0882), (0x1780, 0x17A2), (0x17A7, 0x17AF),
   (0x1A10, 0x1A10), (0x2D31, 0x2D65), (0x2D6F, 0x2D6F), (0xA4FC, 0xA4FD), (0x10C03, 0x10C03),
   (0x16D67, 0x16D68), (0x1F1E6, 0x1F1FF)]

/-- Skin tones, and characters shown as a picture by default. -/
def pictures : CodePoints := (0x1F3FB, 0x1F3FF) :: emojiPresentation

theorem contains_pictures_iff :
    pictures.contains c = true ↔ isSkinTone c = true ∨ emojiPresentation.contains c = true := by
  unfold pictures CodePoints.contains isSkinTone between
  rw [List.any_cons, Bool.or_eq_true]

theorem openingOf_of_narrow (narrow : c.toNat ≤ 0xA0) :
    openingOf c = if c = '\n' then .lineFeed else .plain := by
  unfold openingOf
  dsimp only
  rw [if_pos narrow]

theorem openingOf_eq_plain (high : 0xA0 < c.toNat) (no : openers.contains c = false)
    (no' : pictures.contains c = false) : openingOf c = .plain := by
  have outside : ¬∃ range ∈ openers, range.1 ≤ c.toNat ∧ c.toNat ≤ range.2 := by
    rw [← CodePoints.contains_iff, no]
    exact Bool.false_ne_true
  simp only [openers, List.mem_cons, List.not_mem_nil, or_false, exists_eq_or_imp,
    exists_eq_left, not_or] at outside
  have letters : isAlef c = false ∧ isKhmerLetter c = false ∧ isTifinagh c = false ∧
      between c 0xA4FC 0xA4FD = false ∧ isRegional c = false := by
    refine ⟨?_, ?_, ?_, ?_, ?_⟩ <;>
      simp only [isAlef, isKhmerLetter, isTifinagh, isRegional, between, Bool.or_eq_false_iff,
        Bool.and_eq_false_iff, decide_eq_false_iff_not] <;>
      omega
  obtain ⟨alef, khmer, tifinagh, lisu, regional⟩ := letters
  rw [← Bool.not_eq_true, contains_pictures_iff, not_or] at no'
  unfold openingOf
  dsimp only
  rw [if_neg (by omega), alef, if_neg Bool.false_ne_true, if_neg (by omega), khmer,
    if_neg Bool.false_ne_true, if_neg (by omega), tifinagh, if_neg Bool.false_ne_true, lisu,
    if_neg Bool.false_ne_true, if_neg (by omega), if_neg (by omega), if_neg (by omega), regional,
    if_neg Bool.false_ne_true, if_neg no'.1, if_neg no'.2]

theorem columns_of_narrow (narrow : c.toNat ≤ 0xA0) : columns c = 1 :=
  if_pos narrow

theorem columns_pos (seen : zeroWidth.contains c = false) : 1 ≤ columns c := by
  unfold columns
  rw [seen, if_neg Bool.false_ne_true]
  split
  · exact Nat.le_refl 1
  · split
    · decide
    · split
      · decide
      · exact Nat.le_refl 1

theorem columns_of_wide (high : 0xA0 < c.toNat) (h : wide.contains c = true) : 2 ≤ columns c := by
  unfold columns
  rw [if_neg (by omega), if_pos h]
  split <;> decide

theorem columns_le_one (narrow : wide.contains c = false) (sign : c.toNat ≠ 0x17D8) :
    columns c ≤ 1 := by
  unfold columns
  rw [narrow, if_neg sign, if_neg Bool.false_ne_true]
  split
  · exact Nat.le_refl 1
  · split
    · exact Nat.zero_le 1
    · exact Nat.le_refl 1

/-- Pictures take two columns. -/
theorem wide_of_pictures (h : pictures.contains c = true) : wide.contains c = true :=
  CodePoints.contains_of_within (by decide) h

theorem columns_of_openers (h : openers.contains c = true) : columns c = 1 := by
  have seen : zeroWidth.contains c = false :=
    CodePoints.contains_eq_false_of_apart (by decide) (by decide)
      (by decide +kernel) h
  have narrow : wide.contains c = false :=
    CodePoints.contains_eq_false_of_apart (by decide) (by decide)
      (by decide) h
  have sign : c.toNat ≠ 0x17D8 := by
    intro sign
    have no : openers.contains (Char.ofNat 0x17D8) = false := by decide
    rw [← sign, Char.ofNat_toNat, h] at no
    cases no
  exact Nat.le_antisymm (columns_le_one narrow sign) (columns_pos seen)

/-- Only pictures open text with something wide. -/
private theorem least_openingOf_le {width : Int} (one : 1 ≤ width)
    (two : pictures.contains c = true → 2 ≤ width) : (openingOf c).least ≤ width := by
  have zero : (0 : Int) ≤ width := by omega
  rw [contains_pictures_iff] at two
  unfold openingOf
  dsimp only
  repeat'
    refine iteInduction (motive := fun o => Opening.least o ≤ width) (fun _ => ?_) fun _ => ?_
  all_goals first
    | exact zero
    | exact one
    | exact two (.inl ‹_›)
    | exact two (.inr ‹_›)

theorem least_openingOf (c : Char) : (openingOf c).least ≤ columns c := by
  by_cases narrow : c.toNat ≤ 0xA0
  · rw [columns_of_narrow narrow, openingOf_of_narrow narrow]
    split <;> decide
  · cases picture : pictures.contains c with
    | true =>
      have := columns_of_wide (by omega) (wide_of_pictures picture)
      exact least_openingOf_le (by omega) (by omega)
    | false =>
      cases opener : openers.contains c with
      | true =>
        rw [columns_of_openers opener]
        exact least_openingOf_le (by decide) fun h => absurd (picture.symm.trans h) nofun
      | false =>
        rw [openingOf_eq_plain (by omega) opener picture]
        exact Int.natCast_nonneg _

/-! ### Steps -/

/-- In front of text of a width, a step leaves text as wide as its opening asks for. -/
def Covered (w : Int) (read : Int × Following) : Prop :=
  read.2.opening.least ≤ w + read.1

/-- Behind a selector the same ligature or picture is seen, or nothing. -/
theorem Following.opening_behind (next : Following) :
    (next.behindPicture.opening = next.opening ∨ next.behindPicture.opening = .plain) ∧
      (next.behindLetter.opening = next.opening ∨ next.behindLetter.opening = .plain) ∧
      (next.behindFullWidth.opening = next.opening ∨ next.behindFullWidth.opening = .plain) ∧
      (next.withoutPicture.opening = next.opening ∨ next.withoutPicture.opening = .plain) := by
  unfold behindPicture behindLetter behindFullWidth withoutPicture
  refine ⟨?_, ?_, ?_, ?_⟩ <;> split <;> first | exact .inl rfl | exact .inr rfl

theorem covered_alone (c : Char) (positive : 0 ≤ w) : Covered w (alone c) := by
  have := least_openingOf c
  have nothing : Covered w (0, Following.nothing) := positive.trans_eq (add_zero w).symm
  unfold alone
  split_ifs
  · exact nothing
  · exact nothing
  · exact nothing
  · show (openingOf c).least ≤ w + columns c
    omega

theorem covered_combined {read : Int × Following} (h : next.opening.least ≤ w)
    (some_ : combined? c next = some read) : Covered w read := by
  unfold combined? at some_
  dsimp only at some_
  unfold Covered
  -- Each sign adds to the width at least what its opening asks for beyond the next one's.
  split at some_ <;> rename_i o <;> rw [o] at h <;> (try split_ifs at some_) <;> cases some_ <;>
    simp only [Opening.least, Following.nothing, Following.opens] at h ⊢ <;> omega

theorem covered_unselected (h : next.opening.least ≤ w) : Covered w (unselected c next) := by
  have positive := next.opening.least_nonneg.trans h
  unfold unselected
  split_ifs
  · exact h.trans_eq (add_zero w).symm
  · exact h.trans_eq (add_zero w).symm
  · exact covered_alone c positive
  · cases some_ : combined? c next with
    | none => exact covered_alone c positive
    | some read => exact covered_combined h some_

theorem covered_selected (h : next.opening.least ≤ w) : Covered w (selected c next) := by
  have positive := next.opening.least_nonneg.trans h
  have behind : ∀ {seen : Following}, seen.opening = next.opening ∨ seen.opening = .plain →
      Covered w (0, seen) := by
    intro seen same
    show seen.opening.least ≤ w + 0
    rw [add_zero]
    rcases same with same | plain
    · rw [same]
      exact h
    · rw [plain]
      exact positive
  obtain ⟨picture, letter, fullWidth, _⟩ := next.opening_behind
  unfold selected
  split_ifs
  · exact covered_alone c positive
  · exact behind picture
  · exact behind letter
  · exact behind fullWidth
  · show (0 : Int) ≤ w + 1
    omega
  · exact covered_unselected h
  · show (0 : Int) ≤ w + 2
    omega
  · exact covered_unselected h
  · exact covered_unselected h

theorem covered_unpictured (h : next.opening.least ≤ w) : Covered w (unpictured c next) := by
  have positive := next.opening.least_nonneg.trans h
  unfold unpictured
  split
  · rename_i narrow
    unfold Covered Following.opens
    dsimp only
    rw [openingOf_of_narrow narrow]
    split_ifs with feed returned returned
    · rw [feed] at returned
      cases returned
    · show (1 : Int) ≤ w + 1
      omega
    · exact positive.trans_eq (add_zero w).symm
    · show (0 : Int) ≤ w + 1
      omega
  · exact covered_selected h

/-- A step keeps text as wide as its opening asks for. -/
theorem covered_step (h : next.opening.least ≤ w) : Covered w (step c next) := by
  have positive := next.opening.least_nonneg.trans h
  unfold step
  split
  · split
    · show (2 : Int) ≤ w + if _ then _ else _
      split
      · -- A joined picture already has the columns of a picture.
        rename_i joined
        revert h joined
        cases next.opening <;> simp [Opening.least, Opening.isJoined]
      · omega
    · refine covered_unpictured ?_
      rcases next.opening_behind.2.2.2 with same | plain
      · rw [same]
        exact h
      · rw [plain]
        exact positive
  · exact covered_unpictured h

/-! ### Texts -/

/-- A character in front of text of which the width and the opening are known. -/
def advance (c : Char) (after : Int × Following) : Int × Following :=
  (after.1 + (step c after.2).1, (step c after.2).2)

theorem measure_cons (c : Char) (text : List Char) :
    measure (c :: text) = advance c (measure text) := rfl

theorem measure_append (text more : List Char) :
    measure (text ++ more) = text.foldr advance (measure more) :=
  List.foldr_append

/-- A text is at least as wide as its opening asks for. -/
theorem least_measure (text : List Char) : (measure text).2.opening.least ≤ (measure text).1 := by
  induction text with
  | nil => exact Int.le_refl 0
  | cons c text ih => exact covered_step ih

end DisplayWidth

open DisplayWidth

/-- The width of a text is what its steps add up to. -/
theorem displayWidth_eq_measure (text : List Char) :
    (displayWidth text : Int) = (measure text).1 :=
  Int.toNat_of_nonneg ((Opening.least_nonneg _).trans (least_measure text))

end ForumModeration.Text
