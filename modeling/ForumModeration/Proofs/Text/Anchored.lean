import ForumModeration.Proofs.Text.Openings
import ForumModeration.Text.Alphanumeric

/-!
# `ForumModeration.Proofs.Text.Anchored`: widths that no text behind can lessen

A text may be wider than a longer one that starts with it: an emoji in front of a joiner and
another emoji takes no columns of its own. Most characters never take more from the text behind
them than they add themselves (`Steady`), and a quote does not look at the text behind it. So
what stands behind a text that ends in steady characters, up to its start or up to a quote
(`Anchored`), does not make it narrower (`displayWidth_le_append`).

The proof goes over the steady characters from the right, once with the text behind them and
once without it. The first run stays ahead of the second (`Keeps`): either they open alike, or
the first is ahead by what ligatures and selectors may still take from it (`Opening.debt`).
-/

set_option autoImplicit false

namespace ForumModeration.Text

namespace DisplayWidth

variable {c : Char} {w w' : Int}

/-! ### Steady characters -/

/-- Marks, selectors, joiners, flags and signs that change what stands next to them. -/
def marks : CodePoints :=
  [(0x034F, 0x034F), (0x17B4, 0x17B5), (0x17D2, 0x17D2), (0x17D8, 0x17D8), (0x180B, 0x180D),
   (0x180F, 0x180F), (0x200D, 0x200D), (0x2018, 0x2019), (0x201C, 0x201D), (0x20E3, 0x20E3),
   (0x2D7F, 0x2D7F), (0xFE00, 0xFE0F), (0x1F1E6, 0x1F1FF), (0x1F3F4, 0x1F3F4),
   (0x1F3FB, 0x1F3FF), (0xE0030, 0xE007F), (0xE0100, 0xE01EF)]

/-- A character that never takes more from the text behind it than it adds itself. -/
structure Steady (c : Char) : Prop where
  mark : marks.contains c = false
  picture : emojiPresentation.contains c = false
  sign : textVariationBases.contains c = false
  base : emojiModifierBases.contains c = false

/-- A steady character is none of the marks. -/
theorem Steady.ne (steady : Steady c) {n : Nat}
    (mark : ∃ range ∈ marks, range.1 ≤ n ∧ n ≤ range.2) : c.toNat ≠ n := by
  rintro rfl
  have no := steady.mark
  rw [CodePoints.contains_iff.mpr mark] at no
  cases no

theorem Steady.classes (steady : Steady c) :
    isInvisibleMark c = false ∧ isQuotationMark c = false ∧ isRegional c = false ∧
      isSkinTone c = false ∧ isTagLetter c = false ∧ isTagDigit c = false := by
  have outside : ¬∃ range ∈ marks, range.1 ≤ c.toNat ∧ c.toNat ≤ range.2 :=
    fun mark => steady.ne mark rfl
  simp only [marks, List.mem_cons, List.not_mem_nil, or_false, exists_eq_or_imp,
    exists_eq_left, not_or] at outside
  refine ⟨?_, ?_, ?_, ?_, ?_, ?_⟩ <;>
    simp only [isInvisibleMark, isQuotationMark, isRegional, isSkinTone, isTagLetter, isTagDigit,
      between, Bool.or_eq_false_iff, Bool.and_eq_false_iff, decide_eq_false_iff_not] <;>
    omega

/-- The classes of characters that are not steady. -/
def unsteady : List CodePoints :=
  [marks, emojiPresentation, textVariationBases, emojiModifierBases]

/-- Characters of ranges apart from these classes are steady. -/
theorem steady_of_contains {ranges : CodePoints} (order : ranges.ascending = true)
    (apart : unsteady.all (CodePoints.apart ranges) = true) (h : ranges.contains c = true) :
    Steady c := by
  have order' : unsteady.all CodePoints.ascending = true := by decide
  have outside : ∀ others ∈ unsteady, CodePoints.contains others c = false := fun others mem =>
    CodePoints.contains_eq_false_of_apart (List.all_eq_true.mp apart others mem) order
      (List.all_eq_true.mp order' others mem) h
  simp only [unsteady, List.forall_mem_cons] at outside
  exact ⟨outside.1, outside.2.1, outside.2.2.1, outside.2.2.2.1⟩

theorem steady_of_narrow (narrow : c.toNat ≤ 0xA0) : Steady c :=
  @steady_of_contains _ [(0x00, 0xA0)] (by decide) (by decide)
    (CodePoints.contains_iff.mpr ⟨_, List.mem_cons_self, Nat.zero_le _, narrow⟩)

theorem steady_of_isAlphanumeric (h : isAlphanumeric c = true) : Steady c :=
  steady_of_contains (by decide +kernel) (by decide +kernel) h

theorem steady_of_isBlank (h : isBlank c = true) : Steady c := by
  by_cases narrow : c.toNat ≤ 0xA0
  · exact steady_of_narrow narrow
  · refine @steady_of_contains _ [(0x1680, 0x1680), (0x2000, 0x200A), (0x2028, 0x2029),
      (0x202F, 0x202F), (0x205F, 0x205F), (0x3000, 0x3000)] (by decide) (by decide)
      (CodePoints.contains_iff.mpr ?_)
    simp only [isBlank, Bool.or_eq_true, Bool.and_eq_true, decide_eq_true_eq] at h
    simp only [List.mem_cons, List.not_mem_nil, or_false, exists_eq_or_imp, exists_eq_left]
    omega

/-! ### What steady characters take and open -/

theorem Steady.openingOf_eq_plain (steady : Steady c) (no : openers.contains c = false)
    (noFeed : c ≠ '\n') : openingOf c = .plain := by
  by_cases narrow : c.toNat ≤ 0xA0
  · rw [openingOf_of_narrow narrow, if_neg noFeed]
  · refine DisplayWidth.openingOf_eq_plain (by omega) no ?_
    obtain ⟨-, -, -, tone, -⟩ := steady.classes
    rw [← Bool.not_eq_true, contains_pictures_iff, tone, steady.picture]
    simp

/-- Letters that make one sign with a letter behind them. -/
def ligated : CodePoints :=
  [(0x05D0, 0x05D0), (0x0644, 0x0644), (0x06B5, 0x06B8), (0x076A, 0x076A), (0x08A6, 0x08A6),
   (0x08C7, 0x08C7), (0x1A15, 0x1A15), (0xA4F8, 0xA4FB), (0x10C32, 0x10C32),
   (0x16D63, 0x16D63), (0x16D69, 0x16D69)]

theorem ligated_of_isLam (h : isLam c = true) :
    ∃ range ∈ ligated, range.1 ≤ c.toNat ∧ c.toNat ≤ range.2 := by
  simp only [isLam, between, Bool.or_eq_true, Bool.and_eq_true, decide_eq_true_eq] at h
  simp only [ligated, List.mem_cons, List.not_mem_nil, or_false, exists_eq_or_imp,
    exists_eq_left]
  omega

theorem Steady.of_ligated (steady : Steady c) (h : ligated.contains c = true) :
    columns c ≤ 1 ∧ openingOf c = .plain := by
  have narrow : wide.contains c = false :=
    CodePoints.contains_eq_false_of_apart (by decide) (by decide)
      (by decide) h
  have no : openers.contains c = false :=
    CodePoints.contains_eq_false_of_apart (by decide) (by decide)
      (by decide) h
  have feed : c ≠ '\n' := by
    rintro rfl
    revert h
    decide
  exact ⟨columns_le_one narrow (steady.ne (by decide)), steady.openingOf_eq_plain no feed⟩

/-- Characters that may be asked to be pictures, but are none by default. -/
theorem Steady.of_base (steady : Steady c) (base : emojiVariationBases.contains c = true) :
    columns c ≤ 2 ∧ openingOf c = .plain := by
  have no : openers.contains c = false :=
    CodePoints.contains_eq_false_of_apart (by decide) (by decide)
      (by decide) base
  have feed : c ≠ '\n' := by
    rintro rfl
    revert base
    decide
  refine ⟨?_, steady.openingOf_eq_plain no feed⟩
  unfold columns
  rw [if_neg (steady.ne (by decide) : c.toNat ≠ 0x17D8)]
  split_ifs <;> omega

theorem columns_of_tifinagh (h : isTifinagh c = true) :
    columns c = 1 ∧ openingOf c = .tifinagh := by
  have range : (0x2D31 ≤ c.toNat ∧ c.toNat ≤ 0x2D65) ∨ c.toNat = 0x2D6F := by
    simpa [isTifinagh, between] using h
  constructor
  · refine columns_of_openers (CodePoints.contains_iff.mpr ?_)
    rcases range with range | range
    · exact ⟨(0x2D31, 0x2D65), by decide, range⟩
    · exact ⟨(0x2D6F, 0x2D6F), by decide, by omega, by omega⟩
  · have letters : isAlef c = false ∧ isKhmerLetter c = false := by
      constructor <;>
        simp only [isAlef, isKhmerLetter, between, Bool.or_eq_false_iff, Bool.and_eq_false_iff,
          decide_eq_false_iff_not] <;>
        omega
    unfold openingOf
    dsimp only
    rw [if_neg (by omega), letters.1, if_neg Bool.false_ne_true, if_neg (by omega), letters.2,
      if_neg Bool.false_ne_true, if_neg (by omega), if_pos h]

/-- The vowel signs of Kirat Rai that others are made of. -/
theorem columns_of_kirat : (c.toNat = 0x16D67 → columns c = 1 ∧ openingOf c = .kiratE) ∧
    (c.toNat = 0x16D68 → columns c = 1 ∧ openingOf c = .kiratAi) := by
  constructor <;> intro point <;> rw [← Char.ofNat_toNat c, point] <;> decide +kernel

/-- The vowel sign of Buginese that ya takes. -/
theorem columns_of_bugineseI (h : c.toNat = 0x1A17) : columns c = 0 := by
  rw [← Char.ofNat_toNat c, h]
  decide

/-! ### What the text behind may take -/

/-- The most that steady characters may take from a text that opens this way. -/
def Opening.debt : Opening → Int
  | lineFeed | alef | lamed | buginesYa | buginesIya | tifinagh | lisuTone | orkhonI | kiratE
  | kiratAi => 1
  | tifinaghJoined | joinedEmoji | joinedKeycap => 2
  | _ => 0

theorem Opening.debt_nonneg (o : Opening) : 0 ≤ o.debt := by
  cases o <;> simp [debt]

theorem Opening.debt_le_least (o : Opening) : o.debt ≤ o.least := by
  cases o <;> simp [debt, least]

/-- Steady characters in front of a first text never make it narrower than in front of a second
one, however many there are. -/
inductive Keeps : Int × Following → Int × Following → Prop where
  /-- The two open alike. -/
  | same {next : Following} {w w' : Int} (less : w' ≤ w) : Keeps (w, next) (w', next)
  /-- The second opens with nothing, and the first is ahead by what may be taken from it. -/
  | ahead {next : Following} {w w' : Int} (less : w' + next.opening.debt ≤ w) :
      Keeps (w, next) (w', .nothing)
  /-- The first has joined a letter of Tifinagh that the second opens with. -/
  | tifinagh {w w' : Int} (less : w' ≤ w) : Keeps (w, .nothing) (w', .opens .tifinagh)
  /-- Vowel signs of Kirat Rai are paired from the right, so the two may differ in which sign of
  a pair comes next. -/
  | longVowel {w w' : Int} (less : w' + 1 ≤ w) : Keeps (w, .opens .kiratE) (w', .opens .kiratAi)
  | shortVowel {w w' : Int} (less : w' ≤ w) : Keeps (w, .opens .kiratAi) (w', .opens .kiratE)

theorem Keeps.le {after after' : Int × Following} (h : Keeps after after') :
    after'.1 ≤ after.1 := by
  cases h with
  | same less => exact less
  | @ahead next _ _ less => exact (le_add_of_nonneg_right next.opening.debt_nonneg).trans less
  | tifinagh less => exact less
  | longVowel less => exact (le_add_of_nonneg_right zero_le_one).trans less
  | shortVowel less => exact less

/-- What a steady character may add in front of a text that opens in some way. -/
inductive Adds (c : Char) (o : Opening) : Int × Following → Prop where
  | alone : Adds c o (alone c)
  | lineEnd (feed : o = .lineFeed) (return_ : c = '\r') : Adds c o (0, .nothing)
  | picture (base : emojiVariationBases.contains c = true) :
      Adds c o (if o.isJoined then 0 else 2, .opens .emoji)
  | combined {seen : Following} {read : Int × Following} (same : seen.opening = o)
      (some_ : combined? c seen = some read) : Adds c o read

namespace Steady

theorem alone_eq (steady : Steady c) : alone c = (↑(columns c), .opens (openingOf c)) := by
  unfold alone
  rw [if_neg (steady.ne (by decide)), if_neg (steady.ne (by decide)),
    if_neg (steady.ne (by decide))]

theorem unselected (steady : Steady c) (next : Following) :
    Adds c next.opening (unselected c next) := by
  have joiner : c.toNat ≠ 0x200D := steady.ne (by decide)
  unfold DisplayWidth.unselected
  rw [if_neg (by simp [joiner]), if_neg (by simp [steady.classes.1])]
  split
  · exact .alone
  · cases some_ : combined? c next with
    | none => exact .alone
    | some read => exact .combined rfl some_

theorem selected (steady : Steady c) (next : Following) :
    Adds c next.opening (selected c next) := by
  unfold DisplayWidth.selected
  rw [if_neg (steady.ne (by decide)), if_neg (steady.ne (by decide)),
    if_neg (steady.ne (by decide)), steady.sign, steady.classes.2.1, if_neg Bool.false_ne_true,
    if_neg Bool.false_ne_true]
  split
  · exact .alone
  · split
    · exact steady.unselected { next with letter := false }
    · split
      · exact steady.unselected { next with fullWidth := false }
      · exact steady.unselected next

theorem unpictured (steady : Steady c) (next : Following) :
    Adds c next.opening (unpictured c next) := by
  unfold DisplayWidth.unpictured
  split
  · rename_i narrow
    split
    · rename_i returned
      obtain ⟨rfl, feed⟩ : c = '\r' ∧ next.opening = .lineFeed := by simpa using returned
      exact .lineEnd feed rfl
    · have alone := steady.alone_eq
      rw [columns_of_narrow narrow] at alone
      exact alone ▸ .alone
  · exact steady.selected next

theorem unpictured_nothing (steady : Steady c) : DisplayWidth.unpictured c .nothing = alone c := by
  unfold DisplayWidth.unpictured
  split
  · rename_i narrow
    rw [steady.alone_eq, columns_of_narrow narrow, if_neg (by simp [Following.nothing])]
    rfl
  · rfl

/-- What a steady character adds in front of some text. -/
theorem step (steady : Steady c) (next : Following) : Adds c next.opening (step c next) := by
  unfold DisplayWidth.step
  split
  · split
    · rename_i base
      exact .picture base
    · unfold Following.withoutPicture
      split
      · exact steady.unpictured { next with picture := false }
      · rw [steady.unpictured_nothing]
        exact .alone
  · exact steady.unpictured next

/-- A letter that makes one sign with what it stands in front of. -/
theorem isolated (steady : Steady c) (member : ∃ range ∈ ligated, range.1 ≤ c.toNat ∧
    c.toNat ≤ range.2) (enough : w' + 1 ≤ w) :
    Keeps (w + 0, .nothing) (w' + columns c, .opens (openingOf c)) := by
  obtain ⟨narrow, plain⟩ := steady.of_ligated (CodePoints.contains_iff.mpr member)
  rw [plain]
  refine .same (?_ : _ ≤ _)
  omega

theorem isolated_of_eq (steady : Steady c) {point : Nat} (at_ : c.toNat = point)
    (member : (point, point) ∈ ligated) (enough : w' + 1 ≤ w) :
    Keeps (w + 0, .nothing) (w' + columns c, .opens (openingOf c)) :=
  steady.isolated ⟨(point, point), member, at_.ge, at_.le⟩ enough

/-- A mark through which what stands behind it is seen. -/
theorem transparent {o : Opening} (none : columns c = 0) (enough : w' + o.debt ≤ w) :
    Keeps (w + 0, .opens o) (w' + columns c, .opens (openingOf c)) := by
  have plain : openingOf c = .plain := by
    have := least_openingOf c
    rw [none] at this
    revert this
    cases openingOf c <;> simp [Opening.least]
  rw [plain, none]
  refine .ahead (?_ : _ ≤ _)
  simpa [Following.opens] using enough

/-- A sign that is made with what the text behind opens with takes no more than that text has
to give. -/
theorem combined (steady : Steady c) {seen : Following} {read : Int × Following}
    (some_ : combined? c seen = some read) (less : w' + seen.opening.debt ≤ w) :
    Keeps (w + read.1, read.2) (w' + columns c, .opens (openingOf c)) := by
  obtain ⟨-, -, regional, tone, letter, digit⟩ := steady.classes
  have coeng : c.toNat ≠ 0x17D2 := steady.ne (by decide)
  have joiner : c.toNat ≠ 0x200D := steady.ne (by decide)
  have tied : c.toNat ≠ 0x2D7F := steady.ne (by decide)
  have keycap : c.toNat ≠ 0x20E3 := steady.ne (by decide)
  have cancel : c.toNat ≠ 0xE007F := steady.ne (by decide)
  have flag : c.toNat ≠ 0x1F3F4 := steady.ne (by decide)
  unfold combined? at some_
  dsimp only at some_
  -- Pictures, flags and subscripts are made of marks only, so some letters are left.
  split at some_ <;> rename_i o <;> rw [o] at less <;>
    try simp only [regional, tone, letter, digit, steady.picture, steady.base, coeng, joiner,
      tied, keycap, cancel, flag, if_false, Bool.false_eq_true, Bool.false_and, decide_false,
      reduceCtorEq] at some_
  · -- Lam and alef, and alef behind marks.
    split_ifs at some_ with lam mark <;> cases some_
    · exact steady.isolated (ligated_of_isLam lam) less
    · exact transparent (by simpa using (Bool.and_eq_true_iff.mp mark).1) less
  · -- Alef and lamed.
    split_ifs at some_ with first
    cases some_
    have point : c.toNat = 0x05D0 := by simpa using (Bool.and_eq_true_iff.mp first).2
    exact steady.isolated_of_eq point (by decide) less
  · -- The vowel sign that ya takes.
    split_ifs at some_ with first
    cases some_
    have point : c.toNat = 0x1A17 := by simpa using (Bool.and_eq_true_iff.mp first).2
    exact transparent (columns_of_bugineseI point) less
  · split_ifs at some_ with point
    cases some_
    exact steady.isolated_of_eq point (by decide) less
  · -- Two letters of Tifinagh.
    split_ifs at some_ with first
    cases some_
    obtain ⟨narrow, opening⟩ := columns_of_tifinagh (Bool.and_eq_true_iff.mp first).2
    rw [narrow, opening]
    exact .tifinagh (less.trans_eq (add_zero w).symm)
  · split_ifs at some_ with first
    cases some_
    obtain ⟨narrow, opening⟩ := columns_of_tifinagh first
    rw [narrow, opening]
    refine .tifinagh (?_ : _ ≤ _)
    change w' + 2 ≤ w at less
    omega
  · -- A letter of Lisu with two tones.
    split_ifs at some_ with first
    cases some_
    have range : 0xA4F8 ≤ c.toNat ∧ c.toNat ≤ 0xA4FB := by simpa [between] using first
    exact steady.isolated ⟨(0xA4F8, 0xA4FB), by decide, range⟩ less
  · -- Two letters of Old Turkic.
    split_ifs at some_ with first
    cases some_
    have point : c.toNat = 0x10C32 := by simpa using (Bool.and_eq_true_iff.mp first).2
    exact steady.isolated_of_eq point (by decide) less
  · -- Vowel signs of Kirat Rai.
    split_ifs at some_ with point point point point <;> cases some_
    · exact steady.isolated_of_eq point (by decide) less
    · obtain ⟨narrow, opening⟩ := columns_of_kirat.1 point
      rw [narrow, opening]
      exact .shortVowel (less.trans_eq (add_zero w).symm)
    · obtain ⟨narrow, opening⟩ := columns_of_kirat.2 point
      rw [narrow, opening]
      exact .longVowel (Int.add_le_add_right less 1)
    · exact steady.isolated_of_eq point (by decide) less
  · split_ifs at some_ with point
    cases some_
    exact steady.isolated_of_eq point (by decide) less

/-- In front of text that asks for nothing else, only a combination changes what is added. -/
theorem step_opens (steady : Steady c) {o : Opening} (noFeed : o ≠ .lineFeed) :
    DisplayWidth.step c (.opens o)
      = if c.toNat ≤ 0xA0 then alone c else (combined? c (.opens o)).getD (alone c) := by
  show DisplayWidth.unpictured c (.opens o) = _
  unfold DisplayWidth.unpictured
  split
  · rename_i narrow
    rw [steady.alone_eq, columns_of_narrow narrow, if_neg (by simp [Following.opens, noFeed])]
    rfl
  · have joiner : c.toNat ≠ 0x200D := steady.ne (by decide)
    unfold DisplayWidth.selected
    rw [if_neg (steady.ne (by decide)), if_neg (steady.ne (by decide)),
      if_neg (steady.ne (by decide))]
    split
    · rename_i plain
      cases plain
      rfl
    · show DisplayWidth.unselected c (.opens o) = _
      unfold DisplayWidth.unselected
      rw [if_neg (by simp [joiner]), if_neg (by simp [steady.classes.1])]
      rfl

theorem step_nothing (steady : Steady c) : DisplayWidth.step c .nothing = alone c :=
  (steady.step_opens (o := .plain) nofun).trans (ite_self _)

theorem step_tifinagh (steady : Steady c) : DisplayWidth.step c (.opens .tifinagh) = alone c := by
  have tied : c.toNat ≠ 0x2D7F := steady.ne (by decide)
  rw [steady.step_opens (o := .tifinagh) nofun]
  simp [combined?, Following.opens, tied]

theorem step_kiratE (steady : Steady c) : DisplayWidth.step c (.opens .kiratE)
    = if c.toNat = 0x16D63 then (0, .nothing)
      else if c.toNat = 0x16D67 then (0, .opens .kiratAi)
      else if c.toNat = 0x16D68 then (1, .opens .kiratE)
      else if c.toNat = 0x16D69 then (0, .nothing)
      else alone c := by
  rw [steady.step_opens (o := .kiratE) nofun]
  simp only [combined?, Following.opens]
  split_ifs <;> first | rfl | omega

theorem step_kiratAi (steady : Steady c) : DisplayWidth.step c (.opens .kiratAi)
    = if c.toNat = 0x16D63 then (0, .nothing) else alone c := by
  rw [steady.step_opens (o := .kiratAi) nofun]
  simp only [combined?, Following.opens]
  split_ifs <;> first | rfl | omega

/-- Two vowel signs that go on in the two ways a vowel sign may. -/
private theorem keeps_vowels (steady : Steady c) :
    (w' + 1 ≤ w → Keeps (advance c (w, .opens .kiratE)) (advance c (w', .opens .kiratAi))) ∧
      (w' ≤ w → Keeps (advance c (w, .opens .kiratAi)) (advance c (w', .opens .kiratE))) := by
  have alone := steady.alone_eq
  have narrow : c.toNat = 0x16D69 → columns c ≤ 1 ∧ openingOf c = .plain := fun point =>
    steady.of_ligated (CodePoints.contains_iff.mpr
      ⟨(0x16D69, 0x16D69), by decide, by omega, by omega⟩)
  unfold advance
  rw [steady.step_kiratE, steady.step_kiratAi]
  split_ifs with sign short long long'
  · exact ⟨fun less => .same (by omega), fun less => .same (by omega)⟩
  · obtain ⟨width, opening⟩ := columns_of_kirat.1 short
    rw [alone, width, opening]
    exact ⟨fun less => .shortVowel (by omega), fun less => .longVowel (by omega)⟩
  · obtain ⟨width, opening⟩ := columns_of_kirat.2 long
    rw [alone, width, opening]
    exact ⟨fun less => .longVowel (by omega), fun less => .shortVowel (by omega)⟩
  · obtain ⟨width, opening⟩ := narrow long'
    rw [alone, opening]
    exact ⟨fun less => .same (by omega), fun less => .same (by omega)⟩
  · exact ⟨fun less => .same (by omega), fun less => .same (by omega)⟩

/-- Steady characters in front of both texts. -/
theorem keeps (steady : Steady c) {after after' : Int × Following} (h : Keeps after after') :
    Keeps (advance c after) (advance c after') := by
  cases h with
  | same less => exact .same (Int.add_le_add_right less _)
  | @ahead next w w' less =>
    have alone := steady.alone_eq
    have added := steady.step next
    have behind : w' ≤ w := (Keeps.ahead less).le
    unfold advance
    rw [steady.step_nothing, alone]
    dsimp only
    generalize DisplayWidth.step c next = read at added
    cases added with
    | alone =>
      rw [alone]
      exact .same (by omega)
    | lineEnd feed return_ =>
      subst return_
      rw [feed] at less
      exact .same (less.trans_eq (add_zero w).symm)
    | picture base =>
      obtain ⟨width, opening⟩ := steady.of_base base
      rw [opening]
      refine .ahead (?_ : _ ≤ _)
      show w' + columns c + 0 ≤ w + if _ then _ else _
      split
      · rename_i joined
        have debt : next.opening.debt = 2 := by
          revert joined
          cases next.opening <;> simp [Opening.debt, Opening.isJoined]
        omega
      · omega
    | combined same some_ =>
      rw [← same] at less
      exact steady.combined some_ less
  | tifinagh less =>
    unfold advance
    rw [steady.step_nothing, steady.step_tifinagh]
    exact .same (Int.add_le_add_right less _)
  | longVowel less => exact steady.keeps_vowels.1 less
  | shortVowel less => exact steady.keeps_vowels.2 less

end Steady

/-! ### Texts in front of others -/

/-- A quote is followed by nothing that it would change with. -/
theorem advance_quote {mark : Char} (quote : mark = '\'' ∨ mark = '"')
    (after : Int × Following) : advance mark after = (after.1 + 1, .nothing) := by
  have step_ : step mark after.2 = (1, .nothing) := by
    unfold step unpictured
    rcases quote with rfl | rfl <;>
      simp [show emojiVariationBases.contains '\'' = false by decide,
        show emojiVariationBases.contains '"' = false by decide] <;>
      rfl
  unfold advance
  rw [step_]

/-- What stands in front adds the same to any width. -/
theorem foldr_advance_add (text : List Char) (w k : Int) (next : Following) :
    text.foldr advance (w + k, next)
      = ((text.foldr advance (w, next)).1 + k, (text.foldr advance (w, next)).2) := by
  induction text with
  | nil => rfl
  | cons c text ih =>
    rw [List.foldr_cons, List.foldr_cons, ih]
    unfold advance
    dsimp only
    rw [add_right_comm]

theorem foldr_advance_mono (text : List Char) {w w' : Int} (less : w' ≤ w) (next : Following) :
    (text.foldr advance (w', next)).1 ≤ (text.foldr advance (w, next)).1 := by
  have added := foldr_advance_add text w' (w - w') next
  rw [add_sub_cancel] at added
  rw [added]
  dsimp only
  omega

theorem keeps_foldr {text : List Char} (steady : ∀ c ∈ text, Steady c)
    {after after' : Int × Following} (h : Keeps after after') :
    Keeps (text.foldr advance after) (text.foldr advance after') := by
  induction text with
  | nil => exact h
  | cons c text ih =>
    exact (steady c (by simp)).keeps (ih fun d mem => steady d (by simp [mem]))

theorem measure_returns (n : Nat) :
    measure (List.replicate n '\r') = ((n : Int), .nothing) := by
  induction n with
  | zero => rfl
  | succ n ih =>
    rw [List.replicate_succ, measure_cons, ih]
    rfl

/-- A text that ends in steady characters, up to its start or up to a quote. -/
def Anchored (text : List Char) : Prop :=
  ∃ closed behind, text = closed ++ behind ∧
    (∀ mark ∈ closed.getLast?, mark = '\'' ∨ mark = '"') ∧ ∀ c ∈ behind, Steady c

namespace Anchored

variable {text more : List Char}

theorem of_steady (steady : ∀ c ∈ text, Steady c) : Anchored text :=
  ⟨[], text, rfl, nofun, steady⟩

theorem of_quote {mark : Char} (quote : mark = '\'' ∨ mark = '"') (text : List Char) :
    Anchored (text ++ [mark]) := by
  refine ⟨text ++ [mark], [], (List.append_nil _).symm, ?_, nofun⟩
  intro last same
  rw [List.getLast?_concat, Option.mem_some] at same
  rwa [← same]

theorem append (h : Anchored text) (h' : Anchored more) : Anchored (text ++ more) := by
  obtain ⟨closed, behind, rfl, quote, steady⟩ := h
  obtain ⟨closed', behind', rfl, quote', steady'⟩ := h'
  by_cases none : closed' = []
  · refine ⟨closed, behind ++ behind', by simp [none], quote, ?_⟩
    intro c mem
    exact (List.mem_append.mp mem).elim (steady c) (steady' c)
  · refine ⟨closed ++ behind ++ closed', behind', by simp, ?_, steady'⟩
    rwa [List.getLast?_append_of_ne_nil _ none]

/-- The end of an anchored text is anchored. -/
theorem of_append (h : Anchored (more ++ text)) : Anchored text := by
  obtain ⟨closed, behind, split, quote, steady⟩ := h
  rcases List.append_eq_append_iff.mp split with ⟨left, rfl, rfl⟩ | ⟨left, rfl, rfl⟩
  · refine ⟨left, behind, rfl, fun mark last => ?_, steady⟩
    refine quote mark ?_
    rw [Option.mem_def, List.getLast?_append, Option.mem_def.mp last, Option.some_or]
  · exact of_steady fun c mem => steady c (List.mem_append_right _ mem)

end Anchored

end DisplayWidth

open DisplayWidth

/-- What stands behind an anchored text makes it no narrower. -/
theorem displayWidth_le_append {text : List Char} (h : Anchored text) (more : List Char) :
    displayWidth text ≤ displayWidth (text ++ more) := by
  refine Int.toNat_le_toNat ?_
  obtain ⟨closed, behind, rfl, quote, steady⟩ := h
  have start : Keeps (measure more) (0, .nothing) := by
    refine .ahead (?_ : _ ≤ _)
    rw [zero_add]
    exact (Opening.debt_le_least _).trans (least_measure more)
  have tail := (keeps_foldr steady start).le
  have whole : measure (closed ++ behind ++ more)
      = closed.foldr advance (behind.foldr advance (measure more)) := by
    rw [measure_append, List.foldr_append]
  have alone : measure (closed ++ behind)
      = closed.foldr advance (behind.foldr advance (0, .nothing)) :=
    measure_append closed behind
  rw [whole, alone]
  rcases List.eq_nil_or_concat closed with rfl | ⟨front, mark, rfl⟩
  · exact tail
  · -- In front of the quote, the two texts are the same.
    have mark_ := quote mark (by simp)
    rw [List.concat_eq_append, List.foldr_append, List.foldr_append]
    simp only [List.foldr_cons, List.foldr_nil, advance_quote mark_]
    exact foldr_advance_mono front (Int.add_le_add_right tail 1) _

/-- Carriage returns at the end of a text take a column each. -/
theorem displayWidth_append_returns (text : List Char) (n : Nat) :
    displayWidth (text ++ List.replicate n '\r') = displayWidth text + n := by
  have shifted := foldr_advance_add text 0 n .nothing
  rw [zero_add, ← measure_returns, ← measure_append] at shifted
  have sum : (displayWidth (text ++ List.replicate n '\r') : Int) = displayWidth text + n := by
    rw [displayWidth_eq_measure, displayWidth_eq_measure, shifted]
    rfl
  exact_mod_cast sum

end ForumModeration.Text
