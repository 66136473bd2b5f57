import ForumModeration.Text.DisplayWidth.Ranges

/-!
# `ForumModeration.Text.DisplayWidth`: how many columns a text takes

A diagnostic places a caret under a character, so it needs the number of
columns that the text before that character takes on a fixed-width display.
Most characters take one column, East Asian wide characters take two and
combining characters take none. Some sequences take less than their characters
do one by one: a pair of regional indicators is one flag, emoji joined by
U+200D are one picture, lam and alef are one sign, and so on.

The width is a fold from the right. Each step knows what the text after the
character opens with (`Following`), which is all that can change the width of
that character.
-/

set_option autoImplicit false

namespace ForumModeration.Text

namespace DisplayWidth

/-- The kinds of text whose beginning may change what a character before it
takes. `plain` text changes nothing. -/
inductive Opening where
  | plain
  | lineFeed
  | skinTone
  | regional
  | regionals
  | emoji
  | joinedEmoji
  | joinedKeycap
  | joinedRegional
  | joinedRegionalPair
  | joinedRegionalOdd
  | joinedTagLetters (count : Nat)
  | joinedTagDigits (count : Nat)
  | alef
  | lamed
  | buginesYa
  | buginesIya
  | tifinagh
  | tifinaghJoined
  | lisuTone
  | orkhonI
  | khmerLetter
  | kiratE
  | kiratAi
deriving DecidableEq, Repr

namespace Opening

/-- Openings through which invisible combining characters can be seen. -/
def isLigature : Opening → Bool
  | alef | lamed | buginesYa | buginesIya | tifinagh | tifinaghJoined | lisuTone | orkhonI
  | khmerLetter => true
  | _ => false

/-- Openings that are pictures behind a joiner. -/
def isJoined : Opening → Bool
  | joinedEmoji | joinedKeycap => true
  | _ => false

end Opening

/-- What the text after a character opens with: its kind, whether a joiner
stands in front of it, and which variation selectors stand in front of it. They
ask for the look of a picture, of a letter or of a full-width sign. -/
structure Following where
  opening : Opening := .plain
  joiner : Bool := false
  picture : Bool := false
  letter : Bool := false
  fullWidth : Bool := false
deriving DecidableEq, Repr

namespace Following

/-- Text that changes nothing before it. -/
def nothing : Following := {}

/-- Text that opens with the given kind. -/
def opens (opening : Opening) : Following := { opening }

/-- The same text behind the selector of pictures. Only a ligature or a joined
picture is still seen behind it. -/
def behindPicture (next : Following) : Following :=
  if next.opening.isLigature || next.opening.isJoined then { next with picture := true }
  else { picture := true }

/-- The same text behind the selector of letters. Only a ligature is still seen
behind it. -/
def behindLetter (next : Following) : Following :=
  if next.opening.isLigature then { next with letter := true } else { letter := true }

/-- The same text behind the selector of full-width signs. Only a ligature is
still seen behind it. -/
def behindFullWidth (next : Following) : Following :=
  if next.opening.isLigature then { next with fullWidth := true } else { fullWidth := true }

/-- The same text in front of which the selector of pictures found no character
for it. -/
def withoutPicture (next : Following) : Following :=
  if next.opening.isLigature then { next with picture := false } else nothing

end Following

/-- Whether the code point of a character lies between two bounds. -/
def between (c : Char) (low high : Nat) : Bool :=
  low ≤ c.toNat && c.toNat ≤ high

/-- Arabic letters that join with a following alef. -/
def isLam (c : Char) : Bool :=
  c.toNat = 0x0644 || between c 0x06B5 0x06B8 || c.toNat = 0x076A || c.toNat = 0x08A6 ||
    c.toNat = 0x08C7

def isAlef (c : Char) : Bool :=
  c.toNat = 0x0622 || c.toNat = 0x0623 || c.toNat = 0x0625 || c.toNat = 0x0627 ||
    between c 0x0671 0x0673 || c.toNat = 0x0675 || between c 0x0773 0x0774 ||
    between c 0x0870 0x0882

def isTifinagh (c : Char) : Bool :=
  between c 0x2D31 0x2D65 || c.toNat = 0x2D6F

/-- Khmer letters that a coeng sign turns into a subscript. -/
def isKhmerLetter (c : Char) : Bool :=
  between c 0x1780 0x1782 || between c 0x1784 0x1787 || between c 0x1789 0x178C ||
    between c 0x178E 0x1793 || between c 0x1795 0x1798 || between c 0x179B 0x179D ||
    c.toNat = 0x17A0 || c.toNat = 0x17A2 || c.toNat = 0x17A7 || between c 0x17AB 0x17AC ||
    c.toNat = 0x17AF

def isRegional (c : Char) : Bool :=
  between c 0x1F1E6 0x1F1FF

def isSkinTone (c : Char) : Bool :=
  between c 0x1F3FB 0x1F3FF

/-- Tag letters, which spell the region of a flag. -/
def isTagLetter (c : Char) : Bool :=
  between c 0xE0061 0xE007A

/-- Tag digits, which spell the country of a flag where letters do not. -/
def isTagDigit (c : Char) : Bool :=
  between c 0xE0030 0xE0039

/-- Single and double quotation marks, which have full-width forms. -/
def isQuotationMark (c : Char) : Bool :=
  between c 0x2018 0x2019 || between c 0x201C 0x201D

/-- Combining characters that are invisible. -/
def isInvisibleMark (c : Char) : Bool :=
  c.toNat = 0x034F || between c 0x17B4 0x17B5 || between c 0x180B 0x180D || c.toNat = 0x180F ||
    between c 0xFE00 0xFE0F || between c 0xE0100 0xE01EF

/-- The columns a character takes in plain surroundings. The Khmer sign beyyal is
an abbreviation of three letters. -/
def columns (c : Char) : Nat :=
  if c.toNat ≤ 0xA0 then 1
  else if c.toNat = 0x17D8 then 3
  else if wide.contains c then 2
  else if zeroWidth.contains c then 0
  else 1

/-- What a text that starts with the character opens with. -/
def openingOf (c : Char) : Opening :=
  let n := c.toNat
  if n ≤ 0xA0 then (if c = '\n' then .lineFeed else .plain)
  else if isAlef c then .alef
  else if n = 0x05DC then .lamed
  else if isKhmerLetter c then .khmerLetter
  else if n = 0x1A10 then .buginesYa
  else if isTifinagh c then .tifinagh
  else if between c 0xA4FC 0xA4FD then .lisuTone
  else if n = 0x10C03 then .orkhonI
  else if n = 0x16D67 then .kiratE
  else if n = 0x16D68 then .kiratAi
  else if isRegional c then .regional
  else if isSkinTone c then .skinTone
  else if emojiPresentation.contains c then .emoji
  else .plain

/-- A character on its own: its columns and what it opens. -/
def alone (c : Char) : Int × Following :=
  if c.toNat = 0xFE0F then (0, Following.nothing.behindPicture)
  else if c.toNat = 0xFE0E then (0, Following.nothing.behindLetter)
  else if c.toNat = 0xFE01 then (0, Following.nothing.behindFullWidth)
  else (columns c, .opens (openingOf c))

/-- What a character adds in front of text that it makes a ligature or a picture
with, if it does. -/
def combined? (c : Char) (next : Following) : Option (Int × Following) :=
  let n := c.toNat
  let isolated : Int × Following := (0, .nothing)
  let picture : Int × Following := (0, .opens .emoji)
  match next.opening with
  -- Ligatures of Arabic, Hebrew, Khmer, Buginese, Tifinagh, Lisu and Old Turkic letters.
  | .alef =>
    if isLam c then some isolated
    else if columns c = 0 && !nonTransparent.contains c then some (0, .opens .alef)
    else none
  | .lamed => if next.joiner && n = 0x05D0 then some isolated else none
  | .khmerLetter => if n = 0x17D2 then some (-1, .nothing) else none
  | .buginesYa => if next.joiner && n = 0x1A17 then some (0, .opens .buginesIya) else none
  | .buginesIya => if n = 0x1A15 then some isolated else none
  | .tifinagh =>
    if n = 0x2D7F then some (1, .opens .tifinaghJoined)
    else if next.joiner && isTifinagh c then some isolated
    else none
  | .tifinaghJoined => if isTifinagh c then some (-1, .nothing) else none
  | .lisuTone => if between c 0xA4F8 0xA4FB then some isolated else none
  | .orkhonI => if next.joiner && n = 0x10C32 then some isolated else none
  -- Pictures with a skin tone, flags and what is joined to them.
  | .skinTone =>
    if emojiModifierBases.contains c then some picture
    else if n = 0x200D then some (0, .opens .joinedEmoji)
    else none
  | .regional =>
    if isRegional c then some (1, .opens .regionals)
    else none
  | .regionals =>
    if isRegional c then some (1, .opens .regionals)
    else if n = 0x200D then some (0, .opens .joinedEmoji)
    else none
  | .emoji => if n = 0x200D then some (0, .opens .joinedEmoji) else none
  | .joinedEmoji =>
    if n = 0x20E3 then some (0, .opens .joinedKeycap)
    else if isRegional c then some (1, .opens .joinedRegional)
    else if isSkinTone c then some (0, .opens .skinTone)
    else if n = 0xE007F then some (0, .opens (.joinedTagLetters 0))
    else if emojiPresentation.contains c then some picture
    else none
  | .joinedKeycap => none
  | .joinedRegional =>
    if isRegional c then some (-1, .opens .joinedRegionalPair) else none
  | .joinedRegionalOdd =>
    if isRegional c then some (-1, .opens .joinedRegionalPair)
    else if n = 0x200D then some (0, .opens .joinedEmoji)
    else none
  | .joinedRegionalPair =>
    if isRegional c then some (3, .opens .joinedRegionalOdd)
    else if n = 0x200D then some (0, .opens .joinedEmoji)
    else none
  -- A region is two letters or three digits, and up to four letters follow it. Read from the
  -- right, letters come first.
  | .joinedTagLetters count =>
    if isTagLetter c && count < 6 then some (0, .opens (.joinedTagLetters (count + 1)))
    else if isTagDigit c && count ≤ 4 then some (0, .opens (.joinedTagDigits 1))
    else if n = 0x1F3F4 && 3 ≤ count then some picture
    else none
  | .joinedTagDigits count =>
    if isTagDigit c && count < 3 then some (0, .opens (.joinedTagDigits (count + 1)))
    else if n = 0x1F3F4 && count = 3 then some picture
    else none
  -- Vowel signs of Kirat Rai, of which two or three are one.
  | .kiratE =>
    if n = 0x16D63 then some isolated
    else if n = 0x16D67 then some (0, .opens .kiratAi)
    else if n = 0x16D68 then some (1, .opens .kiratE)
    else if n = 0x16D69 then some isolated
    else none
  | .kiratAi => if n = 0x16D63 then some isolated else none
  | .plain | .lineFeed => none

/-- What a character adds in front of text that no variation selector puts apart. -/
def unselected (c : Char) (next : Following) : Int × Following :=
  if next.opening.isLigature && next.opening ≠ .alef && c.toNat = 0x200D then
    (0, { next with joiner := true })
  else if next.opening.isLigature && next.opening ≠ .alef && isInvisibleMark c then (0, next)
  else if next.letter || next.fullWidth then alone c
  else (combined? c next).getD (alone c)

/-- What a character after U+00A0 adds in front of text in which the selector of
pictures has been dealt with. Of the other two selectors only one is looked at. -/
def selected (c : Char) (next : Following) : Int × Following :=
  if next = .nothing then alone c
  else if c.toNat = 0xFE0F then (0, next.behindPicture)
  else if c.toNat = 0xFE0E then (0, next.behindLetter)
  else if c.toNat = 0xFE01 then (0, next.behindFullWidth)
  else if next.letter then
    if textVariationBases.contains c then (1, .nothing)
    else unselected c { next with letter := false }
  else if next.fullWidth then
    if isQuotationMark c then (2, .nothing) else unselected c { next with fullWidth := false }
  else unselected c next

/-- What a character adds in front of text in which the selector of pictures has
been dealt with. -/
def unpictured (c : Char) (next : Following) : Int × Following :=
  if c.toNat ≤ 0xA0 then
    (if c = '\r' && next.opening = .lineFeed then 0 else 1, .opens (openingOf c))
  else selected c next

/-- What a character adds to the width of the text after it, and what the longer
text opens with. -/
def step (c : Char) (next : Following) : Int × Following :=
  if next.picture then
    if emojiVariationBases.contains c then
      (if next.opening.isJoined then 0 else 2, .opens .emoji)
    else unpictured c next.withoutPicture
  else unpictured c next

/-- The width of a text and what it opens with. -/
def measure (text : List Char) : Int × Following :=
  text.foldr (fun c after => let (add, opened) := step c after.2; (after.1 + add, opened))
    (0, .nothing)

end DisplayWidth

/-- The number of columns a text takes on a fixed-width display. -/
def displayWidth (text : List Char) : Nat :=
  (DisplayWidth.measure text).1.toNat

end ForumModeration.Text
