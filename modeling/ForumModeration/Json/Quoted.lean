/-!
# `ForumModeration.Json.Quoted`: strings in JSON

A string is written between double quotes. Double quotes, backslashes and the
control characters below the space are escaped: five of these by a letter and
the others by four hexadecimal digits.

A reader meets more spellings, since any character may be escaped by the 16-bit
units that stand for it, and a unit may be half a surrogate pair. Such halves
are paired only after the string has been read to its end, so a string with an
unpaired half is recognised as a string that is no text.

* `readBody_encode`, `assemble_pieces`: a written string reads back, and what
  follows it is left.
-/

set_option autoImplicit false

namespace ForumModeration.Json.Quoted

/-- A hexadecimal digit in lower case. -/
def hexDigit (n : Nat) : Char :=
  if n < 10 then Char.ofNat (0x30 + n) else Char.ofNat (0x57 + n)

/-- The value of a hexadecimal digit in either case. -/
def hexValue? (c : Char) : Option Nat :=
  if '0' ≤ c ∧ c ≤ '9' then some (c.toNat - 0x30)
  else if 'a' ≤ c ∧ c ≤ 'f' then some (c.toNat - 0x57)
  else if 'A' ≤ c ∧ c ≤ 'F' then some (c.toNat - 0x37)
  else none

/-- How a character is written. -/
def encodeChar (c : Char) : List Char :=
  if c = '"' then ['\\', '"']
  else if c = '\\' then ['\\', '\\']
  else if c = '\n' then ['\\', 'n']
  else if c = '\t' then ['\\', 't']
  else if c = '\r' then ['\\', 'r']
  else if c = '\x08' then ['\\', 'b']
  else if c = '\x0c' then ['\\', 'f']
  else if c.toNat < 0x20 then
    ['\\', 'u', '0', '0', hexDigit (c.toNat / 16), hexDigit (c.toNat % 16)]
  else [c]

/-- A text between double quotes. -/
def encode (text : List Char) : List Char :=
  '"' :: text.flatMap encodeChar ++ ['"']

/-- The character that a backslash and a letter or sign stand for. -/
def escape? (c : Char) : Option Char :=
  if c = '"' ∨ c = '\\' ∨ c = '/' then some c
  else if c = 'n' then some '\n'
  else if c = 't' then some '\t'
  else if c = 'r' then some '\r'
  else if c = 'b' then some '\x08'
  else if c = 'f' then some '\x0c'
  else none

/-- A piece of a string: a character, or a 16-bit unit named by an escape. -/
inductive Piece where
  | char (c : Char)
  | unit (n : Nat)
deriving DecidableEq, Repr

/-- Puts a piece in front of what is read after it. -/
def prepend (piece : Piece) (read : Option (List Piece × List Char)) :
    Option (List Piece × List Char) :=
  read.map fun (pieces, rest) => (piece :: pieces, rest)

/-- Reads up to the quote that closes the string. The result is the pieces of the
string and the text after that quote. -/
def readBody : List Char → Option (List Piece × List Char)
  | [] => none
  | [c] => if c = '"' then some ([], []) else none
  | c :: d :: rest =>
    if c = '"' then some ([], d :: rest)
    else if c = '\\' then
      if d = 'u' then
        match rest with
        | h :: i :: j :: k :: rest => do
          let unit := (((← hexValue? h) * 16 + (← hexValue? i)) * 16 + (← hexValue? j)) * 16 +
            (← hexValue? k)
          prepend (.unit unit) (readBody rest)
        | _ => none
      else do prepend (.char (← escape? d)) (readBody rest)
    else if c.toNat < 0x20 then none
    else prepend (.char c) (readBody (d :: rest))

/-- Whether a unit is the first half of a surrogate pair. -/
def isHighHalf (n : Nat) : Bool :=
  0xD800 ≤ n && n < 0xDC00

/-- Whether a unit is the second half of a surrogate pair. -/
def isLowHalf (n : Nat) : Bool :=
  0xDC00 ≤ n && n < 0xE000

/-- The text that pieces make up. There is none if a half of a surrogate pair is
left over. -/
def assemble : List Piece → Option (List Char)
  | [] => some []
  | .char c :: rest => (assemble rest).map (c :: ·)
  | [.unit n] => if isHighHalf n || isLowHalf n then none else some [Char.ofNat n]
  | .unit n :: .char c :: rest =>
    if isHighHalf n || isLowHalf n then none
    else (assemble (.char c :: rest)).map (Char.ofNat n :: ·)
  | .unit n :: .unit m :: rest =>
    if isHighHalf n then
      if isLowHalf m then
        (assemble rest).map (Char.ofNat (0x10000 + (n - 0xD800) * 0x400 + (m - 0xDC00)) :: ·)
      else none
    else if isLowHalf n then none
    else (assemble (.unit m :: rest)).map (Char.ofNat n :: ·)

/-- How a written character reads. -/
def pieceOf (c : Char) : Piece :=
  if c.toNat < 0x20 ∧ c ≠ '\n' ∧ c ≠ '\t' ∧ c ≠ '\r' ∧ c ≠ '\x08' ∧ c ≠ '\x0c' then .unit c.toNat
  else .char c

private theorem readBody_mark (rest : List Char) : readBody ('"' :: rest) = some ([], rest) := by
  rw [readBody.eq_def]
  cases rest <;> rfl

private theorem readBody_plain {c : Char} (hm : c ≠ '"') (hb : c ≠ '\\') (hc : ¬ c.toNat < 0x20)
    {rest : List Char} (hr : rest ≠ []) :
    readBody (c :: rest) = prepend (.char c) (readBody rest) := by
  cases rest with
  | nil => exact absurd rfl hr
  | cons d rest =>
    conv => lhs; rw [readBody.eq_def]
    simp [hm, hb, hc]

private theorem readBody_escape {c d : Char} (hd : d ≠ 'u') (hc : escape? d = some c)
    (rest : List Char) :
    readBody ('\\' :: d :: rest) = prepend (.char c) (readBody rest) := by
  conv => lhs; rw [readBody.eq_def]
  simp [hd, hc]

private theorem hexValue?_hexDigit : ∀ n : Fin 16, hexValue? (hexDigit n) = some n.val := by
  decide

private theorem readBody_unit {c : Char} (hc : c.toNat < 0x20) (rest : List Char) :
    readBody (['\\', 'u', '0', '0', hexDigit (c.toNat / 16), hexDigit (c.toNat % 16)] ++ rest)
      = prepend (.unit c.toNat) (readBody rest) := by
  have high := hexValue?_hexDigit ⟨c.toNat / 16, by omega⟩
  have low := hexValue?_hexDigit ⟨c.toNat % 16, by omega⟩
  have zero : hexValue? '0' = some 0 := rfl
  simp only [List.cons_append, List.nil_append]
  rw [readBody]
  simp only [high, low, zero, Option.bind_eq_bind, Option.bind_some, if_true,
    show ¬ '\\' = '"' by decide, if_false]
  congr 2
  omega

private theorem readBody_encodeChar (c : Char) {rest : List Char} (hr : rest ≠ []) :
    readBody (encodeChar c ++ rest) = prepend (pieceOf c) (readBody rest) := by
  unfold encodeChar
  split
  · rename_i h; subst h; exact readBody_escape (by decide) rfl rest
  split
  · rename_i h; subst h; exact readBody_escape (by decide) rfl rest
  split
  · rename_i h; subst h; exact readBody_escape (by decide) rfl rest
  split
  · rename_i h; subst h; exact readBody_escape (by decide) rfl rest
  split
  · rename_i h; subst h; exact readBody_escape (by decide) rfl rest
  split
  · rename_i h; subst h; exact readBody_escape (by decide) rfl rest
  split
  · rename_i h; subst h; exact readBody_escape (by decide) rfl rest
  split
  · rename_i hm hb h1 h2 h3 h4 h5 hc
    -- The other control characters are escaped by their code.
    rw [readBody_unit hc]
    simp [pieceOf, hc, h1, h2, h3, h4, h5]
  · rename_i hm hb h1 h2 h3 h4 h5 hc
    -- All else stands for itself.
    rw [List.singleton_append, readBody_plain hm hb hc hr]
    simp [pieceOf, hc]

/-- The body of a written string, followed by anything, reads as its pieces. -/
theorem readBody_encode (text rest : List Char) :
    readBody (text.flatMap encodeChar ++ '"' :: rest) = some (text.map pieceOf, rest) := by
  induction text with
  | nil => exact readBody_mark rest
  | cons c text ih =>
    rw [List.flatMap_cons, List.append_assoc, readBody_encodeChar c (by simp), ih]
    rfl

private theorem assemble_unit {n : Nat} (h : n < 0xD800) (pieces : List Piece) :
    assemble (.unit n :: pieces) = (assemble pieces).map (Char.ofNat n :: ·) := by
  have high : isHighHalf n = false := by simp [isHighHalf]; omega
  have low : isLowHalf n = false := by simp [isLowHalf]; omega
  cases pieces with
  | nil => simp [assemble, high, low]
  | cons piece pieces => cases piece <;> simp [assemble, high, low]

/-- The pieces of a written string make up its text. -/
theorem assemble_pieces (text : List Char) : assemble (text.map pieceOf) = some text := by
  induction text with
  | nil => rfl
  | cons c text ih =>
    rw [List.map_cons]
    generalize text.map pieceOf = pieces at ih
    unfold pieceOf
    split
    · rw [assemble_unit (by omega), ih, Char.ofNat_toNat]
      rfl
    · rw [assemble, ih]
      rfl

end ForumModeration.Json.Quoted
