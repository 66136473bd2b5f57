import ForumModeration.Grammar.Parser
import ForumModeration.Json.Basic
import ForumModeration.Json.Quoted

/-!
# `ForumModeration.Json.Document`: reading documents

A document is read from the start of a text, after blanks. No two kinds of
document begin with the same character, so there is never a second reading to
try. Every array and object takes up a character, which bounds the depth of the
reader by the length of the text.

* `string_encode`: a written string reads back.
-/

set_option autoImplicit false

namespace ForumModeration.Json.Document

/-- The characters that may stand between the tokens of a document. -/
def isBlank (c : Char) : Bool :=
  c = ' ' || c = '\t' || c = '\n' || c = '\r'

/-- A text without the blanks in front of it. -/
def skipBlanks (text : List Char) : List Char :=
  text.dropWhile isBlank

/-- Skips blanks in front of a reader. -/
def token {α : Type} (p : Parser α) : Parser α := fun text =>
  p (skipBlanks text)

/-- Reads a sign. -/
def sign (c : Char) : Parser Unit := token do
  let _ ← Parser.char c

/-- Reads a word. -/
def word (letters : List Char) : Parser Unit := token fun text =>
  if letters.isPrefixOf text then .ok ((), text.drop letters.length) else Parser.fail text

/-- Reads the digits of an integer, which has no leading zeros. -/
def wholeDigits : Parser (List Char) :=
  (do return [← Parser.char '0']).orElse (Parser.run Char.isDigit)

/-- Reads the digits after a point. -/
def fractionDigits : Parser (List Char) := do
  let _ ← Parser.char '.'
  Parser.run Char.isDigit

/-- Reads the exponent after its letter. -/
def exponent : Parser Int := do
  let _ ← Parser.satisfying fun c => c = 'e' || c = 'E'
  let mark ← (Parser.satisfying fun c => c = '+' || c = '-').optional
  let digits ← Parser.run Char.isDigit
  return if mark = some '-' then -(Text.numberOf digits : Int) else Text.numberOf digits

/-- Reads a number. -/
def numeral : Parser Numeral := token do
  let minus ← (Parser.char '-').optional
  let whole ← wholeDigits
  let places ← fractionDigits.optional
  let power ← exponent.optional
  return { negative := minus.isSome, whole, places, power }

/-- Reads a string. -/
def string : Parser (Option String) := token fun text =>
  match text with
  | '"' :: body =>
    match Quoted.readBody body with
    | some (pieces, rest) => .ok ((Quoted.assemble pieces).map String.ofList, rest)
    | none => Parser.fail text
  | _ => Parser.fail text

/-- Reads items between brackets, with commas between them. -/
def between {α : Type} (opening closing : Char) (item : Parser α) : Parser (List α) := do
  sign opening
  let items ← item.separatedOrNone (sign ',')
  sign closing
  return items

/-- Reads a member of an object. -/
def member (document : Parser Json) : Parser (Option String × Json) := do
  let name ← string
  sign ':'
  return (name, ← document)

/-- Reads a document, with the reader of the documents inside it. -/
def documentWith (inner : Parser Json) : Parser Json :=
  (do word "null".toList; return null)
    |>.orElse (do word "true".toList; return bool true)
    |>.orElse (do word "false".toList; return bool false)
    |>.orElse (do return number (← numeral))
    |>.orElse (do return Json.string (← string))
    |>.orElse (do return array (← between '[' ']' inner))
    |>.orElse (do return object (← between '\x7b' '\x7d' (member inner)))

/-- Reads a document with fewer than `depth` arrays and objects in each other. -/
def document : Nat → Parser Json
  | 0, text => Parser.fail text
  | depth + 1, text => documentWith (document depth) text

/-- The document at the start of a text, and what follows it. -/
def read? (text : List Char) : Option (Json × List Char) :=
  (document (text.length + 1) text).toOption

/-- The document that a text is, with blanks around it. -/
def ofText? (text : String) : Option Json := do
  let (json, rest) ← read? text.toList
  guard (skipBlanks rest).isEmpty
  return json

/-- A written string, followed by anything, reads back. -/
theorem string_encode (text rest : List Char) :
    string (Quoted.encode text ++ rest) = .ok (some (String.ofList text), rest) := by
  have quoted : Quoted.encode text ++ rest
      = '"' :: (text.flatMap Quoted.encodeChar ++ '"' :: rest) := by
    simp [Quoted.encode]
  rw [quoted]
  simp only [string, token, skipBlanks, List.dropWhile_cons,
    show isBlank '"' = false by decide, Bool.false_eq_true, if_false, Quoted.readBody_encode,
    Quoted.assemble_pieces, Option.map_some]

end ForumModeration.Json.Document
