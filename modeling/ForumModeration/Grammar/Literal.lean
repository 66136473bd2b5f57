import ForumModeration.Grammar.Moment
import ForumModeration.Text.Quoted

/-!
# `ForumModeration.Grammar.Literal`: values as they are written

A literal is a string between quotes, a list in brackets, or bare: a date, a
relative time, a number, a truth value or the word for the present. Parameters
of actions take any literal but a list.

A string compared with a field of time is read as a date if all of it is one.
Lists may be nested; `depth` is how many levels of nesting are left.
-/

set_option autoImplicit false

namespace ForumModeration.Grammar

open Text ForumModeration.Parser

/-- A string between quotes of either kind. -/
def quoted : Parser (List Char) := do
  let mark ← satisfying fun c => c = '\'' || c = '"'
  fun text =>
    match Quoted.readBody mark text with
    | some result => .ok result
    -- The quote is looked for up to the end of the text, and it is missed there.
    | none => .error ⟨[], some (.requirement .closingQuote), true⟩

/-- A number. Digits after a point make it a floating-point number. An identifier
character must not follow. -/
def number : Parser Value := do
  let sign ← optional (char '-')
  let whole ← run Char.isDigit
  let places ← optional (do let _ ← char '.'; run Char.isDigit)
  notBefore isIdent
  match places with
  | some places =>
    return .float (.nearest sign.isSome ⟨numberOf (whole ++ places), -(places.length : Int)⟩)
  | none =>
    let n : Int := if sign.isSome then -(numberOf whole : Int) else numberOf whole
    if -0x8000000000000000 ≤ n ∧ n < 0x8000000000000000 then return .int (.ofInt n)
    else reject .integerInRange

/-- A literal that starts with no quote and no bracket. -/
def bareLiteral (g : Grammar) : Parser Value :=
  orElse (Value.instant <$> g.date) <|
  orElse (Value.instant <$> g.relative) <|
  orElse number <|
  orElse (Value.bool <$> g.truth) <|
  (do g.symbol .now; return .instant g.now)

/-- What a string is read as: the date it spells if one is wanted, itself
otherwise. -/
def stringValue (g : Grammar) (wantsDate : Bool) (text : List Char) : Value :=
  if wantsDate then
    match complete g.date (trim text) with
    | .ok instant => .instant instant
    | .error _ => .string (String.ofList text)
  else .string (String.ofList text)

/-- A literal between quotes. -/
def quotedLiteral (g : Grammar) (wantsDate : Bool) : Parser Value := do
  let text ← quoted
  return g.stringValue wantsDate text

/-- A literal other than a list. -/
def scalar (g : Grammar) : Parser Value := do
  blanks
  orElse (g.quotedLiteral false) g.bareLiteral

/-- A list in brackets, with the reader of its items. -/
def listOf (g : Grammar) (items : Parser (List Value)) : Parser Value := do
  g.sign .leftBracket
  let values ← items
  required .closingBracket (g.sign .rightBracket)
  return .list values

/-- Any literal, with the reader of a list's items. -/
def literalWith (g : Grammar) (wantsDate : Bool) (items : Parser (List Value)) : Parser Value := do
  blanks
  orElse (g.quotedLiteral wantsDate) <| orElse (g.listOf items) g.bareLiteral

/-- Any literal with lists nested at most `depth` deep. -/
def literal (g : Grammar) (wantsDate : Bool) : Nat → Parser Value
  | 0 => g.literalWith wantsDate (reject .shallowerNesting)
  | depth + 1 =>
    g.literalWith wantsDate (separatedOrNone (g.literal wantsDate depth) (g.sign .comma))

end ForumModeration.Grammar
