import ForumModeration.Grammar.Literal
import ForumModeration.Text.Alphanumeric

/-!
# `ForumModeration.Grammar.Calls`: action lists as they are written

An action list is a word that introduces it, which may be left out, and calls
with commas between them. A call is a kind of action with parameters in
parentheses. The name of a parameter is a run of letters and digits of any
script and underscores.
-/

set_option autoImplicit false

namespace ForumModeration.Grammar

open Text ForumModeration.Parser

/-- Characters of parameter names. -/
def isNameChar (c : Char) : Bool :=
  isAlphanumeric c || c = '_'

/-- A parameter: a name, a sign and a value. -/
def parameter (g : Grammar) : Parser (String × Value) := do
  blanks
  let name ← run isNameChar
  required .assignment (g.sign .assign)
  let value ← (commit g.scalar).word .literal
  return (String.ofList name, value)

/-- A call. Of parameters of one name the last counts, in the place of the
first. -/
def call (g : Grammar) : Parser Action := do
  let kind ← word .action g.actionKind
  required .openingParen (g.sign .leftParen)
  let params ← separatedOrNone g.parameter (g.sign .comma)
  required .closingParen (g.sign .rightParen)
  return { kind, params := .ofList params }

/-- The word that introduces an action list, with or without a colon. -/
def introduction (g : Grammar) : Parser Unit := do
  g.symbol .actionPrefix
  let _ ← optional (g.sign .colon)
  return ()

/-- An action list and the blanks after it. -/
def calls (g : Grammar) : Parser (List Action) := do
  let _ ← optional g.introduction
  let actions ← separated g.call (g.sign .comma)
  blanks
  return actions

end ForumModeration.Grammar
