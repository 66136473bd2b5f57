import ForumModeration.TokenTable.Basic
import ForumModeration.Trigger
import ForumModeration.Text.Quoted

/-!
# `ForumModeration.Rendering`: triggers and actions as text

A renderer writes with the tokens of one table and shows instants in one offset.
What it writes is meant to be read back by the grammar of the same table.

A group with one child is written as that child. Other groups stand in
parentheses where they are children of a group, and what `NOT` negates always
does. A field without a token is written with its tag; any other symbol without
a token is an error, as is a group with the wrong number of children.
-/

set_option autoImplicit false

namespace ForumModeration

open Text

/-- Why something cannot be written. -/
inductive RenderError where
  | wrongArity (connective : Connective) (children : Nat)
  | missingSymbol (missing : MissingSymbol)
deriving DecidableEq, Repr

/-- The error in words. -/
def RenderError.message : RenderError → String
  | wrongArity connective children =>
    connective.tag ++ " group has " ++ decimal children ++ " children, expected " ++
      (if connective.isUnary then "exactly 1" else "at least 1")
  | missingSymbol missing => missing.message

/-- A table to write with and an offset to show instants in. -/
structure Renderer where
  table : TokenTable
  offset : Offset

namespace Renderer

/-- Text or the reason why there is none. -/
abbrev Result := Except RenderError (List Char)

/-- The token of a symbol. -/
def token (r : Renderer) (symbol : Symbol) : Result :=
  match r.table.primary symbol with
  | .ok token => .ok token.toList
  | .error missing => .error (.missingSymbol missing)

/-- A sign. -/
def sign (r : Renderer) (sign : Punctuation) : Result :=
  r.token (.punctuation sign)

/-- What stands between tokens. -/
def space (r : Renderer) : List Char :=
  if r.table.spaced then [' '] else []

/-- A comma and what stands after it. -/
def comma (r : Renderer) : Result := do
  return (← r.sign .comma) ++ r.space

/-- An instant as a date and a time of day in the words of a language. -/
def moment (mode : Mode) (time : LocalTime) : List Char :=
  let year := Timestamp.year time.date.year
  let month := padded 2 time.date.month
  let day := padded 2 time.date.day
  let hour := padded 2 time.hour
  let minute := padded 2 time.minute
  let second := padded 2 time.shownSecond ++ Timestamp.fraction time.fraction
  match mode with
  | .dsl => year ++ '-' :: month ++ '-' :: day ++ ' ' :: hour ++ ':' :: minute ++ ':' :: second
  | .cnl =>
    year ++ '年' :: month ++ '月' :: day ++ '日' :: ' ' :: hour ++ '时' :: minute ++ '分' ::
      second ++ ['秒']

mutual

/-- A value. -/
def value (r : Renderer) : Value → Result
  | .bool truth => r.token (.truth truth)
  | .int number => .ok (signedDigits number.toInt)
  | .float number => .ok (NumberStyle.ruleText.write number)
  | .string text => .ok (Quoted.encode text.toList)
  | .instant time => .ok (moment r.table.mode (time.withOffset r.offset).localTime)
  | .list [] => do return (← r.sign .leftBracket) ++ (← r.sign .rightBracket)
  | .list (item :: items) => do
    let opening ← r.sign .leftBracket
    let first ← r.value item
    let others ← r.furtherValues items
    return opening ++ first ++ others ++ (← r.sign .rightBracket)

/-- Values with a comma in front of each. -/
def furtherValues (r : Renderer) : List Value → Result
  | [] => .ok []
  | item :: items => do
    let comma ← r.comma
    let text ← r.value item
    return comma ++ text ++ (← r.furtherValues items)

end

/-- A condition. -/
def condition (r : Renderer) (c : Condition) : Result := do
  let field := match r.table.primary (.field c.field) with
    | .ok token => token.toList
    | .error _ => c.field.tag.toList
  let operator ← r.token (.operator c.operator)
  return field ++ r.space ++ operator ++ r.space ++ (← r.value c.value)

/-- A text in parentheses if it has to be. -/
def parenthesize (r : Renderer) (needed : Bool) (text : Result) : Result := do
  if needed then
    let opening ← r.sign .leftParen
    let inner ← text
    return opening ++ inner ++ (← r.sign .rightParen)
  else text

mutual

/-- A trigger, which `nested` says to be a child of a group. -/
def trigger (r : Renderer) (nested : Bool) : Trigger → Result
  | .condition c => r.condition c
  | .group .not [child] => do
    let negation ← r.token (.connective .not)
    return negation ++ r.space ++ (← r.parenthesize true (r.trigger false child))
  | .group .not children => .error (.wrongArity .not children.length)
  | .group connective [] => .error (.wrongArity connective 0)
  -- The child takes the place of its group, parentheses included.
  | .group _ [child] => r.trigger nested child
  | .group connective (first :: second :: others) => do
    let token ← r.token (.connective connective)
    r.parenthesize nested do
      return (← r.trigger true first) ++ (← r.operands token (second :: others))

/-- Children of a group with a connective in front of each. -/
def operands (r : Renderer) (connective : List Char) : List Trigger → Result
  | [] => .ok []
  | child :: rest => do
    let text ← r.trigger true child
    return r.space ++ connective ++ r.space ++ text ++ (← r.operands connective rest)

end

/-- A rule. -/
def rule (r : Renderer) (trigger : Trigger) : Result :=
  r.trigger false trigger

/-- A parameter. -/
def parameter (r : Renderer) (entry : String × Value) : Result := do
  let assign ← r.sign .assign
  return entry.1.toList ++ assign ++ (← r.value entry.2)

/-- Parameters with commas between them. -/
def parameters (r : Renderer) : List (String × Value) → Result
  | [] => .ok []
  | [entry] => r.parameter entry
  | entry :: rest => do
    let first ← r.parameter entry
    let comma ← r.comma
    return first ++ comma ++ (← r.parameters rest)

/-- A call of an action. -/
def call (r : Renderer) (action : Action) : Result := do
  let kind ← r.token (.action action.kind)
  let opening ← r.sign .leftParen
  let params ← r.parameters action.params.entries
  return kind ++ opening ++ params ++ (← r.sign .rightParen)

/-- Calls with commas between them. -/
def calls (r : Renderer) : List Action → Result
  | [] => .ok []
  | [action] => r.call action
  | action :: rest => do
    let first ← r.call action
    let comma ← r.comma
    return first ++ comma ++ (← r.calls rest)

/-- An action list with the word that introduces it. No actions are no text. -/
def actions (r : Renderer) : List Action → Result
  | [] => .ok []
  | action :: rest => do
    let introduction ← r.token .actionPrefix
    let colon ← r.sign .colon
    return introduction ++ colon ++ r.space ++ (← r.calls (action :: rest))

end Renderer

end ForumModeration
