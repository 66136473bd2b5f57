import ForumModeration.Grammar.Literal
import ForumModeration.Trigger

/-!
# `ForumModeration.Grammar.Rule`: triggers as they are written

A rule is conditions under connectives. `NOT` binds tightest, then `AND` and
`NAND`, then the others. Connectives of one tier associate to the left, and a run
of one connective is one group. Parentheses group otherwise and leave no trace
of their own.

Parentheses, `NOT` and list brackets nest at most `maxDepth` deep, all counted
together.
-/

set_option autoImplicit false

namespace ForumModeration.Grammar

open ForumModeration.Parser

/-- How deep parentheses, `NOT` and list brackets nest. -/
def maxDepth : Nat := 128

/-- A trigger under construction with the connective that built it last. -/
structure Chain where
  trigger : Trigger
  last : Option Connective := none

/-- Adds an operand. The connective that built the trigger last takes one more
child; another one makes a new group. -/
def Chain.add (chain : Chain) (operand : Connective × Trigger) : Chain :=
  match chain.trigger with
  | .group connective children =>
    -- Only a group that this chain has built takes more children. A group that came from
    -- parentheses stays one operand.
    if chain.last = some operand.1 then
      ⟨.group connective (children ++ [operand.2]), some operand.1⟩
    else ⟨.group operand.1 [chain.trigger, operand.2], some operand.1⟩
  | .condition _ => ⟨.group operand.1 [chain.trigger, operand.2], some operand.1⟩

/-- Folds operands with their connectives from the left. -/
def chain (first : Trigger) (others : List (Connective × Trigger)) : Trigger :=
  (others.foldl Chain.add ⟨first, none⟩).trigger

/-- The operand after a connective. Failing to read it is final unless the
grammar is lenient. -/
def rightOperand (g : Grammar) (operand : Parser Trigger) : Parser Trigger :=
  if g.lenient then uncommit operand else commit operand

/-- A connective and its right operand. -/
def continuation (g : Grammar) (accepts : Connective → Bool) (operand : Parser Trigger) :
    Parser (Connective × Trigger) := do
  let connective ← g.connective accepts
  let trigger ← g.rightOperand operand
  return (connective, trigger)

/-- Operands with connectives of one tier between them. -/
def tier (g : Grammar) (accepts : Connective → Bool) (operand : Parser Trigger) :
    Parser Trigger := do
  let first ← operand
  let others ← many (g.continuation accepts operand)
  return chain first others

/-- Operands under both tiers. -/
def tiers (g : Grammar) (operand : Parser Trigger) : Parser Trigger :=
  g.tier Connective.inOrTier (g.tier Connective.inAndTier operand)

/-- A field, an operator and a value. Membership needs a list. -/
def condition (g : Grammar) (depth : Nat) : Parser Trigger := do
  let field ← word .field g.field
  let operator ← (commit g.operator).word .operator
  blanks
  fun text => do
    let (value, rest) ← (commit (g.literal field.isTime depth)).word .literal text
    -- The value is refused at the place where it starts.
    if operator = .among ∧ ¬value.isList then reject .listAfterIn text
    else .ok (.condition ⟨field, operator, value⟩, rest)

/-- A trigger in parentheses, with the reader of what they hold. -/
def parenthesized (g : Grammar) (inner : Parser Trigger) : Parser Trigger := do
  g.sign .leftParen
  let trigger ← inner
  required .closingParen (g.sign .rightParen)
  return trigger

/-- An operand, with the readers of what a `NOT` negates and of what parentheses
hold. -/
def operandWith (g : Grammar) (depth : Nat) (negated inner : Parser Trigger) :
    Parser Trigger := do
  match ← optional (g.connective Connective.isUnary) with
  | some _ => Trigger.negate <$> negated
  | none => orElse (g.parenthesized inner) (g.condition depth)

/-- An operand that nests at most `depth` deep. -/
def operand (g : Grammar) : Nat → Parser Trigger
  -- Where nothing may nest any more, the sign that would open a level is read first, so the
  -- refusal stands after it.
  | 0 => g.operandWith 0 (reject .shallowerNesting) (reject .shallowerNesting)
  | depth + 1 =>
    g.operandWith (depth + 1) (commit (g.operand depth)) (commit (g.tiers (g.operand depth)))

/-- A rule and the blanks after it. -/
def rule (g : Grammar) : Parser Trigger := do
  let trigger ← g.tiers (g.operand maxDepth)
  blanks
  return trigger

end ForumModeration.Grammar
