/-!
# `ForumModeration.Grammar.Parser`: readers of text and how they fail

A parser reads from the start of a text and leaves the rest. If it cannot, it
says where it stopped, what it needed there, and whether it is committed. An
uncommitted failure leaves room for another reading of the same text; a
committed one is final. What was needed is said by the innermost reader that
has something to say.

* `bind_of_ok`, `bind_of_error`: how readers follow one another.
* `many_of_ok`, `many_of_error`: how a repetition goes on and how it ends.
-/

set_option autoImplicit false

namespace ForumModeration

/-- The classes of words that rule text is made of. -/
inductive WordKind where
  | field
  | operator
  | action
  | literal
deriving DecidableEq, Repr

/-- Things that have to stand at a place or to hold of what stands there. -/
inductive Requirement where
  | openingParen
  | closingParen
  | closingBracket
  | assignment
  | closingQuote
  | listAfterIn
  | calendarDate
  | timeInRange
  | integerInRange
  | shallowerNesting
deriving DecidableEq, Repr

/-- A requirement as messages call it. -/
def Requirement.describe : Requirement → String
  | openingParen => "'('"
  | closingParen => "')'"
  | closingBracket => "']'"
  | assignment => "'='"
  | closingQuote => "closing quote"
  | listAfterIn => "list value for 'in'"
  | calendarDate => "valid calendar date"
  | timeInRange => "time offset within range"
  | integerInRange => "integer within range"
  | shallowerNesting => "shallower nesting"

/-- What a reader needed. -/
inductive Expectation where
  | word (kind : WordKind)
  | requirement (what : Requirement)
deriving DecidableEq, Repr

/-- A reader's failure: the text it could not go on with, what it needed there,
and whether the failure is final. -/
structure Failure where
  rest : List Char
  expected : Option Expectation
  committed : Bool
deriving DecidableEq, Repr

/-- A reader of text. -/
def Parser (α : Type) : Type :=
  List Char → Except Failure (α × List Char)

namespace Parser

variable {α β : Type}

instance : Monad Parser where
  pure a := fun text => .ok (a, text)
  bind p f := fun text =>
    match p text with
    | .ok (a, rest) => f a rest
    | .error failure => .error failure

/-- Fails without saying what was needed. -/
def fail : Parser α := fun text =>
  .error ⟨text, none, false⟩

/-- Fails for good, because what stands here does not meet a requirement. -/
def reject (what : Requirement) : Parser α := fun text =>
  .error ⟨text, some (.requirement what), true⟩

/-- The second reading if the first fails and is not committed. -/
def orElse (p q : Parser α) : Parser α := fun text =>
  match p text with
  | .ok result => .ok result
  | .error failure => if failure.committed then .error failure else q text

/-- Reads nothing where the reader fails and is not committed. -/
def optional (p : Parser α) : Parser (Option α) := fun text =>
  match p text with
  | .ok (a, rest) => .ok (some a, rest)
  | .error failure => if failure.committed then .error failure else .ok (none, text)

/-- Makes failures final. -/
def commit (p : Parser α) : Parser α := fun text =>
  match p text with
  | .ok result => .ok result
  | .error failure => .error { failure with committed := true }

/-- Makes failures leave room for another reading. -/
def uncommit (p : Parser α) : Parser α := fun text =>
  match p text with
  | .ok result => .ok result
  | .error failure => .error { failure with committed := false }

/-- Says what was needed, unless the failure already says so. -/
def expecting (what : Expectation) (p : Parser α) : Parser α := fun text =>
  match p text with
  | .ok result => .ok result
  | .error failure => .error { failure with expected := failure.expected <|> some what }

/-- Reads a word of the given kind. -/
def word (kind : WordKind) (p : Parser α) : Parser α :=
  p.expecting (.word kind)

/-- Reads what has to stand here. -/
def required (what : Requirement) (p : Parser α) : Parser α :=
  (commit p).expecting (.requirement what)

/-- Reads as often as the reader succeeds. It ends where the reader fails without
being committed, or where it reads nothing. -/
def many (p : Parser α) (text : List Char) : Except Failure (List α × List Char) :=
  match p text with
  | .ok (a, rest) =>
    -- A reading of nothing could be repeated for ever.
    if rest.length < text.length then
      match many p rest with
      | .ok (others, after) => .ok (a :: others, after)
      | .error failure => .error failure
    else .ok ([], text)
  | .error failure => if failure.committed then .error failure else .ok ([], text)
termination_by text.length

/-- One or more readings with separators between them. A separator that no
reading follows is left. -/
def separated (p : Parser α) (separator : Parser β) : Parser (List α) := do
  let first ← p
  let others ← many (do let _ ← separator; p)
  return first :: others

/-- Any number of readings with separators between them. -/
def separatedOrNone (p : Parser α) (separator : Parser β) : Parser (List α) := do
  match ← p.optional with
  | none => return []
  | some first =>
    let others ← many (do let _ ← separator; p)
    return first :: others

/-- A character that satisfies a condition. -/
def satisfying (accepts : Char → Bool) : Parser Char := fun text =>
  match text with
  | c :: rest => if accepts c then .ok (c, rest) else .error ⟨text, none, false⟩
  | [] => .error ⟨text, none, false⟩

/-- The given character. -/
def char (c : Char) : Parser Char :=
  satisfying (· = c)

/-- A run of `least` to `most` characters that satisfy a condition. -/
def runBetween (least most : Nat) (accepts : Char → Bool) : Parser (List Char) := fun text =>
  let run := (text.take most).takeWhile accepts
  if run.length < least then .error ⟨text, none, false⟩ else .ok (run, text.drop run.length)

/-- The longest run of characters that satisfy a condition, at least one. -/
def run (accepts : Char → Bool) : Parser (List Char) := fun text =>
  let run := text.takeWhile accepts
  if run.isEmpty then .error ⟨text, none, false⟩ else .ok (run, text.dropWhile accepts)

/-- Succeeds where no character follows that satisfies the condition. -/
def notBefore (accepts : Char → Bool) : Parser Unit := fun text =>
  match text with
  | c :: _ => if accepts c then .error ⟨text, none, false⟩ else .ok ((), text)
  | [] => .ok ((), text)

/-- Reads a whole text. -/
def complete (p : Parser α) (text : List Char) : Except Failure α :=
  match p text with
  | .ok (a, []) => .ok a
  | .ok (_, rest) => .error ⟨rest, none, false⟩
  | .error failure => .error failure

theorem bind_of_ok {p : Parser α} {f : α → Parser β} {text rest : List Char} {a : α}
    (h : p text = .ok (a, rest)) : (p >>= f) text = f a rest := by
  change (match p text with | .ok (a, rest) => f a rest | .error failure => .error failure) = _
  rw [h]

theorem bind_of_error {p : Parser α} {f : α → Parser β} {text : List Char} {failure : Failure}
    (h : p text = .error failure) : (p >>= f) text = .error failure := by
  change (match p text with | .ok (a, rest) => f a rest | .error failure => .error failure) = _
  rw [h]

theorem pure_apply (a : α) (text : List Char) : (pure a : Parser α) text = .ok (a, text) :=
  rfl

/-- A repetition goes on after a reading that shortens the text. -/
theorem many_of_ok {p : Parser α} {text rest after : List Char} {a : α} {others : List α}
    (h : p text = .ok (a, rest)) (shorter : rest.length < text.length)
    (hs : many p rest = .ok (others, after)) : many p text = .ok (a :: others, after) := by
  rw [many, h]
  simp [shorter, hs]

/-- A repetition ends where the reader fails without being committed. -/
theorem many_of_error {p : Parser α} {text : List Char} {failure : Failure}
    (h : p text = .error failure) (soft : failure.committed = false) :
    many p text = .ok ([], text) := by
  rw [many, h]
  simp [soft]

end Parser

end ForumModeration
