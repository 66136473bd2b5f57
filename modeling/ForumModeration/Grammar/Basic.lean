import ForumModeration.Calendar.Instant
import ForumModeration.Grammar.Parser
import ForumModeration.Text.Classes
import ForumModeration.TokenTable.Basic

/-!
# `ForumModeration.Grammar.Basic`: tokens

A grammar is what one reading of a text depends on: the lexicon of the language,
the instant that stands for the present, and whether a connective has to have a
right operand.

A token is read after any blanks. ASCII letters match in either case. A token
that ends in an identifier character must not run on into another one or into a
point. Of the tokens that match, the longest is read.

* `afterLetters?_length`: reading a token takes as many characters as it has.
-/

set_option autoImplicit false

namespace ForumModeration

open Text

/-- What a reading depends on. A `lenient` one ends a rule in front of a
connective that has no right operand, where a strict one fails. -/
structure Grammar where
  lexicon : List (List Char × Symbol)
  now : Instant
  lenient : Bool := false

namespace Grammar

/-- The strict grammar of a table. -/
def ofTable (table : TokenTable) (now : Instant) : Grammar :=
  { lexicon := table.lexicon, now }

/-- What follows a token at the start of a text, whatever the case of letters. -/
def afterLetters? : List Char → List Char → Option (List Char)
  | [], rest => some rest
  | t :: token, c :: text => if sameLetter t c then afterLetters? token text else none
  | _ :: _, [] => none

/-- Whether a token may be followed by a text: one that ends in an identifier
character may not run on. -/
def endsBefore (token rest : List Char) : Bool :=
  !(token.getLast?.any isIdent && rest.head?.any fun c => isIdent c || c = '.')

/-- What follows a token that stands at the start of a text. -/
def afterToken? (token text : List Char) : Option (List Char) :=
  (afterLetters? token text).filter (endsBefore token)

/-- Skips blanks. -/
def blanks : Parser Unit := fun text =>
  .ok ((), skipBlanks text)

/-- Reads, after blanks, the longest token whose symbol is wanted. -/
def pick {α : Type} (g : Grammar) (wanted : Symbol → Option α) : Parser α := fun text =>
  let text := skipBlanks text
  -- Longer tokens stand in front in the lexicon, so the first that matches is the longest.
  let read? := g.lexicon.findSome? fun (token, symbol) => do
    let a ← wanted symbol
    let rest ← afterToken? token text
    return (a, rest)
  match read? with
  | some result => .ok result
  | none => .error ⟨text, none, false⟩

/-- Reads a token of one symbol. -/
def symbol (g : Grammar) (wanted : Symbol) : Parser Unit :=
  g.pick fun s => if s = wanted then some () else none

/-- Reads a sign. -/
def sign (g : Grammar) (wanted : Punctuation) : Parser Unit :=
  g.symbol (.punctuation wanted)

/-- Reads a field. -/
def field (g : Grammar) : Parser Field :=
  g.pick fun | .field f => some f | _ => none

/-- Reads an operator. -/
def operator (g : Grammar) : Parser Operator :=
  g.pick fun | .operator o => some o | _ => none

/-- Reads a connective of a class. -/
def connective (g : Grammar) (accepts : Connective → Bool) : Parser Connective :=
  g.pick fun | .connective c => if accepts c then some c else none | _ => none

/-- Reads a kind of action. -/
def actionKind (g : Grammar) : Parser ActionKind :=
  g.pick fun | .action k => some k | _ => none

/-- Reads a truth value. -/
def truth (g : Grammar) : Parser Bool :=
  g.pick fun | .truth b => some b | _ => none

/-- Reads a unit of time. -/
def timeUnit (g : Grammar) : Parser TimeUnit :=
  g.pick fun | .unit u => some u | _ => none

theorem afterLetters?_length {token text rest : List Char}
    (h : afterLetters? token text = some rest) : text.length = token.length + rest.length := by
  induction token generalizing text with
  | nil => simp_all [afterLetters?]
  | cons t token ih =>
    cases text with
    | nil => simp [afterLetters?] at h
    | cons c text =>
      rw [afterLetters?] at h
      split at h
      · have := ih h
        simp only [List.length_cons]
        omega
      · cases h

end Grammar

end ForumModeration
