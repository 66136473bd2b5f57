import ForumModeration.Grammar.Parser
import ForumModeration.Text.Classes
import ForumModeration.Text.Digits
import ForumModeration.Text.DisplayWidth

/-!
# `ForumModeration.Diagnostic`: what is said of text that cannot be read

A diagnostic says where reading stopped, what the trouble was there, and shows
the line with a caret under the place. The place is counted in characters from
the start of the text; the caret stands in the column that the line's characters
before it take on display.

What was needed decides what the trouble is called. If nothing is left of the
text, a missing word is an unexpected end.
-/

set_option autoImplicit false

namespace ForumModeration

open Text

/-- What kind of text was being read. -/
inductive Stage where
  | rule
  | action
deriving DecidableEq, Repr

/-- What the trouble was. -/
inductive Trouble where
  | unknownField (word : String)
  | unknownOperator (word : String)
  | unknownAction (word : String)
  | invalidLiteral (word : String)
  | expected (what : String)
  | unexpected (word : String)
  | unexpectedEnd
deriving DecidableEq, Repr

/-- The trouble in words. -/
def Trouble.describe : Trouble → String
  | unknownField word => "unknown field '" ++ word ++ "'"
  | unknownOperator word => "unknown operator '" ++ word ++ "'"
  | unknownAction word => "Unknown action type '" ++ word ++ "'"
  | invalidLiteral word => "invalid literal '" ++ word ++ "'"
  | expected what => "expected " ++ what
  | unexpected word => "unexpected '" ++ word ++ "'"
  | unexpectedEnd => "unexpected end of input"

/-- Where reading stopped and why. -/
structure Diagnostic where
  stage : Stage
  trouble : Trouble
  offset : Nat
  line : String
  column : Nat
deriving DecidableEq, Repr

namespace Diagnostic

/-- The most characters of a word that are quoted. -/
def maxWord : Nat := 24

/-- Characters that end a word. -/
def endsWord (c : Char) : Bool :=
  isBlank c || (isAsciiPunctuation c && c ≠ '_' && c ≠ '.') ||
    "（）【】［］，、：＝".toList.contains c

/-- The word at the start of a text, or the single character there that is no
part of a word. -/
def wordAt : List Char → List Char
  | [] => []
  | c :: rest => if endsWord c then [c] else ((c :: rest).takeWhile (!endsWord ·)).take maxWord

/-- What the trouble is when reading stops in front of a text. -/
def troubleAt (rest : List Char) : Option Expectation → Trouble
  | some (.requirement what) => .expected what.describe
  | some (.word kind) =>
    match wordAt rest with
    | [] => .unexpectedEnd
    | c :: word =>
      let word := String.ofList (c :: word)
      match kind with
      | .field => .unknownField word
      | .operator => .unknownOperator word
      | .action => .unknownAction word
      | .literal => .invalidLiteral word
  | none =>
    match wordAt rest with
    | [] => .unexpectedEnd
    | c :: word => .unexpected (String.ofList (c :: word))

/-- The text without the carriage returns at its end. -/
def dropReturns (line : List Char) : List Char :=
  (line.reverse.dropWhile (· = '\r')).reverse

/-- The end of a text from its last line feed on. -/
def lastLine (text : List Char) : List Char :=
  (text.reverse.takeWhile (· ≠ '\n')).reverse

/-- The diagnostic of a failure to read a text. -/
def ofFailure (stage : Stage) (text : List Char) (failure : Failure) : Diagnostic :=
  let offset := text.length - failure.rest.length
  let start := lastLine (text.take offset)
  let line := start ++ failure.rest.takeWhile (· ≠ '\n')
  { stage
    trouble := troubleAt failure.rest failure.expected
    offset
    -- Carriage returns are left out of the line but still move the caret.
    line := String.ofList (dropReturns line)
    column := displayWidth start }

/-- The diagnostic in three lines: the trouble with its place, the line, and the
caret. -/
def message (d : Diagnostic) : String :=
  let summary := match d.stage with
    | .rule => "Parsing failed"
    | .action => "Action parsing failed"
  summary ++ " at position " ++ decimal d.offset ++ ": " ++ d.trouble.describe ++ "\n" ++ d.line ++
    "\n" ++ String.ofList (List.replicate d.column ' ' ++ ['^'])

end Diagnostic

end ForumModeration
