import ForumModeration.Grammar.Rule

/-!
# `ForumModeration.Scanner`: rules in prose

A scanner walks through a text and looks for rules. It tries to read one at each
character that is no blank and does not continue an ASCII word. Where it finds
one it goes on after it, and elsewhere it goes on with the next character. It
reads leniently, so that a word such as "and" after a rule is left to the prose.

Positions are counted in bytes of UTF-8.

* `next_length_lt`: a scanner that finds a rule has moved on.
-/

set_option autoImplicit false

namespace ForumModeration

open Text

/-- The number of bytes a text takes in UTF-8. -/
def utf8Length : List Char → Nat
  | [] => 0
  | c :: rest => c.utf8Size + utf8Length rest

/-- Where a scanner is: the grammar it reads with, the character before, the rest
of the text and the position in bytes. -/
structure Scanner where
  grammar : Grammar
  before : Option Char := none
  rest : List Char
  position : Nat := 0

/-- A rule found in prose, and the positions where it starts and ends. -/
structure Found where
  trigger : Trigger
  start : Nat
  stop : Nat
deriving DecidableEq, Repr

namespace Scanner

/-- The scanner at the start of a text. -/
def ofText (grammar : Grammar) (text : List Char) : Scanner :=
  { grammar := { grammar with lenient := true }, rest := text }

/-- Whether a rule may start with a character. -/
def isCandidate (before : Option Char) (c : Char) : Bool :=
  !isBlank c && !(isIdent c && before.any isIdent)

/-- The scanner after some of the text in front of it. -/
def advance (scanner : Scanner) (consumed : List Char) (rest : List Char) : Scanner :=
  { scanner with
    before := consumed.getLast?.or scanner.before
    rest
    position := scanner.position + utf8Length consumed }

/-- The text that a reading went over: at least one character. -/
def consumedBy (text rest : List Char) : List Char :=
  text.take (max 1 (text.length - rest.length))

/-- Looks for the next rule from a place on. -/
def search (grammar : Grammar) (before : Option Char) (text : List Char) (position : Nat) :
    Option Found × Scanner :=
  match text with
  | [] => (none, { grammar, before, rest := [], position })
  | c :: rest =>
    if isCandidate before c then
      match grammar.rule (c :: rest) with
      | .ok (trigger, after) =>
        let scanner : Scanner := { grammar, before, rest := c :: rest, position }
        -- The grammar never reads an empty rule. Taking at least one character makes the search end
        -- whatever the grammar does.
        let consumed := consumedBy (c :: rest) after
        let moved := scanner.advance consumed ((c :: rest).drop consumed.length)
        (some ⟨trigger, position, moved.position⟩, moved)
      | .error _ => search grammar (some c) rest (position + c.utf8Size)
    else search grammar (some c) rest (position + c.utf8Size)

/-- The next rule, if there is one, and the scanner after it. -/
def next (scanner : Scanner) : Option Found × Scanner :=
  search scanner.grammar scanner.before scanner.rest scanner.position

private theorem search_length_lt {grammar : Grammar} {before : Option Char} {text : List Char}
    {position : Nat} {found : Found} {after : Scanner}
    (h : search grammar before text position = (some found, after)) :
    after.rest.length < text.length := by
  induction text generalizing before position with
  | nil => simp [search] at h
  | cons c rest ih =>
    rw [search] at h
    split at h
    · split at h
      · simp only [Prod.mk.injEq] at h
        rw [← h.2]
        simp only [advance, consumedBy, List.length_drop, List.length_take, List.length_cons]
        omega
      · have := ih h
        simp only [List.length_cons]
        omega
    · have := ih h
      simp only [List.length_cons]
      omega

/-- A scanner that finds a rule has moved on. -/
theorem next_length_lt {scanner after : Scanner} {found : Found}
    (h : scanner.next = (some found, after)) : after.rest.length < scanner.rest.length :=
  search_length_lt h

/-- All rules from a place on, or the first of them up to a limit, and the scanner
where the search stopped. -/
def run (limit : Option Nat) (scanner : Scanner) : List Found × Scanner :=
  if limit = some 0 then ([], scanner)
  else
    match h : scanner.next with
    | (none, after) => ([], after)
    | (some found, after) =>
      have := next_length_lt h
      let (others, last) := run (limit.map (· - 1)) after
      (found :: others, last)
termination_by scanner.rest.length

end Scanner

end ForumModeration
