import ForumModeration.Diagnostic
import ForumModeration.Grammar.Calls
import ForumModeration.Rendering
import ForumModeration.ReviewRule
import ForumModeration.Scanner
import ForumModeration.TokenTable.Cnl
import ForumModeration.TokenTable.Dsl

/-!
# `ForumModeration.Editor`: reading and writing rules in both languages

An editor holds a token table for each language and the offset in which dates
are read and shown. What it does to text depends on the present only through one
reading of a clock for each text, so every relative time in a text is counted
from the same instant.

Operations that read a clock say so in their type: they run in `Timed`, and the
clock they leave is the one to be read next.
-/

set_option autoImplicit false

namespace ForumModeration

/-- A clock, as the instants that its readings will show. -/
structure Clock where
  readings : Nat → Instant

namespace Clock

/-- A clock that always shows the same instant. -/
def fixed (instant : Instant) : Clock := ⟨fun _ => instant⟩

/-- What the clock shows, and the clock after that. -/
def read (clock : Clock) : Instant × Clock :=
  (clock.readings 0, ⟨fun n => clock.readings (n + 1)⟩)

end Clock

/-- Work that may read a clock. -/
abbrev Timed := StateM Clock

/-- Reads the clock. -/
def present : Timed Instant := modifyGet Clock.read

/-- The tables of both languages, and the offset of dates. -/
structure Editor where
  dsl : TokenTable := .dsl
  cnl : TokenTable := .cnl
  offset : Offset := .china

/-- Why a review rule could not be made from text. -/
inductive ReviewError where
  | unreadable (diagnostic : Diagnostic)
  | incompatible (error : Incompatible)

/-- A text in one language, and whether it reads back as what was written. -/
structure Rendered where
  text : String
  readsBack : Bool

namespace Editor

/-- The table of a language. -/
def table (editor : Editor) : Mode → TokenTable
  | .dsl => editor.dsl
  | .cnl => editor.cnl

/-- The grammar of a language at an instant. -/
def grammar (editor : Editor) (mode : Mode) (now : Instant) : Grammar :=
  .ofTable (editor.table mode) (now.withOffset editor.offset)

/-- The renderer of a language. -/
def renderer (editor : Editor) (mode : Mode) : Renderer :=
  ⟨editor.table mode, editor.offset⟩

/-- Reads all of a text, or says why it cannot be read. -/
def readWith {α : Type} (stage : Stage) (parser : Parser α) (text : String) :
    Except Diagnostic α :=
  (parser.complete text.toList).mapError (Diagnostic.ofFailure stage text.toList)

/-- Reads a rule at an instant. -/
def parseRuleAt (editor : Editor) (now : Instant) (text : String) (mode : Mode) :
    Except Diagnostic Trigger :=
  readWith .rule (editor.grammar mode now).rule text

/-- Reads an action list at an instant. -/
def parseActionsAt (editor : Editor) (now : Instant) (text : String) (mode : Mode) :
    Except Diagnostic (List Action) :=
  readWith .action (editor.grammar mode now).calls text

/-- Reads a rule. -/
def parseRule (editor : Editor) (text : String) (mode : Mode) :
    Timed (Except Diagnostic Trigger) := do
  return editor.parseRuleAt (← present) text mode

/-- Reads an action list. -/
def parseActions (editor : Editor) (text : String) (mode : Mode) :
    Timed (Except Diagnostic (List Action)) := do
  return editor.parseActionsAt (← present) text mode

/-- The trouble with a rule's text, none if it can be read. -/
def validate (editor : Editor) (text : String) (mode : Mode) : Timed (Option String) := do
  match ← editor.parseRule text mode with
  | .ok _ => return none
  | .error diagnostic => return some diagnostic.message

/-- A scanner at the start of a text. -/
def scanner (editor : Editor) (text : String) (mode : Mode) : Timed Scanner := do
  return .ofText (editor.grammar mode (← present)) text.toList

/-- Writes a rule. -/
def renderRule (editor : Editor) (trigger : Trigger) (mode : Mode) : Except RenderError String :=
  ((editor.renderer mode).rule trigger).map String.ofList

/-- Writes an action list. -/
def renderActions (editor : Editor) (actions : List Action) (mode : Mode) :
    Except RenderError String :=
  ((editor.renderer mode).actions actions).map String.ofList

/-- Makes a review rule from the texts of its trigger and its actions. -/
def reviewRule (editor : Editor) (name trigger actions : String) (target : Target) (mode : Mode) :
    Timed (Except ReviewError ReviewRule) := do
  -- Each of the two texts has a reading of the clock of its own.
  match ← editor.parseRule trigger mode with
  | .error diagnostic => return .error (.unreadable diagnostic)
  | .ok trigger =>
    match ← editor.parseActions actions mode with
    | .error diagnostic => return .error (.unreadable diagnostic)
    | .ok actions => return Draft.build { name, trigger, target, actions } |>.mapError .incompatible

/-- Writes something in a language and reads what was written. -/
def writeAndRead {α : Type} (write : Except RenderError String)
    (read : String → Timed (Except Diagnostic α)) (same : α → Bool) :
    Timed (Except RenderError Rendered) := do
  match write with
  | .error error => return .error error
  | .ok text =>
    match ← read text with
    | .ok again => return .ok ⟨text, same again⟩
    | .error _ => return .ok ⟨text, false⟩

/-- Writes a rule in a language and reads it back. -/
def translateRule (editor : Editor) (trigger : Trigger) (mode : Mode) :
    Timed (Except RenderError Rendered) :=
  writeAndRead (editor.renderRule trigger mode) (editor.parseRule · mode) (·.sameTrigger trigger)

/-- Writes an action list in a language and reads it back. -/
def translateActions (editor : Editor) (actions : List Action) (mode : Mode) :
    Timed (Except RenderError Rendered) :=
  writeAndRead (editor.renderActions actions mode) (editor.parseActions · mode)
    (Action.sameActions · actions)

end Editor

end ForumModeration
