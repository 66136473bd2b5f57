import ForumModeration.Grammar.Rule
import ForumModeration.Proofs.Grammar.Dates
import ForumModeration.Proofs.Grammar.Numbers

/-!
# `ForumModeration.Proofs.Grammar.Phrases`: the grammar as a definition

The grammar of rule text without a reader: which texts are phrases, what they mean,
and where they end. A phrase of kind `Phrase α` relates a text, the meaning of its
start, and the text that comes after. Every token may have blanks in front of it and
is written in any letter case (`TokenTable.Token`).

    rule      := or_expr blanks
    or_expr   := and_expr ((OR | XOR | XNOR | NOR) and_expr)*
    and_expr  := not_expr ((AND | NAND) not_expr)*
    not_expr  := NOT not_expr | '(' or_expr ')' | field operator value
    value     := string | date | relative time | number | truth | now | '[' values ']'

Nothing is said about the order in which alternatives are tried, about how far a
token reaches, or about when a choice is final. `depth` bounds how deep parentheses,
`NOT` and list brackets nest.

A run of one connective is one group, and another connective makes a new group around
what came before (`grouped`). `chain_eq_grouped` says that the groups are those that
the reader builds step by step.
-/

set_option autoImplicit false

namespace ForumModeration

open Text

/-- A text, what its start means, and what comes after. -/
abbrev Phrase (α : Type) := List Char → α → List Char → Prop

/-! ### Strings -/

/-- What stands between quotes and the text that it means. -/
inductive QuotedBody (mark : Char) : List Char → List Char → Prop where
  | nil : QuotedBody mark [] []
  | escape {written text : List Char} (c : Char) (more : QuotedBody mark written text) :
      QuotedBody mark ('\\' :: c :: written) (Quoted.decodeEscape c ++ text)
  | plain {c : Char} {written text : List Char} (noMark : c ≠ mark) (noEscape : c ≠ '\\')
      (more : QuotedBody mark written text) : QuotedBody mark (c :: written) (c :: text)

/-- What a string stands for: a date if one is wanted and the text is one up to blanks
at its ends, and itself otherwise. -/
inductive StringMeans (offset : Offset) (wantsDate : Bool) (text : List Char) : Value → Prop where
  | date {instant : Instant} (wanted : wantsDate = true)
      (date : AbsoluteDate offset (trim text) instant) :
      StringMeans offset wantsDate text (.instant instant)
  | itself (noDate : wantsDate = true → ∀ instant, ¬AbsoluteDate offset (trim text) instant) :
      StringMeans offset wantsDate text (.string (String.ofList text))

section

variable (table : TokenTable) (now : Instant)

/-! ### Values -/

/-- An amount, a unit and perhaps the word for "ago". -/
inductive RelativePhrase : Phrase Instant where
  | plain {run after rest : List Char} {unit : TimeUnit} {instant : Instant} (digits : Digits run)
      (bounded : numberOf run ≤ Grammar.maxAmount) (unit_ : table.Token (.unit unit) after rest)
      (counted : (Grammar.ofTable table now).backFromNow? unit (numberOf run) = some instant) :
      RelativePhrase (run ++ after) instant rest
  | ago {run after mid rest : List Char} {unit : TimeUnit} {instant : Instant} (digits : Digits run)
      (bounded : numberOf run ≤ Grammar.maxAmount) (unit_ : table.Token (.unit unit) after mid)
      (ago_ : table.Token .ago mid rest)
      (counted : (Grammar.ofTable table now).backFromNow? unit (numberOf run) = some instant) :
      RelativePhrase (run ++ after) instant rest

/-- A value other than a list, without blanks in front. -/
inductive BarePhrase (wantsDate : Bool) : Phrase Value where
  | string {mark : Char} {body text rest : List Char} {value : Value}
      (mark_ : mark = '\'' ∨ mark = '"') (body_ : QuotedBody mark body text)
      (means : StringMeans now.offset wantsDate text value) :
      BarePhrase wantsDate (mark :: (body ++ mark :: rest)) value rest
  | date {written rest : List Char} {instant : Instant}
      (date_ : AbsoluteDate now.offset written instant) :
      BarePhrase wantsDate (written ++ rest) (.instant instant) rest
  | relative {text rest : List Char} {instant : Instant}
      (relative_ : RelativePhrase table now text instant rest) :
      BarePhrase wantsDate text (.instant instant) rest
  | number {written rest : List Char} {value : Value} (number_ : NumberText written value)
      (boundary : Ahead (isIdent · = false) rest) :
      BarePhrase wantsDate (written ++ rest) value rest
  | truth {text rest : List Char} {b : Bool} (token : table.Token (.truth b) text rest) :
      BarePhrase wantsDate text (.bool b) rest
  | now {text rest : List Char} (token : table.Token .now text rest) :
      BarePhrase wantsDate text (.instant now) rest

/-- A value other than a list. -/
def ScalarPhrase (wantsDate : Bool) : Phrase Value := fun text value rest =>
  ∃ blanks body, text = blanks ++ body ∧ (∀ c ∈ blanks, isBlank c = true) ∧
    BarePhrase table now wantsDate body value rest

/-- Values with a separator in front of each. -/
inductive FurtherValues (item : Phrase Value) : Phrase (List Value) where
  | nil {text : List Char} : FurtherValues item text [] text
  | cons {text t1 t2 rest : List Char} {value : Value} {values : List Value}
      (comma : table.Token (.punctuation .comma) text t1) (first : item t1 value t2)
      (more : FurtherValues item t2 values rest) : FurtherValues item text (value :: values) rest

/-- Any number of values with separators between them. -/
inductive ValuesPhrase (item : Phrase Value) : Phrase (List Value) where
  | none {text : List Char} : ValuesPhrase item text [] text
  | some {text mid rest : List Char} {value : Value} {values : List Value}
      (first : item text value mid) (more : FurtherValues table item mid values rest) :
      ValuesPhrase item text (value :: values) rest

/-- Values between brackets. -/
inductive ListPhrase (item : Phrase Value) : Phrase Value where
  | mk {text t1 t2 rest : List Char} {values : List Value}
      (opening : table.Token (.punctuation .leftBracket) text t1)
      (items : ValuesPhrase table item t1 values t2)
      (closing : table.Token (.punctuation .rightBracket) t2 rest) :
      ListPhrase item text (.list values) rest

/-- A value with lists nested at most `depth` deep. -/
def ValuePhrase (wantsDate : Bool) : Nat → Phrase Value
  | 0 => ScalarPhrase table now wantsDate
  | depth + 1 => fun text value rest => ScalarPhrase table now wantsDate text value rest ∨
      ListPhrase table (ValuePhrase wantsDate depth) text value rest

/-! ### Triggers -/

/-- A field, an operator and a value. Membership needs a list. -/
inductive ConditionPhrase (depth : Nat) : Phrase Trigger where
  | mk {text t1 t2 rest : List Char} {field : Field} {operator : Operator} {value : Value}
      (field_ : table.Token (.field field) text t1)
      (operator_ : table.Token (.operator operator) t1 t2)
      (value_ : ValuePhrase table now field.isTime depth t2 value rest)
      (membership : operator = .among → value.isList = true) :
      ConditionPhrase depth text (.condition ⟨field, operator, value⟩) rest

/-- The trigger of operands with connectives between them. A run of one connective is
one group, and the groups nest to the left. -/
def grouped (first : Trigger) : List (Connective × Trigger) → Trigger
  | [] => first
  | (connective, second) :: others =>
    grouped (.group connective (first :: second ::
        (others.takeWhile (·.1 = connective)).map (·.2)))
      (others.dropWhile (·.1 = connective))
termination_by others => others.length
decreasing_by
  have := (List.dropWhile_suffix (fun o : Connective × Trigger => o.1 = connective)
    (l := others)).length_le
  simp only [List.length_cons]
  omega

/-- Operands with a connective of a tier in front of each. -/
inductive FurtherOperands (tier : List Connective) (operand : Phrase Trigger) :
    Phrase (List (Connective × Trigger)) where
  | nil {text : List Char} : FurtherOperands tier operand text [] text
  | cons {text t1 t2 rest : List Char} {connective : Connective} {trigger : Trigger}
      {others : List (Connective × Trigger)} (member : connective ∈ tier)
      (connective_ : table.Token (.connective connective) text t1)
      (operand_ : operand t1 trigger t2) (more : FurtherOperands tier operand t2 others rest) :
      FurtherOperands tier operand text ((connective, trigger) :: others) rest

/-- Operands with connectives of one tier between them. -/
inductive TierPhrase (tier : List Connective) (operand : Phrase Trigger) : Phrase Trigger where
  | mk {text mid rest : List Char} {first : Trigger} {others : List (Connective × Trigger)}
      (first_ : operand text first mid)
      (more : FurtherOperands table tier operand mid others rest) :
      TierPhrase tier operand text (grouped first others) rest

/-- One operand is a tier. -/
theorem TierPhrase.single {table : TokenTable} {tier : List Connective}
    {operand : Phrase Trigger} {text rest : List Char} {trigger : Trigger}
    (h : operand text trigger rest) : TierPhrase table tier operand text trigger rest := by
  have one := @TierPhrase.mk table tier operand _ _ _ _ _ h .nil
  rw [grouped] at one
  exact one

/-- Operands under both tiers. `AND` and `NAND` bind tighter than the others. -/
def TiersPhrase (operand : Phrase Trigger) : Phrase Trigger :=
  TierPhrase table [.or, .nor, .xor, .xnor] (TierPhrase table [.and, .nand] operand)

/-- `NOT` and what it negates. -/
inductive NegationPhrase (operand : Phrase Trigger) : Phrase Trigger where
  | mk {text mid rest : List Char} {trigger : Trigger}
      (not_ : table.Token (.connective .not) text mid) (operand_ : operand mid trigger rest) :
      NegationPhrase operand text trigger.negate rest

/-- Parentheses and what they hold. -/
inductive ParenthesesPhrase (inner : Phrase Trigger) : Phrase Trigger where
  | mk {text t1 t2 rest : List Char} {trigger : Trigger}
      (opening : table.Token (.punctuation .leftParen) text t1) (inner_ : inner t1 trigger t2)
      (closing : table.Token (.punctuation .rightParen) t2 rest) :
      ParenthesesPhrase inner text trigger rest

/-- An operand that nests at most `depth` deep. -/
def OperandPhrase : Nat → Phrase Trigger
  | 0 => ConditionPhrase table now 0
  | depth + 1 => fun text trigger rest =>
    ConditionPhrase table now (depth + 1) text trigger rest ∨
      NegationPhrase table (OperandPhrase depth) text trigger rest ∨
      ParenthesesPhrase table (TiersPhrase table (OperandPhrase depth)) text trigger rest

/-- A whole text that is a rule, nested at most `depth` deep. -/
def RulePhrase (depth : Nat) (text : List Char) (trigger : Trigger) : Prop :=
  ∃ rest, TiersPhrase table (OperandPhrase table now depth) text trigger rest ∧
    ∀ c ∈ rest, isBlank c = true

end

/-! ### Groups are built step by step -/

namespace Grammar

/-- The reader is at a group it has built itself. The operands that follow with the
same connective become children, and the first other one makes a new group. -/
private theorem foldl_add_group (connective : Connective) (children : List Trigger)
    (others : List (Connective × Trigger)) :
    (others.foldl Chain.add ⟨.group connective children, some connective⟩).trigger
      = grouped (.group connective (children ++
          (others.takeWhile (·.1 = connective)).map (·.2)))
        (others.dropWhile (·.1 = connective)) := by
  -- By induction on the operands that follow; the group grows with each of its connective.
  induction others generalizing connective children with
  | nil => simp [grouped]
  | cons operand others ih =>
    obtain ⟨next, trigger⟩ := operand
    rw [List.foldl_cons]
    by_cases same : next = connective
    · subst same
      have step : Chain.add ⟨.group next children, some next⟩ (next, trigger)
          = ⟨.group next (children ++ [trigger]), some next⟩ := by
        simp [Chain.add]
      rw [step, ih]
      simp
    · have step : Chain.add ⟨.group connective children, some connective⟩ (next, trigger)
          = ⟨.group next [.group connective children, trigger], some next⟩ := by
        simp [Chain.add, Ne.symm same]
      rw [step, ih]
      simp [same, grouped]

/-- The groups that the reader builds are the runs of one connective. -/
theorem chain_eq_grouped (first : Trigger) (others : List (Connective × Trigger)) :
    chain first others = grouped first others := by
  cases others with
  | nil => simp [chain, grouped]
  | cons operand others =>
    obtain ⟨connective, second⟩ := operand
    have step : Chain.add ⟨first, none⟩ (connective, second)
        = ⟨.group connective [first, second], some connective⟩ := by
      cases first <;> simp [Chain.add]
    rw [chain, List.foldl_cons, step, foldl_add_group, grouped]
    rfl

end Grammar

end ForumModeration
