import ForumModeration.Grammar.Rule
import ForumModeration.Proofs.Grammar.Readers
import ForumModeration.Proofs.Grammar.Tokens

/-!
# `ForumModeration.Proofs.Grammar.Levels`: how many levels a reading costs

Readers of operands and literals are families indexed by the levels of nesting that
are left. `Costs p n text a rest` says all there is to say about such a family at one
text: with `n` levels or more it reads `a` and leaves `rest`, and with fewer it refuses
for nesting too deep (`TooDeep`). The cost is exact, so one derivation of `Costs`
settles both where a text is accepted and where it is refused.

* `Costs.bind`: a sequence costs the maximum of its parts, because levels are given
  back when a bracket is closed.
* `Costs.deeper`: going into brackets costs one level more.
* `Costs.list`, `Costs.condition`, `Costs.negation`, `Costs.parentheses`, `Costs.tier`:
  one rule for each production of the grammar.
-/

set_option autoImplicit false

namespace ForumModeration.Grammar

open Text ForumModeration.Parser

variable {α β : Type}

/-- Refused because nothing may nest any deeper. -/
def TooDeep (result : Except Failure (α × List Char)) : Prop :=
  ∃ stop, result = .error ⟨stop, some (.requirement .shallowerNesting), true⟩

/-- What a family of readers does at a text: with `n` levels left it reads `a` up to
`rest`, with fewer it refuses. -/
structure Costs (p : Nat → Parser α) (n : Nat) (text : List Char) (a : α) (rest : List Char) :
    Prop where
  reads : ∀ depth, n ≤ depth → p depth text = .ok (a, rest)
  refuses : ∀ depth, depth < n → TooDeep (p depth text)
  shorter : rest.length ≤ text.length

/-- The reader inside brackets, which has one level less. -/
def deeper (p : Nat → Parser α) : Nat → Parser α
  | 0 => reject .shallowerNesting
  | depth + 1 => p depth

namespace Costs

variable {p q : Nat → Parser α} {f : Nat → α → Parser β} {n m : Nat}
  {text mid rest : List Char} {a : α} {b : β}

/-! ### Readers in general -/

/-- A reader that does not nest costs nothing. -/
theorem const {r : Parser α} (h : r text = .ok (a, rest)) (shorter : rest.length ≤ text.length) :
    Costs (fun _ => r) 0 text a rest where
  reads := fun _ _ => h
  refuses := fun _ below => absurd below (Nat.not_lt_zero _)
  shorter := shorter

theorem congr (h : Costs p n text a rest) (same : ∀ depth, q depth text = p depth text) :
    Costs q n text a rest where
  reads := fun depth enough => by rw [same, h.reads depth enough]
  refuses := fun depth below => by rw [same]; exact h.refuses depth below
  shorter := h.shorter

/-- A sequence costs what its costlier part costs. -/
theorem bind (first : Costs p n text a mid) (second : Costs (fun d => f d a) m mid b rest) :
    Costs (fun d => p d >>= f d) (max n m) text b rest where
  reads := by
    intro depth enough
    show (p depth >>= f depth) text = _
    rw [bind_of_ok (first.reads depth (by omega))]
    exact second.reads depth (by omega)
  refuses := by
    intro depth below
    -- The refusal is that of the first part, if that has too few levels.
    by_cases early : depth < n
    · obtain ⟨stop, failed⟩ := first.refuses depth early
      exact ⟨stop, bind_of_error failed⟩
    · obtain ⟨stop, failed⟩ := second.refuses depth (by omega)
      refine ⟨stop, ?_⟩
      show (p depth >>= f depth) text = _
      rw [bind_of_ok (first.reads depth (by omega))]
      exact failed
  shorter := Nat.le_trans second.shorter first.shorter

/-- What comes first does not nest. -/
theorem after {r : Parser α} (first : r text = .ok (a, mid)) (shorter : mid.length ≤ text.length)
    (second : Costs (fun d => f d a) m mid b rest) :
    Costs (fun d => r >>= f d) m text b rest := by
  have := (const first shorter).bind (f := f) second
  rwa [Nat.zero_max] at this

/-- What comes last does not nest. -/
theorem before (first : Costs p n text a mid) (second : ∀ d, f d a mid = .ok (b, rest))
    (shorter : rest.length ≤ mid.length) : Costs (fun d => p d >>= f d) n text b rest := by
  have last : Costs (fun d => f d a) 0 mid b rest :=
    ⟨fun d _ => second d, fun _ below => absurd below (Nat.not_lt_zero _), shorter⟩
  have := first.bind last
  rwa [Nat.max_zero] at this

theorem map (h : Costs p n text a rest) (g : α → β) :
    Costs (fun d => g <$> p d) n text (g a) rest :=
  h.before (fun _ => rfl) (Nat.le_refl _)

theorem orElse_left (h : Costs p n text a rest) : Costs (fun d => (p d).orElse (q d)) n text a rest
    where
  reads := fun depth enough => orElse_of_ok (h.reads depth enough)
  refuses := by
    intro depth below
    obtain ⟨stop, failed⟩ := h.refuses depth below
    exact ⟨stop, orElse_of_final failed rfl⟩
  shorter := h.shorter

theorem orElse_right (declines : ∀ depth, (p depth).Declines text) (h : Costs q n text a rest) :
    Costs (fun d => (p d).orElse (q d)) n text a rest :=
  h.congr fun depth => (declines depth).orElse_eq

theorem optional_some (h : Costs p n text a rest) :
    Costs (fun d => (p d).optional) n text (some a) rest where
  reads := fun depth enough => optional_of_ok (h.reads depth enough)
  refuses := by
    intro depth below
    obtain ⟨stop, failed⟩ := h.refuses depth below
    exact ⟨stop, optional_of_final failed rfl⟩
  shorter := h.shorter

theorem commit (h : Costs p n text a rest) : Costs (fun d => commit (p d)) n text a rest where
  reads := fun depth enough => commit_eq_ok.mpr (h.reads depth enough)
  refuses := by
    intro depth below
    obtain ⟨stop, failed⟩ := h.refuses depth below
    exact ⟨stop, commit_of_error failed⟩
  shorter := h.shorter

/-- A refusal says already what was needed. -/
theorem expecting (h : Costs p n text a rest) (what : Expectation) :
    Costs (fun d => (p d).expecting what) n text a rest where
  reads := fun depth enough => expecting_eq_ok.mpr (h.reads depth enough)
  refuses := by
    intro depth below
    obtain ⟨stop, failed⟩ := h.refuses depth below
    exact ⟨stop, expecting_of_error failed⟩
  shorter := h.shorter

/-- Going into brackets costs one level. -/
theorem deeper (h : Costs p n text a rest) : Costs (Grammar.deeper p) (n + 1) text a rest where
  reads := by
    intro depth enough
    obtain ⟨d, rfl⟩ : ∃ d, depth = d + 1 := ⟨depth - 1, by omega⟩
    exact h.reads d (by omega)
  refuses := by
    intro depth below
    cases depth with
    | zero => exact ⟨text, rfl⟩
    | succ depth => exact h.refuses depth (by omega)
  shorter := h.shorter

/-- A repetition ends where the reader declines. -/
theorem many_nil (declines : ∀ depth, (p depth).Declines text) :
    Costs (fun d => many (p d)) 0 text [] text where
  reads := by
    intro depth _
    obtain ⟨failure, failed, soft⟩ := declines depth
    exact many_of_error failed soft
  refuses := fun _ below => absurd below (Nat.not_lt_zero _)
  shorter := Nat.le_refl _

/-- A repetition costs what its costliest reading costs. -/
theorem many_cons {others : List α} (first : Costs p n text a mid) (less : mid.length < text.length)
    (more : Costs (fun d => many (p d)) m mid others rest) :
    Costs (fun d => many (p d)) (max n m) text (a :: others) rest where
  reads := by
    intro depth enough
    exact many_of_ok (first.reads depth (by omega)) less (more.reads depth (by omega))
  refuses := by
    intro depth below
    show TooDeep (many (p depth) text)
    rw [many]
    -- As in a sequence, the first reading refuses before the others do.
    by_cases early : depth < n
    · obtain ⟨stop, failed⟩ := first.refuses depth early
      rw [failed]
      exact ⟨stop, rfl⟩
    · obtain ⟨stop, failed⟩ := more.refuses depth (by omega)
      rw [first.reads depth (by omega)]
      simp only [less, if_true]
      refine ⟨stop, ?_⟩
      rw [show many (p depth) mid = _ from failed]
  shorter := Nat.le_trans more.shorter first.shorter

end Costs

section Productions

variable {g : Grammar} {table : TokenTable} {text t1 t2 rest : List Char} {n m : Nat}

/-- What `pick` leaves is shorter than what it was given. -/
theorem pick_length_lt {wanted : Symbol → Option α} {a : α} (hg : g.lexicon = table.lexicon)
    (h : g.pick wanted text = .ok (a, rest)) : rest.length < text.length := by
  obtain ⟨_, _, token⟩ := token_of_pick hg h
  exact token.length_lt

theorem sign_length_lt {p : Punctuation} (hg : g.lexicon = table.lexicon)
    (h : g.sign p text = .ok ((), rest)) : rest.length < text.length := by
  rw [sign_eq] at h
  exact pick_length_lt hg h

/-- Tokens are read after blanks in any case. -/
theorem pick_skipBlanks {wanted : Symbol → Option α} :
    g.pick wanted (skipBlanks text) = g.pick wanted text := by
  unfold pick
  rw [skipBlanks_skipBlanks]

/-! ### Literals -/

/-- The readers of a list's items. -/
def itemsOf (g : Grammar) (wantsDate : Bool) (depth : Nat) : Parser (List Value) :=
  separatedOrNone (g.literal wantsDate depth) (g.sign .comma)

/-- A separator and the item after it. -/
def furtherItem (g : Grammar) (wantsDate : Bool) (depth : Nat) : Parser Value := do
  let _ ← g.sign .comma
  g.literal wantsDate depth

/-- The three ways to read a literal, at a text without blanks in front. -/
def literalBody (g : Grammar) (wantsDate : Bool) (depth : Nat) : Parser Value :=
  orElse (g.quotedLiteral wantsDate) <|
    orElse (g.listOf (deeper (itemsOf g wantsDate) depth)) g.bareLiteral

theorem literal_eq (g : Grammar) (wantsDate : Bool) (depth : Nat) :
    g.literal wantsDate depth = (do blanks; literalBody g wantsDate depth) := by
  cases depth <;> rfl

/-- Blanks in front of a literal do not matter. -/
theorem literal_apply (g : Grammar) (wantsDate : Bool) (depth : Nat) (text : List Char) :
    g.literal wantsDate depth text = literalBody g wantsDate depth (skipBlanks text) := by
  rw [literal_eq]
  exact bind_of_ok (show blanks text = .ok ((), skipBlanks text) from rfl)

theorem literal_skipBlanks (g : Grammar) (wantsDate : Bool) (depth : Nat) (text : List Char) :
    g.literal wantsDate depth (skipBlanks text) = g.literal wantsDate depth text := by
  rw [literal_apply, literal_apply, skipBlanks_skipBlanks]

variable {wantsDate : Bool} {value : Value} {items : List Value}

namespace Costs

theorem of_body (h : Costs (literalBody g wantsDate) n (skipBlanks text) value rest) :
    Costs (g.literal wantsDate) n text value rest where
  reads := fun depth enough => by rw [literal_apply, h.reads depth enough]
  refuses := fun depth below => by rw [literal_apply]; exact h.refuses depth below
  shorter := Nat.le_trans h.shorter (skipBlanks_length_le text)

/-- A literal between quotes. -/
theorem quoted (read : g.quotedLiteral wantsDate (skipBlanks text) = .ok (value, rest))
    (shorter : rest.length ≤ (skipBlanks text).length) :
    Costs (g.literal wantsDate) 0 text value rest :=
  of_body (Costs.orElse_left (Costs.const read shorter))

/-- A literal without quotes and brackets. -/
theorem bare (noQuote : (g.quotedLiteral wantsDate).Declines (skipBlanks text))
    (noBracket : (g.sign .leftBracket).Declines (skipBlanks text))
    (read : g.bareLiteral (skipBlanks text) = .ok (value, rest))
    (shorter : rest.length ≤ (skipBlanks text).length) :
    Costs (g.literal wantsDate) 0 text value rest :=
  of_body (Costs.orElse_right (fun _ => noQuote) (Costs.orElse_right (fun _ => noBracket.bind)
    (Costs.const read shorter)))

/-- A list costs one level more than its items. -/
theorem list (hg : g.lexicon = table.lexicon)
    (noQuote : (g.quotedLiteral wantsDate).Declines (skipBlanks text))
    (opening : g.sign .leftBracket (skipBlanks text) = .ok ((), t1))
    (inside : Costs (itemsOf g wantsDate) n t1 items t2)
    (closing : g.sign .rightBracket t2 = .ok ((), rest)) :
    Costs (g.literal wantsDate) (n + 1) text (.list items) rest := by
  have bracket : Costs (fun d => g.listOf (Grammar.deeper (itemsOf g wantsDate) d)) (n + 1)
      (skipBlanks text) (.list items) rest := by
    refine Costs.after opening (sign_length_lt hg opening).le ?_
    refine inside.deeper.before ?_ (sign_length_lt hg closing).le
    intro _
    rw [bind_of_ok (required_eq_ok.mpr closing)]
    rfl
  exact of_body (Costs.orElse_right (fun _ => noQuote) (Costs.orElse_left bracket))

/-- A list may have no items. -/
theorem items_nil (none : ∀ depth, (g.literal wantsDate depth).Declines text) :
    Costs (itemsOf g wantsDate) 0 text [] text where
  reads := fun depth _ => bind_of_ok (none depth).optional
  refuses := fun _ below => absurd below (Nat.not_lt_zero _)
  shorter := Nat.le_refl _

/-- The items of a list cost what the costliest item costs. -/
theorem items_cons (first : Costs (g.literal wantsDate) n text value t1)
    (more : Costs (fun d => many (furtherItem g wantsDate d)) m t1 items rest) :
    Costs (itemsOf g wantsDate) (max n m) text (value :: items) rest := by
  have both := first.optional_some.bind (f := fun d read => match read with
    | none => pure []
    | some first => (fun others => first :: others) <$> many (Grammar.furtherItem g wantsDate d))
    (more.map (value :: ·))
  -- The reader of items makes its choice once the first item is there.
  refine both.congr fun depth => congrFun (congrArg (_ >>= ·) (funext ?_)) text
  intro read
  cases read <;> rfl

/-- An item after a separator. -/
theorem furtherItem (hg : g.lexicon = table.lexicon) (comma : g.sign .comma text = .ok ((), t1))
    (item : Costs (g.literal wantsDate) n t1 value rest) :
    Costs (Grammar.furtherItem g wantsDate) n text value rest :=
  Costs.after comma (sign_length_lt hg comma).le item

/-! ### Triggers -/

variable {field : Field} {operator : Operator} {first trigger : Trigger}
  {others : List (Connective × Trigger)} {connective : Connective}

/-- A condition costs what its value costs. -/
theorem condition (hg : g.lexicon = table.lexicon) (hfield : g.field text = .ok (field, t1))
    (hoperator : g.operator t1 = .ok (operator, t2))
    (hvalue : Costs (g.literal field.isTime) n t2 value rest)
    (membership : operator = .among → value.isList = true) :
    Costs g.condition n text (.condition ⟨field, operator, value⟩) rest := by
  rw [field_eq] at hfield
  rw [operator_eq] at hoperator
  refine Costs.after (expecting_eq_ok.mpr hfield) (pick_length_lt hg hfield).le ?_
  refine Costs.after (expecting_eq_ok.mpr (commit_eq_ok.mpr hoperator))
    (pick_length_lt hg hoperator).le ?_
  -- The place where the value starts is needed for a refusal, so the value is read by hand.
  have value_ := hvalue.commit.expecting (.word .literal)
  have same : ∀ depth, ((g.literal field.isTime depth).commit.expecting (.word .literal))
      (skipBlanks t2) = ((g.literal field.isTime depth).commit.expecting (.word .literal)) t2 := by
    intro depth
    unfold Parser.expecting Parser.commit
    rw [literal_skipBlanks]
  have notRefused : ¬(operator = .among ∧ ¬value.isList = true) := by
    rintro ⟨among, noList⟩
    exact noList (membership among)
  refine ⟨?_, ?_, hvalue.shorter⟩
  · intro depth enough
    show ((g.literal field.isTime depth).commit.expecting (.word .literal) (skipBlanks t2) >>=
      fun read => if operator = Operator.among ∧ ¬read.1.isList = true
        then reject .listAfterIn (skipBlanks t2)
        else Except.ok (Trigger.condition ⟨field, operator, read.1⟩, read.2)) = _
    rw [same, value_.reads depth enough]
    exact if_neg notRefused
  · intro depth below
    obtain ⟨stop, failed⟩ := value_.refuses depth below
    refine ⟨stop, ?_⟩
    show ((g.literal field.isTime depth).commit.expecting (.word .literal) (skipBlanks t2) >>=
      fun read => if operator = Operator.among ∧ ¬read.1.isList = true
        then reject .listAfterIn (skipBlanks t2)
        else Except.ok (Trigger.condition ⟨field, operator, read.1⟩, read.2)) = _
    rw [same, failed]
    rfl

end Costs

/-- The readers of an operand: what is negated and what stands in parentheses is one
level deeper. -/
theorem operand_eq (g : Grammar) (depth : Nat) :
    g.operand depth = g.operandWith depth (deeper (fun d => commit (g.operand d)) depth)
      (deeper (fun d => commit (g.tiers (g.operand d))) depth) := by
  cases depth <;> rfl

namespace Costs

variable {field : Field} {operator : Operator} {first trigger : Trigger}
  {others : List (Connective × Trigger)} {connective : Connective}

/-- Where no `NOT` stands, an operand is in parentheses or a condition. -/
private theorem notNegated (none : (g.connective Connective.isUnary).Declines text)
    (h : Costs (fun d => orElse
      (g.parenthesized (Grammar.deeper (fun d => Parser.commit (g.tiers (g.operand d))) d))
      (g.condition d)) n text trigger rest) : Costs g.operand n text trigger rest := by
  refine h.congr ?_
  intro depth
  rw [operand_eq, operandWith, bind_of_ok none.optional]

/-- A negation costs one level more than what it negates. -/
theorem negation (hg : g.lexicon = table.lexicon)
    (hnot : g.connective Connective.isUnary text = .ok (.not, t1))
    (h : Costs g.operand n t1 trigger rest) :
    Costs g.operand (n + 1) text trigger.negate rest := by
  have inner := (h.commit.deeper).map Trigger.negate
  have shorter : t1.length ≤ text.length := by
    rw [connective_eq] at hnot
    exact (pick_length_lt hg hnot).le
  refine (Costs.after (f := fun _ _ => _) (optional_of_ok hnot) shorter inner).congr ?_
  intro depth
  rw [operand_eq, operandWith, bind_of_ok (optional_of_ok hnot), bind_of_ok (optional_of_ok hnot)]

/-- Parentheses cost one level more than what they hold. -/
theorem parentheses (hg : g.lexicon = table.lexicon)
    (none : (g.connective Connective.isUnary).Declines text)
    (opening : g.sign .leftParen text = .ok ((), t1))
    (inside : Costs (fun d => g.tiers (g.operand d)) n t1 trigger t2)
    (closing : g.sign .rightParen t2 = .ok ((), rest)) :
    Costs g.operand (n + 1) text trigger rest := by
  refine notNegated none (Costs.orElse_left ?_)
  refine Costs.after opening (sign_length_lt hg opening).le ?_
  refine inside.commit.deeper.before ?_ (sign_length_lt hg closing).le
  intro _
  rw [bind_of_ok (required_eq_ok.mpr closing)]
  rfl

/-- A condition as an operand. -/
theorem operand_condition (noNot : (g.connective Connective.isUnary).Declines text)
    (noParen : (g.sign .leftParen).Declines text) (h : Costs g.condition n text trigger rest) :
    Costs g.operand n text trigger rest :=
  notNegated noNot (Costs.orElse_right (fun _ => noParen.bind) h)

variable {accepts : Connective → Bool} {operand : Nat → Parser Trigger}

/-- A connective with its right operand costs what the operand costs. -/
theorem continuation (hg : g.lexicon = table.lexicon) (strict : g.lenient = false)
    (hconnective : g.connective accepts text = .ok (connective, t1))
    (h : Costs operand n t1 trigger rest) :
    Costs (fun d => g.continuation accepts (operand d)) n text (connective, trigger) rest := by
  have shorter : t1.length ≤ text.length := by
    rw [connective_eq] at hconnective
    exact (pick_length_lt hg hconnective).le
  refine Costs.after hconnective shorter ?_
  have right : Costs (fun d => g.rightOperand (operand d)) n t1 trigger rest := by
    refine h.commit.congr ?_
    intro depth
    rw [rightOperand, strict]
    rfl
  exact right.map (connective, ·)

/-- Operands of one tier cost what the costliest of them costs. -/
theorem tier (h : Costs operand n text first t1)
    (more : Costs (fun d => many (g.continuation accepts (operand d))) m t1 others rest) :
    Costs (fun d => g.tier accepts (operand d)) (max n m) text (chain first others) rest :=
  h.bind (more.map (chain first))

/-- One operand, which no connective follows, is a tier. -/
theorem single (h : Costs operand n text trigger rest)
    (stop : (g.connective accepts).Declines rest) :
    Costs (fun d => g.tier accepts (operand d)) n text trigger rest := by
  have tier := Costs.tier h (many_nil fun _ => Declines.bind stop)
  rw [Nat.max_zero] at tier
  exact tier

end Costs

end Productions

end ForumModeration.Grammar
