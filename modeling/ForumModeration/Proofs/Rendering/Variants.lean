import ForumModeration.Proofs.Grammar.Precedence
import ForumModeration.Proofs.Rendering.Lexemes

/-!
# `ForumModeration.Proofs.Rendering.Variants`: other ways to write a rule

The lexemes of a rule may be spelled in other ways than a renderer spells them
(`Renderer.Spells`): a token in any spelling that the table lists and in any letter case, a
string between quotes of either kind. If something blank stands between every two lexemes
(`Parted`), no longest match can reach across it, so what was written is read whatever the
spellings are.

* `trigger_reads`: by induction over the trigger, as in `Rendering/Triggers.lean`, a
  variant is read as an operand (`ReadsOperand`) and as a rule (`ReadsRule`).
* `rule_of_variant`: a variant of a whole rule is read as the rule, if there are enough
  levels of nesting for it.
-/

set_option autoImplicit false

namespace ForumModeration

open Text ForumModeration.Grammar

/-- A text that starts with a blank or is over. -/
def Parted (text : List Char) : Prop :=
  Ahead (isBlank · = true) text

theorem Parted.loose {text : List Char} (h : Parted text) : Ahead (isIdent · = false) text :=
  h.imp fun _ => isIdent_eq_false_of_isBlank

/-- A blank ends every word. -/
theorem Parted.boundary {token text : List Char} (h : Parted text) :
    RespectsBoundary token text :=
  fun _ c first => ⟨h.loose c first,
    ne_of_startsNoToken (startsNoToken_of_isBlank (h c first)) (by decide)⟩

namespace Renderer

/-- The ways to spell a lexeme: a token as the table lists it in any letter case, a string
between quotes of either kind with its escapes, and any literal as the renderer writes it. -/
inductive Spells (r : Renderer) : Lexeme → List Char → Prop where
  | token {symbol : Symbol} {spelling written : List Char}
      (listed : r.table.Spells symbol spelling) (same : lower written = lower spelling) :
      Spells r (.token symbol) written
  | string {mark : Char} {body : List Char} {text : String} (mark_ : mark = '\'' ∨ mark = '"')
      (body_ : QuotedBody mark body text.toList) :
      Spells r (.literal (.string text)) (mark :: (body ++ [mark]))
  | written {value : Value} {text : List Char} (h : r.value value = .ok text) :
      Spells r (.literal value) text

/-- A text starts with lexemes, each in one of its spellings and with blanks around it, and
`rest` comes after them. -/
abbrev Varies (r : Renderer) : List Lexeme → List Char → List Char → Prop :=
  Composed r.Spells Parted

variable {r : Renderer} {now : Instant} {wantsDate : Bool} {text rest : List Char}
  {lexemes : List Lexeme}

/-! ### Single lexemes -/

/-- The token of a symbol comes first. -/
theorem Varies.token {symbol : Symbol} (h : r.Varies (.token symbol :: lexemes) text rest) :
    ∃ mid, r.table.Token symbol text mid ∧ Parted mid ∧ r.Varies lexemes mid rest := by
  cases h with
  | @cons _ _ blanks written mid _ blank spelled gap more =>
    cases spelled with
    | token listed same =>
      refine ⟨mid, ⟨blanks, written, _, ?_, blank, listed, same, gap.boundary⟩, gap, more⟩
      rw [List.append_assoc]

/-- One token is all there is. -/
theorem Varies.one {symbol : Symbol} (h : r.Varies [.token symbol] text rest) :
    r.table.Token symbol text rest ∧ Parted rest := by
  obtain ⟨mid, token, gap, nothing⟩ := h.token
  cases nothing
  exact ⟨token, gap⟩

/-- A token in front of a blank is read where its symbol is wanted. -/
theorem sign_of_token (legible : r.table.Legible) (contained : r.table.Contained)
    {p : Punctuation} (token : r.table.Token (.punctuation p) text rest) (gap : Parted rest) :
    (ofTable r.table now).sign p text = .ok ((), rest) := by
  rw [sign_eq]
  refine pick_before_blank rfl legible contained (by simp [exactly]) ?_ gap token
  intro t want
  rw [eq_of_exactly want]
  exact alike_self _

theorem connective_of_token (legible : r.table.Legible) (contained : r.table.Contained)
    {connective : Connective} {accepts : Connective → Bool} (accepted : accepts connective = true)
    (tier : ∀ d, accepts d = true → (Symbol.connective connective).alike (.connective d) = true)
    (token : r.table.Token (.connective connective) text rest) (gap : Parted rest) :
    (ofTable r.table now).connective accepts text = .ok (connective, rest) := by
  rw [connective_eq]
  refine pick_before_blank rfl legible contained (by simp [connectiveOf, accepted]) ?_ gap token
  intro t want
  obtain ⟨d, rfl, accepted'⟩ := accepts_of_connectiveOf want
  exact tier d accepted'

/-! ### Values -/

/-- A literal that is no word is read in each of its spellings. -/
private theorem literal_reads (legible : r.table.Legible) (writable : r.table.Writable)
    (offset : now.offset = r.offset) {v : Value} (noList : v.isList = false)
    (recoverable : v.Recoverable r.offset wantsDate) {blanks written : List Char}
    (blank : ∀ c ∈ blanks, isBlank c = true) (spelled : r.Spells (.literal v) written)
    (gap : Parted rest) (ends : Ends r.table rest) :
    Costs ((ofTable r.table now).literal wantsDate) v.levels (blanks ++ (written ++ rest))
      (v.shownIn r.offset) rest := by
  cases spelled with
  | @string mark body text mark_ body_ =>
    have notBlank : isBlank mark = false := by rcases mark_ with rfl | rfl <;> decide
    have start : skipBlanks (blanks ++ (mark :: (body ++ [mark]) ++ rest))
        = mark :: (body ++ mark :: rest) := by
      rw [skipBlanks_append_of_blank blank, List.cons_append, skipBlanks_eq_of_not_blank notBlank,
        List.append_assoc, List.singleton_append]
    have means : StringMeans (ofTable r.table now).now.offset wantsDate text.toList
        (.string (String.ofList text.toList)) :=
      .itself fun wanted instant date => recoverable wanted instant (offset ▸ date)
    rw [String.ofList_toList] at means
    exact Costs.string start mark_ body_ means
  | written h =>
    obtain ⟨text, written', recovers⟩ := scalar_recovers legible writable offset noList recoverable
    obtain rfl : text = written := Except.ok.inj (written'.symm.trans h)
    exact recovers.costs blanks rest blank ends gap.loose

/-- Values with commas in front of them are read, up to the bracket behind them. -/
private theorem furtherValues_read (legible : r.table.Legible) (contained : r.table.Contained)
    {items : List Value}
    (reads : ∀ item ∈ items, ∀ {text rest}, r.Varies item.lexemes text rest →
      Ends r.table rest → Costs ((ofTable r.table now).literal wantsDate) item.levels text
        (item.shownIn r.offset) rest)
    (varies : r.Varies (Value.furtherLexemes items ++ [.token (.punctuation .rightBracket)])
      text rest) :
    Ends r.table text ∧ ∃ mid,
      Costs (fun d => Parser.many (furtherItem (ofTable r.table now) wantsDate d))
        (Value.levelsOf items) text (items.map (Value.shownIn r.offset)) mid ∧
      r.table.Token (.punctuation .rightBracket) mid rest ∧ Parted rest := by
  -- By induction on the items: behind each stands the next comma or the bracket.
  induction items generalizing text with
  | nil =>
    obtain ⟨closing, gap⟩ := varies.one
    have noComma : ((ofTable r.table now).sign .comma).Declines text :=
      symbol_declines_at rfl legible closing rfl
    exact ⟨.inr ⟨_, _, rfl, closing⟩, text,
      Costs.many_nil fun _ => Parser.Declines.bind noComma, closing, gap⟩
  | cons item items ih =>
    rw [Value.furtherLexemes, List.cons_append, List.append_assoc] at varies
    obtain ⟨t1, comma, gap, varies⟩ := varies.token
    obtain ⟨t2, first, more⟩ := varies.split
    obtain ⟨ends, mid, further, closing⟩ :=
      ih (fun item mem => reads item (List.mem_cons_of_mem _ mem)) more
    have literal := reads item (by simp) first ends
    have one := Costs.furtherItem rfl (sign_of_token legible contained comma gap) literal
    exact ⟨.inr ⟨_, _, rfl, comma⟩, mid,
      one.many_cons (Nat.lt_of_le_of_lt literal.shorter comma.length_lt) further, closing⟩

/-- A value is read in each of its spellings. -/
theorem value_reads (legible : r.table.Legible) (contained : r.table.Contained)
    (writable : r.table.Writable) (offset : now.offset = r.offset) {v : Value}
    (recoverable : ∀ s ∈ v.scalars, s.Recoverable r.offset wantsDate)
    (varies : r.Varies v.lexemes text rest) (ends : Ends r.table rest) :
    Costs ((ofTable r.table now).literal wantsDate) v.levels text (v.shownIn r.offset) rest := by
  induction v using Value.induction generalizing text rest with
  | scalar v noList =>
    have scalar := recoverable v (by rw [Value.scalars_of_isList noList]; simp)
    have other : r.Varies [.literal v] text rest → Costs ((ofTable r.table now).literal wantsDate)
        v.levels text (v.shownIn r.offset) rest := by
      rintro (_ | ⟨blank, spelled, gap, _ | _⟩)
      exact literal_reads legible writable offset noList scalar blank spelled gap ends
    cases v with
    | bool truth =>
      obtain ⟨token, gap⟩ := varies.one
      refine Costs.truth rfl legible token ?_
      rw [truth_eq]
      exact pick_before_blank rfl legible contained rfl (fun _ => alike_of_truthOf) gap token
    | list items => cases noList
    | _ => exact other varies
  | list items ih =>
    rw [Value.scalars_list] at recoverable
    have each : ∀ item ∈ items, ∀ {text rest}, r.Varies item.lexemes text rest →
        Ends r.table rest → Costs ((ofTable r.table now).literal wantsDate) item.levels text
          (item.shownIn r.offset) rest :=
      fun item mem _ _ => ih item mem
        fun s found => recoverable s (List.mem_flatMap.mpr ⟨item, mem, found⟩)
    rw [Value.shownIn_list]
    -- The bracket comes first in either case, and what it holds stands behind it.
    have bracketed : ∀ {n t1 t2}, r.table.Token (.punctuation .leftBracket) text t1 → Parted t1 →
        Costs (itemsOf (ofTable r.table now) wantsDate) n t1 (items.map (Value.shownIn r.offset))
          t2 → r.table.Token (.punctuation .rightBracket) t2 rest → Parted rest →
        Costs ((ofTable r.table now).literal wantsDate) (n + 1) text
          (.list (items.map (Value.shownIn r.offset))) rest := by
      intro n t1 t2 opening gap inside closing gap'
      refine Costs.list rfl (nonWord_declines _ wantsDate legible opening).1 ?_ inside
        (sign_of_token legible contained closing gap')
      exact sign_of_token legible contained (opening.skipped legible) gap
    cases items with
    | nil =>
      obtain ⟨t1, opening, gap, varies⟩ := varies.token
      obtain ⟨closing, gap'⟩ := varies.one
      exact bracketed opening gap
        (Costs.items_nil (literal_declines_rightBracket rfl legible closing)) closing gap'
    | cons item items =>
      rw [Value.lexemes] at varies
      obtain ⟨t1, opening, gap, varies⟩ := varies.token
      obtain ⟨t2, first, more⟩ := varies.split
      obtain ⟨ends, t3, further, closing, gap'⟩ := furtherValues_read legible contained
        (fun item mem => each item (List.mem_cons_of_mem _ mem)) more
      exact bracketed opening gap (Costs.items_cons (each item (by simp) first ends) further)
        closing gap'

/-! ### Operands and rules -/

/-- A trigger is read in each of its spellings where an operand may stand. -/
def ReadsOperand (r : Renderer) (now : Instant) (t : Trigger) : Prop :=
  ∀ text rest, r.Varies (t.lexemes true) text rest → Ends r.table rest →
    Costs (ofTable r.table now).operand (t.levels true) text (t.shownIn r.offset) rest

/-- A trigger is read in each of its spellings where a rule may stand. -/
def ReadsRule (r : Renderer) (now : Instant) (t : Trigger) : Prop :=
  ∀ text rest, r.Varies (t.lexemes false) text rest → EndsWith r.table closes rest →
    Costs (fun d => (ofTable r.table now).tiers ((ofTable r.table now).operand d)) (t.levels false)
      text (t.shownIn r.offset) rest

/-- A condition is read, if its value is. -/
theorem condition_reads (legible : r.table.Legible) (contained : r.table.Contained)
    (writable : r.table.Writable) (offset : now.offset = r.offset) {c : Condition}
    (membership : c.operator = .among → c.value.isList = true)
    (recoverable : ∀ v ∈ c.value.scalars, v.Recoverable r.offset c.field.isTime) :
    r.ReadsOperand now (.condition c) := by
  intro text rest varies ends
  rw [Trigger.lexemes, Condition.lexemes] at varies
  obtain ⟨t1, field, gap, varies⟩ := varies.token
  obtain ⟨t2, operator, gap', varies⟩ := varies.token
  obtain ⟨noNot, noParen⟩ := operand_declines_field (g := ofTable r.table now) rfl legible field
  have readField : (ofTable r.table now).field text = .ok (c.field, t1) := by
    rw [field_eq]
    exact pick_before_blank rfl legible contained rfl (fun _ => alike_of_fieldOf) gap field
  have readOperator : (ofTable r.table now).operator t1 = .ok (c.operator, t2) := by
    rw [operator_eq]
    exact pick_before_blank rfl legible contained rfl (fun _ => alike_of_operatorOf) gap' operator
  refine Costs.operand_condition noNot noParen (Costs.condition rfl readField readOperator
    (value_reads legible contained writable offset recoverable varies ends) ?_)
  · intro among
    rw [Value.isList_shownIn]
    exact membership among

/-- What is read as an operand is a phrase of the tighter tier. -/
theorem ReadsOperand.tight (legible : r.table.Legible) {t : Trigger} (h : r.ReadsOperand now t)
    (varies : r.Varies (t.lexemes true) text rest)
    (ends : EndsWith r.table (orConnective closes Connective.inOrTier) rest) :
    Costs (fun d =>
        (ofTable r.table now).tier Connective.inAndTier ((ofTable r.table now).operand d))
      (t.levels true) text (t.shownIn r.offset) rest :=
  Costs.single (h text rest varies (ends.orConnective Connective.inAndTier).ends)
    (ends.andTier_declines rfl legible)

/-- What is read as an operand is read as a rule, if it needs no parentheses. -/
theorem ReadsOperand.rule (legible : r.table.Legible) {t : Trigger} (h : r.ReadsOperand now t)
    (sameLexemes : t.lexemes false = t.lexemes true) (sameLevels : t.levels false = t.levels true) :
    r.ReadsRule now t := by
  intro text rest varies ends
  rw [sameLexemes] at varies
  rw [sameLevels]
  exact Costs.single (h.tight legible varies (ends.orConnective Connective.inOrTier))
    (ends.orTier_declines rfl legible)

/-- What is read as a rule is read as an operand in parentheses, one level deeper. -/
theorem ReadsRule.parenthesized (legible : r.table.Legible) (contained : r.table.Contained)
    {t : Trigger} (h : r.ReadsRule now t)
    (varies : r.Varies (parenthesizeLexemes true (t.lexemes false)) text rest) :
    Costs (ofTable r.table now).operand (t.levels false + 1) text (t.shownIn r.offset) rest := by
  obtain ⟨t1, opening, gap, varies⟩ := varies.token
  obtain ⟨t2, inner, last⟩ := varies.split
  obtain ⟨closing, gap'⟩ := Varies.one last
  have noNot := operand_declines_leftParen (g := ofTable r.table now) rfl legible opening
  exact Costs.parentheses rfl noNot (sign_of_token legible contained opening gap)
    (h t1 t2 inner (.inr ⟨_, _, rfl, closing⟩)) (sign_of_token legible contained closing gap')

/-- A negation is read, if what it negates is read as a rule. -/
theorem negation_reads (legible : r.table.Legible) (contained : r.table.Contained) {t : Trigger}
    (h : r.ReadsRule now t) : r.ReadsOperand now (.group .not [t]) := by
  intro text rest varies _
  obtain ⟨t1, negation, gap, inside⟩ := varies.token
  have levels : (Trigger.group .not [t]).levels true = t.levels false + 1 + 1 := by
    rw [Trigger.levels, if_pos (show Connective.not.isUnary = true from rfl), Trigger.levelsOf,
      Trigger.levelsOf, Nat.max_zero]
  rw [levels, Trigger.shownIn_group]
  exact Costs.negation rfl (connective_of_token legible contained rfl
    (fun d accepted => tier_alike (.inr (.inr rfl)) rfl accepted) negation gap)
    (h.parenthesized legible contained inside)

/-! ### Groups -/

/-- Children with a connective in front of each are read as further operands, if each child
is read as one. -/
private theorem operands_read {connective : Connective} {accepts : Connective → Bool}
    {symbols : Symbol → Bool} {p : Nat → Parser Trigger} (legible : r.table.Legible)
    (contained : r.table.Contained) (accepted : accepts connective = true)
    (tier : ∀ d, accepts d = true → (Symbol.connective connective).alike (.connective d) = true)
    {children : List Trigger}
    (reads : ∀ child ∈ children, ∀ {text rest}, r.Varies (child.lexemes true) text rest →
      EndsWith r.table (orConnective symbols accepts) rest →
      Costs p (child.levels true) text (child.shownIn r.offset) rest)
    (varies : r.Varies (Trigger.operandLexemes connective children) text rest)
    (stop : ((ofTable r.table now).connective accepts).Declines rest)
    (ends : EndsWith r.table symbols rest) :
    EndsWith r.table (orConnective symbols accepts) text ∧
      Costs (fun d => Parser.many ((ofTable r.table now).continuation accepts (p d)))
        (Trigger.levelsOf true children) text
        (children.map fun child => (connective, child.shownIn r.offset)) rest := by
  -- By induction on the children: behind each stands the next connective or the end.
  induction children generalizing text with
  | nil =>
    cases varies
    exact ⟨ends.orConnective accepts, Costs.many_nil fun _ => Parser.Declines.bind stop⟩
  | cons child children ih =>
    rw [Trigger.operandLexemes] at varies
    obtain ⟨t1, token, gap, varies⟩ := varies.token
    obtain ⟨t2, first, more⟩ := varies.split
    obtain ⟨next, further⟩ := ih (fun child mem => reads child (List.mem_cons_of_mem _ mem)) more
    have operand := reads child (by simp) first next
    have continuation := Costs.continuation (g := ofTable r.table now) rfl rfl
      (connective_of_token legible contained accepted tier token gap) operand
    refine ⟨.inr ⟨_, _, ?_, token⟩,
      continuation.many_cons (Nat.lt_of_le_of_lt operand.shorter token.length_lt) further⟩
    show (symbols (.connective connective) || accepts connective) = true
    rw [accepted, Bool.or_true]

/-- Two children or more are read as a group, if each of them is read as an operand. -/
theorem group_reads (legible : r.table.Legible) (contained : r.table.Contained)
    {connective : Connective} (binary : connective.isUnary = false) {first second : Trigger}
    {others : List Trigger}
    (reads : ∀ child ∈ first :: second :: others, r.ReadsOperand now child) :
    r.ReadsRule now (.group connective (first :: second :: others)) := by
  intro text rest varies ends
  rw [Trigger.lexemes_many binary] at varies
  obtain ⟨mid, front, behind⟩ := Composed.split varies
  have levels : (Trigger.group connective (first :: second :: others)).levels false
      = max (first.levels true) (Trigger.levelsOf true (second :: others)) := by
    rw [Trigger.levels, binary]
    rfl
  have later : ∀ child ∈ second :: others, r.ReadsOperand now child :=
    fun child mem => reads child (List.mem_cons_of_mem _ mem)
  rw [levels, shownIn_many]
  rcases tier_of_binary binary with tight | loose
  · -- The operands stand in one phrase of the tighter tier.
    have ends' := ends.orConnective Connective.inOrTier
    obtain ⟨next, many⟩ := operands_read legible contained tight
      (fun d accepted => tier_alike (.inr (.inl rfl)) tight accepted)
      (fun child mem _ _ varies ends => later child mem _ _ varies ends.ends) behind
      (ends'.andTier_declines rfl legible) ends'
    exact Costs.single (Costs.tier (reads first (by simp) text mid front next.ends) many)
      (ends.orTier_declines rfl legible)
  · -- Each operand is a phrase of the tighter tier by itself.
    obtain ⟨next, many⟩ := operands_read legible contained loose
      (fun d accepted => tier_alike (.inl rfl) loose accepted)
      (fun child mem _ _ varies ends => (later child mem).tight legible varies ends) behind
      (ends.orTier_declines rfl legible) ends
    exact Costs.tier ((reads first (by simp)).tight legible front next) many

/-! ### Triggers -/

/-- A trigger with well-formed groups, whose conditions can be recovered, is read in each of
its spellings, as a child of a group and as a rule. -/
theorem trigger_reads (legible : r.table.Legible) (contained : r.table.Contained)
    (writable : r.table.Writable) (offset : now.offset = r.offset) {t : Trigger}
    (arities : ∀ g ∈ t.groups, g.1.acceptsArity g.2 = true)
    (lists : ∀ c ∈ t.conditions, c.operator = .among → c.value.isList = true)
    (scalars : ∀ c ∈ t.conditions, ∀ v ∈ c.value.scalars, v.Recoverable r.offset c.field.isTime) :
    r.ReadsOperand now t ∧ r.ReadsRule now t := by
  induction t using Trigger.induction with
  | condition c =>
    have mem : c ∈ (Trigger.condition c).conditions := List.mem_singleton_self c
    have operand := condition_reads legible contained writable offset (lists c mem) (scalars c mem)
    exact ⟨operand, operand.rule legible rfl rfl⟩
  | group connective children ih =>
    have inner := fun child mem => ih child mem
      (fun g found => arities g (Trigger.mem_groups_of_child mem found))
      (fun c found => lists c (Trigger.mem_conditions_of_child mem found))
      (fun c found => scalars c (Trigger.mem_conditions_of_child mem found))
    have own := arities (connective, children.length) (by simp)
    -- A negation is an operand already; any other group is a rule and needs parentheses.
    cases unary : connective.isUnary with
    | true =>
      obtain rfl := Connective.isUnary_iff.mp unary
      obtain ⟨child, rfl⟩ := List.length_eq_one_iff.mp
        (by simpa [Connective.acceptsArity, unary] using own)
      have operand := negation_reads legible contained (inner child (by simp)).2
      exact ⟨operand, operand.rule legible rfl rfl⟩
    | false =>
      obtain ⟨first, second, others, rfl⟩ := Connective.exists_children unary own
      have rule := group_reads legible contained unary fun child mem => (inner child mem).1
      refine ⟨?_, rule⟩
      intro text rest varies _
      rw [Trigger.lexemes_many unary] at varies
      have levels : (Trigger.group connective (first :: second :: others)).levels true
          = (Trigger.group connective (first :: second :: others)).levels false + 1 := by
        rw [Trigger.levels, Trigger.levels, unary]
        rfl
      rw [levels]
      refine rule.parenthesized legible contained ?_
      rw [Trigger.lexemes_many unary]
      exact varies

/-- A rule is read in each of its spellings if there are enough levels of nesting, and
refused if there are not. -/
theorem rule_of_variant (r : Renderer) (now : Instant) (legible : r.table.Legible)
    (contained : r.table.Contained) (writable : r.table.Writable) (offset : now.offset = r.offset)
    {t : Trigger}
    (arities : ∀ g ∈ t.groups, g.1.acceptsArity g.2 = true)
    (lists : ∀ c ∈ t.conditions, c.operator = .among → c.value.isList = true)
    (scalars : ∀ c ∈ t.conditions, ∀ v ∈ c.value.scalars, v.Recoverable r.offset c.field.isTime)
    (varies : r.Varies (t.lexemes false) text rest) (blank : ∀ c ∈ rest, isBlank c = true) :
    (t.levels false ≤ maxDepth →
        (ofTable r.table now).rule.complete text = .ok (t.shownIn r.offset)) ∧
      (maxDepth < t.levels false → ∃ stop, (ofTable r.table now).rule.complete text
        = .error ⟨stop, some (.requirement .shallowerNesting), true⟩) := by
  have ended : skipBlanks rest = [] := List.dropWhile_eq_nil_iff.mpr blank
  have rule := (trigger_reads legible contained writable offset arities lists scalars).2
  exact rule_of_costs (rule text rest varies (.inl ended)) ended

end Renderer

end ForumModeration
