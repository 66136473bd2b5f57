import ForumModeration.Proofs.Rendering.Values

/-!
# `ForumModeration.Proofs.Rendering.Triggers`: triggers that are written are read back

A trigger is written in two ways, as a rule and as a child of a group. The first may be
followed by the end of the text or a closing parenthesis and is read by the grammar's
tiers (`RecoversRule`); the second may be followed by any connective and is read as an
operand (`RecoversOperand`). `trigger_recovers` shows both at once, by induction over
the trigger. Its cases:

* a condition is an operand, and an operand is a rule (`RecoversOperand.rule`);
* a rule in parentheses is an operand (`RecoversRule.operand`);
* the children of a group, with one connective between them, are a rule
  (`group_recovers`).

The levels of nesting that the reader needs are counted along the way, so
`rule_recovers` tells exactly which triggers it can read back.
-/

set_option autoImplicit false

namespace ForumModeration

open Text ForumModeration.Grammar

namespace Renderer

/-- A text is read back as a trigger where an operand may stand. -/
def RecoversOperand (r : Renderer) (now : Instant) (t : Trigger) (text : List Char) : Prop :=
  ∀ blanks rest, (∀ c ∈ blanks, isBlank c = true) → Ends r.table rest →
    Ahead (isIdent · = false) rest →
    Costs (ofTable r.table now).operand (t.levels true) (blanks ++ (text ++ rest))
      (t.shownIn r.offset) rest

/-- A text is read back as a trigger where a rule may stand. -/
def RecoversRule (r : Renderer) (now : Instant) (t : Trigger) (text : List Char) : Prop :=
  ∀ blanks rest, (∀ c ∈ blanks, isBlank c = true) → EndsWith r.table closes rest →
    Ahead (isIdent · = false) rest →
    Costs (fun d => (ofTable r.table now).tiers ((ofTable r.table now).operand d)) (t.levels false)
      (blanks ++ (text ++ rest)) (t.shownIn r.offset) rest

variable {r : Renderer} {now : Instant}

/-! ### What is written -/

variable {connective : Connective}

/-- A group of one child is written as the child, if it is no negation. -/
theorem trigger_single (binary : connective.isUnary = false) (nested : Bool) (child : Trigger) :
    r.trigger nested (.group connective [child]) = r.trigger nested child := by
  rw [trigger]
  rintro rfl
  cases binary

/-- A group of more children is written with its connective between them. -/
theorem trigger_many (binary : connective.isUnary = false) (nested : Bool)
    (first second : Trigger) (others : List Trigger) :
    r.trigger nested (.group connective (first :: second :: others))
      = (do
        let token ← r.token (.connective connective)
        r.parenthesize nested do
          return (← r.trigger true first) ++ (← r.operands token (second :: others))) := by
  rw [trigger]
  rintro rfl
  cases binary

/-! ### Conditions -/

/-- A condition is written as its field, its operator and its value, and the first two are read
back in front of a value that does not make the operator longer. -/
theorem condition_written (now : Instant) (legible : r.table.Legible) (writable : r.table.Writable)
    {c : Condition} {text : List Char} (written : r.value c.value = .ok text)
    (ahead : ∀ rest, Ahead (fun c => c.toLower ∉ ['=', '等']) (text ++ rest)) :
    ∃ front, r.condition c = .ok (front ++ text) ∧
      ∀ blanks rest, (∀ c ∈ blanks, isBlank c = true) →
        ((ofTable r.table now).connective Connective.isUnary).Declines
          (blanks ++ (front ++ text ++ rest)) ∧
        ((ofTable r.table now).sign .leftParen).Declines (blanks ++ (front ++ text ++ rest)) ∧
        ∃ mid,
          (ofTable r.table now).field (blanks ++ (front ++ text ++ rest)) = .ok (c.field, mid) ∧
          (ofTable r.table now).operator mid = .ok (c.operator, r.space ++ (text ++ rest)) := by
  obtain ⟨field, field_⟩ := writable.written (.field c.field) rfl
  obtain ⟨operator, operator_⟩ := writable.written (.operator c.operator) rfl
  refine ⟨field ++ r.space ++ operator ++ r.space, ?_, ?_⟩
  · obtain ⟨spelling, primary, rfl⟩ := field_.primary
    unfold condition
    rw [primary, token_eq operator_, written]
    rfl
  · intro blanks rest blank
    have same : field ++ r.space ++ operator ++ r.space ++ text ++ rest
        = field ++ (r.space ++ (operator ++ (r.space ++ (text ++ rest)))) := by
      simp only [List.append_assoc]
    rw [same]
    have fieldEnds : RespectsBoundary field
        (r.space ++ (operator ++ (r.space ++ (text ++ rest)))) :=
      fun _ => ahead_middle legible operator_ rfl
    -- Neither a space nor a value makes the operator longer.
    have operatorEnds : Ahead (fun c => c.toLower ∉ ['=', '等']) (r.space ++ (text ++ rest)) := by
      unfold space
      split
      · exact ahead_cons.mpr (by decide)
      · exact ahead rest
    obtain ⟨noNot, noParen⟩ := operand_declines_field (g := ofTable r.table now) rfl legible
      ((field_.stands fieldEnds).prepend blank)
    refine ⟨noNot, noParen, r.space ++ (operator ++ (r.space ++ (text ++ rest))), ?_, ?_⟩
    · rw [field_eq]
      exact field_.pick legible rfl (fun _ => alike_of_fieldOf) blank fieldEnds
        fun _ _ => List.not_mem_nil
    · rw [operator_eq]
      exact operator_.pick legible rfl (fun _ => alike_of_operatorOf) r.blank_space
        (boundary_middle operator_ rfl) operatorEnds

/-- A condition is read back, if its value is. -/
theorem condition_recovers (legible : r.table.Legible) (writable : r.table.Writable)
    {c : Condition} {text : List Char} (written : r.value c.value = .ok text)
    (recovers : r.Recovers now c.field.isTime c.value text)
    (membership : c.operator = .among → c.value.isList = true) :
    ∃ text, r.condition c = .ok text ∧ r.RecoversOperand now (.condition c) text := by
  obtain ⟨front, written_, reads⟩ := condition_written now legible writable written
    recovers.ahead
  refine ⟨front ++ text, written_, ?_⟩
  intro blanks rest blank ends loose
  obtain ⟨noNot, noParen, mid, readField, readOperator⟩ := reads blanks rest blank
  refine Costs.operand_condition noNot noParen ?_
  refine Costs.condition rfl readField readOperator
    (recovers.costs _ _ r.blank_space ends loose) ?_
  intro among
  rw [Value.isList_shownIn]
  exact membership among

/-! ### Operands and rules -/

/-- What is an operand is a phrase of the tighter tier. -/
theorem RecoversOperand.tight (legible : r.table.Legible) {t : Trigger}
    {text blanks rest : List Char} (h : r.RecoversOperand now t text)
    (blank : ∀ c ∈ blanks, isBlank c = true)
    (ends : EndsWith r.table (orConnective closes Connective.inOrTier) rest)
    (loose : Ahead (isIdent · = false) rest) :
    Costs (fun d =>
        (ofTable r.table now).tier Connective.inAndTier ((ofTable r.table now).operand d))
      (t.levels true) (blanks ++ (text ++ rest)) (t.shownIn r.offset) rest :=
  Costs.single (h blanks rest blank (ends.orConnective Connective.inAndTier).ends loose)
    (ends.andTier_declines rfl legible)

/-- What is an operand is a rule, if it is no group that needs parentheses. -/
theorem RecoversOperand.rule (legible : r.table.Legible) {t : Trigger} {text : List Char}
    (h : r.RecoversOperand now t text) (same : t.levels false = t.levels true) :
    r.RecoversRule now t text := by
  intro blanks rest blank ends loose
  rw [same]
  have tight := h.tight legible blank (ends.orConnective Connective.inOrTier) loose
  exact Costs.single tight (ends.orTier_declines rfl legible)

/-- A rule in parentheses is an operand, one level deeper. -/
theorem RecoversRule.operand (legible : r.table.Legible) {t : Trigger}
    {inner opening closing : List Char} (h : r.RecoversRule now t inner)
    (opening_ : r.table.Written (.punctuation .leftParen) opening)
    (closing_ : r.table.Written (.punctuation .rightParen) closing) {blanks : List Char}
    (blank : ∀ c ∈ blanks, isBlank c = true) (rest : List Char) :
    Costs (ofTable r.table now).operand (t.levels false + 1)
      (blanks ++ (opening ++ inner ++ closing ++ rest)) (t.shownIn r.offset) rest := by
  rw [List.append_assoc, List.append_assoc]
  have noNot := operand_declines_leftParen (g := ofTable r.table now) rfl legible
    ((opening_.sign_stands (inner ++ (closing ++ rest))).prepend blank)
  have inside := h [] (closing ++ rest) (fun _ mem => absurd mem List.not_mem_nil)
    (.inr ⟨_, _, rfl, closing_.sign_stands rest⟩) (closing_.ahead_ident rfl)
  exact Costs.parentheses rfl noNot
    (opening_.pick_exactly legible rfl blank (opening_.boundary rfl)) inside
    (closing_.sign_read legible rest)

/-- A text in parentheses. -/
theorem parenthesize_eq {opening closing text : List Char}
    (opening_ : r.table.Written (.punctuation .leftParen) opening)
    (closing_ : r.table.Written (.punctuation .rightParen) closing) :
    r.parenthesize true (.ok text) = .ok (opening ++ text ++ closing) := by
  unfold parenthesize sign
  rw [token_eq opening_, token_eq closing_]
  rfl

/-- A group that is a rule is an operand in parentheses. -/
theorem RecoversRule.parenthesized (legible : r.table.Legible) (writable : r.table.Writable)
    {t : Trigger} {text : List Char} (h : r.RecoversRule now t text)
    (written : r.trigger true t = r.parenthesize true (.ok text))
    (levels : t.levels true = t.levels false + 1) :
    ∃ text, r.trigger true t = .ok text ∧ r.RecoversOperand now t text := by
  obtain ⟨opening, opening_⟩ := writable.written (.punctuation .leftParen) rfl
  obtain ⟨closing, closing_⟩ := writable.written (.punctuation .rightParen) rfl
  refine ⟨opening ++ text ++ closing, ?_, ?_⟩
  · rw [written, parenthesize_eq opening_ closing_]
  · intro blanks rest blank _ _
    rw [levels]
    exact h.operand legible opening_ closing_ blank rest

/-- A negation is an operand, if what it negates is a rule. -/
theorem negation_recovers (legible : r.table.Legible) (writable : r.table.Writable) {t : Trigger}
    {inner : List Char} (written : r.trigger false t = .ok inner) (h : r.RecoversRule now t inner) :
    ∃ text, (∀ nested, r.trigger nested (.group .not [t]) = .ok text) ∧
      r.RecoversOperand now (.group .not [t]) text := by
  obtain ⟨negation, negation_⟩ := writable.written (.connective .not) rfl
  obtain ⟨opening, opening_⟩ := writable.written (.punctuation .leftParen) rfl
  obtain ⟨closing, closing_⟩ := writable.written (.punctuation .rightParen) rfl
  refine ⟨negation ++ r.space ++ (opening ++ inner ++ closing), ?_, ?_⟩
  · intro nested
    rw [trigger, token_eq negation_, written, parenthesize_eq opening_ closing_]
    rfl
  · intro blanks rest blank _ _
    have same : negation ++ r.space ++ (opening ++ inner ++ closing) ++ rest
        = negation ++ (r.space ++ (opening ++ inner ++ closing ++ rest)) := by
      simp only [List.append_assoc]
    rw [same]
    -- The negation is picked first, then the parentheses and what they hold.
    have readNot : (ofTable r.table now).connective Connective.isUnary
        (blanks ++ (negation ++ (r.space ++ (opening ++ inner ++ closing ++ rest))))
          = .ok (.not, r.space ++ (opening ++ inner ++ closing ++ rest)) :=
      negation_.pick_connective legible rfl
        (fun d accepted => tier_alike (.inr (.inr rfl)) rfl accepted) blank
        (boundary_middle negation_ rfl)
    have costs := Costs.negation rfl readNot
      (h.operand legible opening_ closing_ r.blank_space rest)
    have levels : (Trigger.group .not [t]).levels true = t.levels false + 1 + 1 := by
      rw [Trigger.levels, if_pos (show Connective.not.isUnary = true from rfl), Trigger.levelsOf,
        Trigger.levelsOf, Nat.max_zero]
    rw [levels, Trigger.shownIn_group]
    exact costs

/-! ### Groups -/

variable {token : List Char} {accepts : Connective → Bool}

/-- Operands with one connective between them make one group. -/
theorem chain_run (connective : Connective) (first second : Trigger)
    (others : List Trigger) :
    chain first ((connective, second) :: others.map (connective, ·))
      = .group connective (first :: second :: others) := by
  have all : ∀ o ∈ others.map (connective, ·), decide (o.1 = connective) = true := by
    intro o mem
    obtain ⟨t, _, rfl⟩ := List.mem_map.mp mem
    exact decide_eq_true rfl
  have nothing : (others.map (connective, ·)).dropWhile (fun o => decide (o.1 = connective)) = [] :=
    List.dropWhile_eq_nil_iff.mpr all
  rw [chain_eq_grouped, grouped, nothing, List.takeWhile_eq_self_iff.mpr all, grouped,
    List.map_map]
  exact congrArg (fun ts => Trigger.group connective (first :: second :: ts)) (List.map_id others)

/-- Children with a connective in front of each are read back as further operands, if
each child is read back as one. -/
private theorem operands_recover (now : Instant) (symbols : Symbol → Bool)
    (p : Nat → Parser Trigger) (legible : r.table.Legible)
    (connective_ : r.table.Written (.connective connective) token)
    (accepted : accepts connective = true)
    (tier : ∀ d, accepts d = true → (Symbol.connective connective).alike (.connective d) = true)
    {children : List Trigger}
    (recovers : ∀ child ∈ children, ∃ text, r.trigger true child = .ok text ∧
      ∀ rest, EndsWith r.table (orConnective symbols accepts) rest →
        Ahead (isIdent · = false) rest →
        Costs p (child.levels true) (r.space ++ (text ++ rest)) (child.shownIn r.offset) rest)
    (stop : ∀ {rest}, EndsWith r.table symbols rest →
      ((ofTable r.table now).connective accepts).Declines rest) :
    ∃ text, r.operands token children = .ok text ∧
      ∀ rest, EndsWith r.table symbols rest → Ahead (isIdent · = false) rest →
        EndsWith r.table (orConnective symbols accepts) (text ++ rest) ∧
        Ahead (isIdent · = false) (text ++ rest) ∧
        Costs (fun d => Parser.many ((ofTable r.table now).continuation accepts (p d)))
          (Trigger.levelsOf true children) (text ++ rest)
          (children.map fun child => (connective, child.shownIn r.offset)) rest := by
  -- By induction on the children: behind each stands the next connective or the end.
  induction children with
  | nil =>
    refine ⟨[], rfl, fun rest ends loose => ⟨ends.orConnective accepts, loose, ?_⟩⟩
    exact Costs.many_nil fun _ => Parser.Declines.bind (stop ends)
  | cons child children ih =>
    obtain ⟨text, written, one⟩ := recovers child (by simp)
    obtain ⟨more, writtenMore, others⟩ :=
      ih fun child mem => recovers child (List.mem_cons_of_mem _ mem)
    refine ⟨r.space ++ token ++ r.space ++ text ++ more, ?_, ?_⟩
    · rw [operands, written, writtenMore]
      rfl
    · intro rest ends loose
      obtain ⟨next, looseNext, further⟩ := others rest ends loose
      have operand := one (more ++ rest) next looseNext
      have same : r.space ++ token ++ r.space ++ text ++ more ++ rest
          = r.space ++ (token ++ (r.space ++ (text ++ (more ++ rest)))) := by
        simp only [List.append_assoc]
      rw [same]
      have boundary : RespectsBoundary token (r.space ++ (text ++ (more ++ rest))) :=
        boundary_middle connective_ rfl
      have stands := (connective_.stands boundary).prepend r.blank_space
      refine ⟨.inr ⟨_, _, ?_, stands⟩,
        fun c first => (ahead_middle legible connective_ rfl c first).1, ?_⟩
      · show (symbols (.connective connective) || accepts connective) = true
        rw [accepted, Bool.or_true]
      · have continuation := Costs.continuation (g := ofTable r.table now) rfl rfl
          (connective_.pick_connective legible accepted tier r.blank_space boundary) operand
        exact continuation.many_cons (Nat.lt_of_le_of_lt operand.shorter stands.length_lt) further

/-- A connective between operands belongs to one of the tiers. -/
theorem tier_of_binary (binary : connective.isUnary = false) :
    connective.inAndTier = true ∨ connective.inOrTier = true := by
  cases connective <;> first | exact .inl rfl | exact .inr rfl | cases binary

/-- The children of a group are shown as operands with its connective between them. -/
theorem shownIn_many (offset : Offset) (connective : Connective) (first second : Trigger)
    (others : List Trigger) :
    (Trigger.group connective (first :: second :: others)).shownIn offset
      = chain (first.shownIn offset)
        ((second :: others).map fun child => (connective, child.shownIn offset)) := by
  have run := chain_run connective (first.shownIn offset) (second.shownIn offset)
    (others.map (Trigger.shownIn offset))
  rw [List.map_map] at run
  rw [Trigger.shownIn_group]
  exact run.symm

/-- Two children or more are read back as a group, if each of them is an operand. -/
theorem group_recovers (legible : r.table.Legible) (writable : r.table.Writable)
    (binary : connective.isUnary = false) {first second : Trigger} {others : List Trigger}
    (recovers : ∀ child ∈ first :: second :: others, ∃ text, r.trigger true child = .ok text ∧
      r.RecoversOperand now child text) :
    ∃ text, (∀ nested, r.trigger nested (.group connective (first :: second :: others))
        = r.parenthesize nested (.ok text)) ∧
      r.RecoversRule now (.group connective (first :: second :: others)) text := by
  obtain ⟨token, connective_⟩ := writable.written (.connective connective) rfl
  obtain ⟨text, written, one⟩ := recovers first (by simp)
  have later : ∀ child ∈ second :: others, ∃ text, r.trigger true child = .ok text ∧
      r.RecoversOperand now child text :=
    fun child mem => recovers child (List.mem_cons_of_mem _ mem)
  have writtenAs : ∀ {more : List Char}, r.operands token (second :: others) = .ok more → ∀ nested,
      r.trigger nested (.group connective (first :: second :: others))
        = r.parenthesize nested (.ok (text ++ more)) := by
    intro more writtenMore nested
    rw [trigger_many binary, token_eq connective_, written]
    show r.parenthesize nested (do return text ++ (← r.operands token (second :: others))) = _
    rw [writtenMore]
    rfl
  have levels : (Trigger.group connective (first :: second :: others)).levels false
      = max (first.levels true) (Trigger.levelsOf true (second :: others)) := by
    rw [Trigger.levels, binary]
    rfl
  rcases tier_of_binary binary with tight | loose
  · -- The operands stand in one phrase of the tighter tier.
    obtain ⟨more, writtenMore, further⟩ := operands_recover now
      (orConnective closes Connective.inOrTier) (ofTable r.table now).operand legible
      connective_ tight (fun d accepted => tier_alike (.inr (.inl rfl)) tight accepted)
      (fun child mem => (later child mem).imp fun text h =>
        ⟨h.1, fun rest ends loose => h.2 r.space rest r.blank_space ends.ends loose⟩)
      (fun ends => ends.andTier_declines rfl legible)
    refine ⟨text ++ more, writtenAs writtenMore, ?_⟩
    intro blanks rest blank ends loose
    obtain ⟨next, looseNext, many⟩ := further rest (ends.orConnective Connective.inOrTier) loose
    have tier := Costs.tier (one blanks (more ++ rest) blank next.ends looseNext) many
    rw [levels, shownIn_many, List.append_assoc]
    exact Costs.single tier (ends.orTier_declines rfl legible)
  · -- Each operand is a phrase of the tighter tier by itself.
    obtain ⟨more, writtenMore, further⟩ := operands_recover now closes
      (fun d => (ofTable r.table now).tier Connective.inAndTier ((ofTable r.table now).operand d))
      legible connective_ loose (fun d accepted => tier_alike (.inl rfl) loose accepted)
      (fun child mem => (later child mem).imp fun text h =>
        ⟨h.1, fun rest ends loose => h.2.tight legible r.blank_space ends loose⟩)
      (fun ends => ends.orTier_declines rfl legible)
    refine ⟨text ++ more, writtenAs writtenMore, ?_⟩
    intro blanks rest blank ends loose
    obtain ⟨next, looseNext, many⟩ := further rest ends loose
    rw [levels, shownIn_many, List.append_assoc]
    exact Costs.tier (one.tight legible blank next looseNext) many

/-! ### Triggers -/

/-- A trigger with well-formed groups, whose conditions can be recovered, is written as a
child of a group and as a rule, and both are read back. -/
theorem trigger_recovers (legible : r.table.Legible) (writable : r.table.Writable)
    (offset : now.offset = r.offset) {t : Trigger}
    (arities : ∀ g ∈ t.groups, g.1.acceptsArity g.2 = true)
    (lists : ∀ c ∈ t.conditions, c.operator = .among → c.value.isList = true)
    (scalars : ∀ c ∈ t.conditions, ∀ v ∈ c.value.scalars, v.Recoverable r.offset c.field.isTime) :
    (∃ text, r.trigger true t = .ok text ∧ r.RecoversOperand now t text) ∧
      ∃ text, r.trigger false t = .ok text ∧ r.RecoversRule now t text := by
  induction t using Trigger.induction with
  | condition c =>
    have mem : c ∈ (Trigger.condition c).conditions := List.mem_singleton_self c
    obtain ⟨value, written, recovers⟩ :=
      value_recovers legible writable offset (scalars c mem)
    obtain ⟨text, written, operand⟩ :=
      condition_recovers legible writable written recovers (lists c mem)
    exact ⟨⟨text, written, operand⟩, text, written, operand.rule legible rfl⟩
  | group connective children ih =>
    have inner := fun child mem => ih child mem
      (fun g found => arities g (Trigger.mem_groups_of_child mem found))
      (fun c found => lists c (Trigger.mem_conditions_of_child mem found))
      (fun c found => scalars c (Trigger.mem_conditions_of_child mem found))
    have own := arities (connective, children.length) (by simp)
    -- A negation is an operand already; any other group is a rule and needs parentheses.
    cases unary : connective.isUnary with
    | true =>
      obtain rfl := Connective.isUnary_iff.mp unary
      obtain ⟨child, rfl⟩ := List.length_eq_one_iff.mp
        (by simpa [Connective.acceptsArity, unary] using own)
      obtain ⟨-, text, written, rule⟩ := inner child (by simp)
      obtain ⟨text, written, operand⟩ := negation_recovers legible writable written rule
      exact ⟨⟨text, written true, operand⟩, text, written false, operand.rule legible rfl⟩
    | false =>
      obtain ⟨first, second, others, rfl⟩ := Connective.exists_children unary own
      obtain ⟨text, written, rule⟩ :=
        group_recovers legible writable unary fun child mem => (inner child mem).1
      refine ⟨rule.parenthesized legible writable (written true) ?_, text, written false, rule⟩
      rw [Trigger.levels, Trigger.levels, unary]
      rfl

/-- A trigger is written as a rule that is read back if there are enough levels of
nesting, and refused if there are not. -/
theorem rule_recovers (r : Renderer) (now : Instant) (legible : r.table.Legible)
    (writable : r.table.Writable) (offset : now.offset = r.offset) {t : Trigger}
    (arities : ∀ g ∈ t.groups, g.1.acceptsArity g.2 = true)
    (lists : ∀ c ∈ t.conditions, c.operator = .among → c.value.isList = true)
    (scalars : ∀ c ∈ t.conditions, ∀ v ∈ c.value.scalars, v.Recoverable r.offset c.field.isTime) :
    ∃ text, r.rule t = .ok text ∧
      (t.levels false ≤ maxDepth →
        (ofTable r.table now).rule.complete text = .ok (t.shownIn r.offset)) ∧
      (maxDepth < t.levels false → ∃ stop, (ofTable r.table now).rule.complete text
        = .error ⟨stop, some (.requirement .shallowerNesting), true⟩) := by
  obtain ⟨-, text, written, recovers⟩ :=
    trigger_recovers legible writable offset arities lists scalars
  have costs := recovers [] [] (fun _ mem => absurd mem List.not_mem_nil) (.inl rfl) (ahead_nil _)
  rw [List.append_nil, List.nil_append] at costs
  exact ⟨text, written, rule_of_costs costs rfl⟩

/-- Groups of one child are written as the child. -/
theorem trigger_collapse (r : Renderer) (nested : Bool) (t : Trigger) :
    r.trigger nested t.collapse = r.trigger nested t := by
  induction t using Trigger.induction generalizing nested with
  | condition c => rfl
  | group connective children ih =>
    match children with
    | [] => rfl
    | [child] =>
      have same := fun nested => ih child (List.mem_singleton_self child) nested
      rw [Trigger.collapse]
      split
      · rename_i unary
        rw [Connective.isUnary_iff.mp unary, trigger, trigger, same]
      · rename_i binary
        rw [same, trigger_single (by simpa using binary)]
    | first :: second :: others =>
      -- The children of a group are written alike, one after the other.
      have operands : ∀ token, r.operands token ((second :: others).map Trigger.collapse)
          = r.operands token (second :: others) := by
        intro token
        have all := fun child mem => ih child (List.mem_cons_of_mem first mem) true
        generalize second :: others = children at all
        induction children with
        | nil => rfl
        | cons child children ih' =>
          rw [List.map_cons, Renderer.operands, Renderer.operands, all child (by simp),
            ih' fun child mem => all child (List.mem_cons_of_mem _ mem)]
      rw [Trigger.collapse_group (by simp), List.map_cons, List.map_cons]
      cases unary : connective.isUnary with
      | true =>
        obtain rfl := Connective.isUnary_iff.mp unary
        show (Except.error (.wrongArity .not _) : Result) = Except.error (.wrongArity .not _)
        simp
      | false =>
        rw [trigger_many unary, trigger_many unary, ih first (by simp), ← List.map_cons]
        simp only [operands]

end Renderer

end ForumModeration
