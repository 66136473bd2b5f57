import ForumModeration.Proofs.Grammar.Values

/-!
# `ForumModeration.Proofs.Grammar.Completeness`: every phrase of the compact language is read

In the compact language no two derivations of a text compete. A token that the
grammar allows is the token that longest match reads (`pick_of_dsl`), and a choice
that is made too early would have to be made at a text that no phrase starts with. So
every phrase is read with its meaning, if what follows may follow it and if enough
levels of nesting are left.

The induction is over the depth of the phrase, for values (`costs_of_valuePhrase`) and
for operands (`costs_of_operandPhrase`); `costs_of_tierPhrase` takes a tier from
its operands, and `EndsWith` says at each level what may come next.

* `rule_of_rulePhrase`: a text that is a rule, nested no deeper than `maxDepth`, is
  read as that rule.
* `rule_of_costs`: what a cost says about whole texts, in any language.
-/

set_option autoImplicit false

namespace ForumModeration.Grammar

open Text ForumModeration.Parser

/-! ### Whole texts -/

/-- A rule that costs no more than the levels there are is read, and any other is
refused for nesting too deep. -/
theorem rule_of_costs {g : Grammar} {n : Nat} {text rest : List Char} {trigger : Trigger}
    (h : Costs (fun d => g.tiers (g.operand d)) n text trigger rest)
    (ended : skipBlanks rest = []) :
    (n ≤ maxDepth → complete g.rule text = .ok trigger) ∧
      (maxDepth < n → ∃ stop, complete g.rule text
        = .error ⟨stop, some (.requirement .shallowerNesting), true⟩) := by
  -- A refusal for want of levels is final, so the whole text is refused with it.
  constructor
  · intro enough
    refine complete_eq_ok.mpr ?_
    unfold rule
    rw [bind_of_ok (h.reads maxDepth enough)]
    refine (bind_of_ok (show blanks rest = .ok ((), []) from ?_)).trans rfl
    unfold blanks
    rw [ended]
  · intro below
    obtain ⟨stop, failed⟩ := h.refuses maxDepth below
    refine ⟨stop, ?_⟩
    have refused : g.rule text = .error ⟨stop, some (.requirement .shallowerNesting), true⟩ :=
      bind_of_error failed
    unfold complete
    rw [refused]

/-! ### What may come next -/

/-- After blanks the text is over, or a token of one of the symbols stands there. -/
def EndsWith (table : TokenTable) (symbols : Symbol → Bool) (rest : List Char) : Prop :=
  skipBlanks rest = [] ∨
    ∃ symbol after, symbols symbol = true ∧ table.Token symbol rest after

/-- A connective between operands may come next, too. -/
def orConnective (symbols : Symbol → Bool) (accepts : Connective → Bool) : Symbol → Bool
  | .connective c => symbols (.connective c) || accepts c
  | s => symbols s

/-- What closes parentheses. -/
def closes : Symbol → Bool
  | .punctuation .rightParen => true
  | _ => false

theorem EndsWith.imp {table : TokenTable} {symbols symbols' : Symbol → Bool} {rest : List Char}
    (h : EndsWith table symbols rest) (more : ∀ s, symbols s = true → symbols' s = true) :
    EndsWith table symbols' rest := by
  rcases h with nothing | ⟨symbol, after, listed, token⟩
  · exact .inl nothing
  · exact .inr ⟨symbol, after, more symbol listed, token⟩

theorem EndsWith.orConnective {table : TokenTable} {symbols : Symbol → Bool} {rest : List Char}
    (h : EndsWith table symbols rest) (accepts : Connective → Bool) :
    EndsWith table (orConnective symbols accepts) rest := by
  refine h.imp ?_
  intro s listed
  cases s with
  | connective c =>
    show (symbols (.connective c) || accepts c) = true
    rw [listed, Bool.true_or]
  | _ => exact listed

/-- No connective of a tier comes next, if it is tried at nothing that may. -/
theorem EndsWith.connective_declines {table : TokenTable} {g : Grammar} {symbols : Symbol → Bool}
    {rest : List Char} {accepts : Connective → Bool} (hg : g.lexicon = table.lexicon)
    (legible : table.Legible) (h : EndsWith table symbols rest)
    (tried : ∀ s, symbols s = true → ∀ c, accepts c = true → s.triedAt (.connective c) = true) :
    (g.connective accepts).Declines rest := by
  rw [connective_eq]
  -- At the end of the text nothing is picked, and at a token nothing that is tried there.
  rcases h with nothing | ⟨symbol, after, listed, token⟩
  · refine pick_declines_ahead hg legible ?_
    rw [nothing]
    exact ahead_nil _
  · exact connective_declines_at hg legible token (tried symbol listed)

/-- No connective that binds tightly comes after what it binds. -/
theorem EndsWith.andTier_declines {table : TokenTable} {g : Grammar} {rest : List Char}
    (hg : g.lexicon = table.lexicon) (legible : table.Legible)
    (h : EndsWith table (Grammar.orConnective closes Connective.inOrTier) rest) :
    (g.connective Connective.inAndTier).Declines rest := by
  refine h.connective_declines hg legible ?_
  intro s listed c accepted
  cases s with
  | connective d =>
    cases d <;> cases c <;>
      first | rfl | exact absurd listed (by decide) | exact absurd accepted (by decide)
  | punctuation q =>
    cases q <;> cases c <;>
      first | rfl | exact absurd listed (by decide) | exact absurd accepted (by decide)
  | _ => exact absurd listed Bool.false_ne_true

/-- No other connective comes after what only parentheses close. -/
theorem EndsWith.orTier_declines {table : TokenTable} {g : Grammar} {rest : List Char}
    (hg : g.lexicon = table.lexicon) (legible : table.Legible) (h : EndsWith table closes rest) :
    (g.connective Connective.inOrTier).Declines rest := by
  refine h.connective_declines hg legible ?_
  intro s listed c accepted
  cases s with
  | punctuation q =>
    cases q <;> cases c <;>
      first | rfl | exact absurd listed (by decide) | exact absurd accepted (by decide)
  | _ => exact absurd listed Bool.false_ne_true

/-- What may come after an operand may come after its value. -/
theorem EndsWith.ends {table : TokenTable} {rest : List Char}
    (h : EndsWith table (Grammar.orConnective (Grammar.orConnective closes Connective.inOrTier)
      Connective.inAndTier) rest) : Ends table rest := by
  refine h.imp ?_
  intro s listed
  cases s with
  | connective c => cases c <;> first | rfl | exact absurd listed (by decide)
  | punctuation q => cases q <;> first | rfl | exact absurd listed (by decide)
  | _ => exact absurd listed Bool.false_ne_true

/-! ### Where operands start -/

/-- An operand that starts with a field is neither negated nor in parentheses. -/
theorem operand_declines_field {table : TokenTable} {g : Grammar} {text rest : List Char}
    {field : Field} (hg : g.lexicon = table.lexicon) (legible : table.Legible)
    (field_ : table.Token (.field field) text rest) :
    (g.connective Connective.isUnary).Declines text ∧ (g.sign .leftParen).Declines text := by
  constructor
  · exact connective_declines_at hg legible field_ fun c unary => unary
  · exact symbol_declines_at hg legible field_ rfl

/-- An operand that starts with a field is a condition. -/
theorem operand_of_field {table : TokenTable} {g : Grammar} {text rest : List Char}
    {field : Field} (hg : g.lexicon = table.lexicon) (legible : table.Legible)
    (field_ : table.Token (.field field) text rest) (depth : Nat) :
    g.operand depth text = g.condition depth text := by
  obtain ⟨noNot, noParen⟩ := operand_declines_field hg legible field_
  rw [operand_eq, operandWith, bind_of_ok noNot.optional]
  exact (Declines.bind noParen).orElse_eq

/-- An operand in parentheses is not negated. -/
theorem operand_declines_leftParen {table : TokenTable} {g : Grammar} {text rest : List Char}
    (hg : g.lexicon = table.lexicon) (legible : table.Legible)
    (opening : table.Token (.punctuation .leftParen) text rest) :
    (g.connective Connective.isUnary).Declines text :=
  connective_declines_at hg legible opening fun _ unary => unary

/-! ### Tiers -/

section

variable {table : TokenTable} {g : Grammar} {text rest : List Char} {accepts : Connective → Bool}
  {tier : List Connective} {symbols : Symbol → Bool} {phrase : Phrase Trigger}
  {p : Nat → Parser Trigger} {depth : Nat}

/-- Further operands of a tier are read, if each operand is. -/
private theorem costs_of_furtherOperands (hg : g.lexicon = table.lexicon)
    (strict : g.lenient = false) (members : ∀ {c}, c ∈ tier → accepts c = true)
    (pick : ∀ {c text mid}, accepts c = true → table.Token (.connective c) text mid →
      g.connective accepts text = .ok (c, mid))
    (operand : ∀ {text trigger rest}, phrase text trigger rest →
      EndsWith table (orConnective symbols accepts) rest →
      ∃ n ≤ depth, Costs p n text trigger rest)
    (stop : ∀ {rest}, EndsWith table symbols rest → (g.connective accepts).Declines rest)
    {others : List (Connective × Trigger)}
    (h : FurtherOperands table tier phrase text others rest)
    (ends : EndsWith table symbols rest) :
    (∃ n ≤ depth, Costs (fun d => many (g.continuation accepts (p d))) n text others rest) ∧
      EndsWith table (orConnective symbols accepts) text := by
  -- By induction on the operands: what comes after one is a connective or the end.
  induction h with
  | nil =>
    refine ⟨⟨0, Nat.zero_le _, Costs.many_nil fun _ => Declines.bind (stop ends)⟩, ?_⟩
    exact ends.orConnective accepts
  | @cons text t1 t2 rest connective trigger others member connective_ operand_ _ ih =>
    obtain ⟨⟨m, hm, further⟩, next⟩ := ih ends
    obtain ⟨n, hn, first⟩ := operand operand_ next
    refine ⟨⟨max n m, by omega, ?_⟩, .inr ⟨.connective connective, t1, ?_, connective_⟩⟩
    · have one := Costs.continuation hg strict (pick (members member) connective_) first
      exact one.many_cons (Nat.lt_of_le_of_lt first.shorter connective_.length_lt) further
    · show (symbols (.connective connective) || accepts connective) = true
      rw [members member, Bool.or_true]

/-- A tier is read, if its operands are. -/
theorem costs_of_tierPhrase (hg : g.lexicon = table.lexicon) (strict : g.lenient = false)
    (members : ∀ {c}, c ∈ tier → accepts c = true)
    (pick : ∀ {c text mid}, accepts c = true → table.Token (.connective c) text mid →
      g.connective accepts text = .ok (c, mid))
    (operand : ∀ {text trigger rest}, phrase text trigger rest →
      EndsWith table (orConnective symbols accepts) rest →
      ∃ n ≤ depth, Costs p n text trigger rest)
    (stop : ∀ {rest}, EndsWith table symbols rest → (g.connective accepts).Declines rest)
    {trigger : Trigger} (h : TierPhrase table tier phrase text trigger rest)
    (ends : EndsWith table symbols rest) :
    ∃ n ≤ depth, Costs (fun d => g.tier accepts (p d)) n text trigger rest := by
  obtain ⟨first_, more⟩ := h
  obtain ⟨⟨m, hm, further⟩, next⟩ :=
    costs_of_furtherOperands hg strict members pick operand stop more ends
  obtain ⟨n, hn, first⟩ := operand first_ next
  rw [← chain_eq_grouped]
  exact ⟨max n m, by omega, Costs.tier first further⟩

end

/-! ### Tokens of the compact language -/

section

variable {now : Instant} {text rest : List Char}

/-- In the compact language longest match reads the token that stands there. -/
theorem pick_of_dsl {α : Type} {wanted : Symbol → Option α} {symbol : Symbol} {a : α}
    (want : wanted symbol = some a) (kind : ∀ t, (wanted t).isSome = true → symbol.alike t = true)
    (token : TokenTable.dsl.Token symbol text rest)
    (ahead : Ahead (fun c => c.toLower ∉ symbol.further) rest) :
    (ofTable .dsl now).pick wanted text = .ok (a, rest) := by
  obtain ⟨spelling, mem, after⟩ := token.after TokenTable.legible_dsl
  exact pick_of_settled rfl TokenTable.legible_dsl want kind mem (TokenTable.settled_dsl mem) after
    ahead

theorem alike_self (s : Symbol) : s.alike s = true := by
  cases s <;> simp [Symbol.alike]

/-- Nothing goes on from a token that is no operator. -/
private theorem ahead_nothing : Ahead (fun c => c.toLower ∉ ([] : List Char)) rest :=
  fun _ _ => List.not_mem_nil

theorem exactly_of_dsl (now : Instant) {symbol : Symbol}
    (token : TokenTable.dsl.Token symbol text rest)
    (plain : symbol.further = []) : (ofTable .dsl now).symbol symbol text = .ok ((), rest) := by
  rw [symbol_eq]
  refine pick_of_dsl (by simp [exactly]) ?_ token
    (by rw [plain]; exact ahead_nothing)
  intro t want
  rw [eq_of_exactly want]
  exact alike_self symbol

theorem connective_of_dsl {c : Connective} {accepts : Connective → Bool}
    (accepted : accepts c = true)
    (tier : ∀ d, accepts d = true → (Symbol.connective c).alike (.connective d) = true)
    (token : TokenTable.dsl.Token (.connective c) text rest) :
    (ofTable .dsl now).connective accepts text = .ok (c, rest) := by
  rw [connective_eq]
  refine pick_of_dsl (by simp [connectiveOf, accepted]) ?_ token ahead_nothing
  intro t want
  obtain ⟨d, rfl, accepted'⟩ := accepts_of_connectiveOf want
  exact tier d accepted'

theorem tier_alike {c d : Connective} {accepts : Connective → Bool}
    (classes : accepts = Connective.inOrTier ∨ accepts = Connective.inAndTier ∨
      accepts = Connective.isUnary) (hc : accepts c = true) (hd : accepts d = true) :
    (Symbol.connective c).alike (.connective d) = true := by
  rcases classes with rfl | rfl | rfl <;> cases c <;> cases d <;>
    first | rfl | exact absurd hc (by decide) | exact absurd hd (by decide)

/-! ### Values -/

variable {wantsDate : Bool} {value : Value} {depth : Nat}

/-- A relative time is read with its unit and the word behind it. -/
private theorem relative_of_dsl {run after mid : List Char} {unit : TimeUnit} {instant : Instant}
    (digits : Digits run) (bounded : numberOf run ≤ maxAmount)
    (unit_ : TokenTable.dsl.Token (.unit unit) after mid)
    (ago : ∃ word, optional ((ofTable .dsl now).symbol .ago) mid = .ok (word, rest))
    (counted : (ofTable .dsl now).backFromNow? unit (numberOf run) = some instant) :
    (ofTable .dsl now).relative (run ++ after) = .ok (instant, rest) := by
  have loose : Ahead (Char.isDigit · = false) after :=
    (unit_.plain TokenTable.legible_dsl).imp fun _ => isDigit_of_startsNoToken
  have hunit : (ofTable .dsl now).timeUnit after = .ok (unit, mid) := by
    rw [timeUnit_eq]
    exact pick_of_dsl rfl (fun _ => alike_of_unitOf) unit_ ahead_nothing
  obtain ⟨word, hword⟩ := ago
  rw [relative_of_parts digits bounded loose hunit hword, counted]
  rfl

/-- A value other than a list costs nothing. -/
theorem costs_of_scalarPhrase (h : ScalarPhrase .dsl now wantsDate text value rest)
    (ends : Ends .dsl rest) : Costs ((ofTable .dsl now).literal wantsDate) 0 text value rest := by
  obtain ⟨blanks, body, rfl, blank, bare⟩ := h
  have hg : (ofTable .dsl now).lexicon = TokenTable.dsl.lexicon := rfl
  have legible := TokenTable.legible_dsl
  -- The literal does not start with a blank, so it stands right behind the blanks.
  have start : ∀ {c : Char} {tail : List Char}, body = c :: tail → isBlank c = false →
      skipBlanks (blanks ++ body) = body := by
    rintro c tail rfl notBlank
    rw [skipBlanks_append_of_blank blank, skipBlanks_eq_of_not_blank notBlank]
  have startDigit : ∀ {run tail : List Char}, Digits run → body = run ++ tail →
      skipBlanks (blanks ++ body) = body := by
    rintro run tail digits rfl
    obtain ⟨c, more, first, digit⟩ := digits.start tail
    exact start first (isBlank_eq_false_of_isDigit digit)
  cases bare with
  | @string mark inside string _ _ mark_ body_ means =>
    have notBlank : isBlank mark = false := by rcases mark_ with rfl | rfl <;> decide
    exact Costs.string (start rfl notBlank) mark_ body_ means
  | @date written _ instant date_ =>
    refine Costs.date hg legible ?_ date_ (ends.detached legible)
    obtain ⟨c, tail, rfl, digit⟩ := date_.digit
    exact start rfl (isBlank_eq_false_of_isDigit digit)
  | relative relative_ =>
    cases relative_ with
    | plain digits bounded unit_ counted =>
      have ago := (ends.ago_declines hg legible).optional
      exact Costs.relative hg legible (startDigit digits rfl) digits unit_
        (relative_of_dsl digits bounded unit_ ⟨_, ago⟩ counted) unit_.length_lt.le
    | ago digits bounded unit_ ago_ counted =>
      have ago := optional_of_ok (exactly_of_dsl now ago_ rfl)
      exact Costs.relative hg legible (startDigit digits rfl) digits unit_
        (relative_of_dsl digits bounded unit_ ⟨_, ago⟩ counted)
        (ago_.length_lt.trans unit_.length_lt).le
  | number number_ boundary =>
    refine Costs.number hg legible ?_ number_ ends boundary
    obtain ⟨c, tail, rfl, special⟩ := number_.start
    exact start rfl (isBlank_of_startsNoToken special)
  | @truth _ _ b token =>
    refine Costs.truth hg legible (token.prepend blank) ?_
    rw [truth_eq]
    exact pick_of_dsl rfl (fun _ => alike_of_truthOf) (token.prepend blank) ahead_nothing
  | now token =>
    exact Costs.present hg legible (token.prepend blank)
      (exactly_of_dsl now (token.prepend blank) rfl)

/-- The items of a list are read, if each of them is. -/
private theorem costs_of_furtherValues {item : Phrase Value} {values : List Value}
    {after : List Char}
    (item_ : ∀ {text value rest}, item text value rest → Ends .dsl rest →
      ∃ n ≤ depth, Costs ((ofTable .dsl now).literal wantsDate) n text value rest)
    (h : FurtherValues .dsl item text values rest)
    (closing : TokenTable.dsl.Token (.punctuation .rightBracket) rest after) :
    (∃ n ≤ depth, Costs (fun d => many (furtherItem (ofTable .dsl now) wantsDate d)) n text values
      rest) ∧ Ends .dsl text := by
  induction h with
  | @nil rest =>
    have noComma : ((ofTable .dsl now).sign .comma).Declines rest :=
      symbol_declines_at rfl TokenTable.legible_dsl closing rfl
    exact ⟨⟨0, Nat.zero_le _, Costs.many_nil fun _ => Declines.bind noComma⟩,
      .inr ⟨_, _, rfl, closing⟩⟩
  | cons comma first _ ih =>
    obtain ⟨⟨m, hm, further⟩, next⟩ := ih closing
    obtain ⟨n, hn, value_⟩ := item_ first next
    refine ⟨⟨max n m, by omega, ?_⟩, .inr ⟨_, _, rfl, comma⟩⟩
    have one := Costs.furtherItem rfl (exactly_of_dsl now comma rfl) value_
    exact one.many_cons (Nat.lt_of_le_of_lt value_.shorter comma.length_lt) further

/-- A value is read, and it costs no more than its depth. -/
theorem costs_of_valuePhrase (h : ValuePhrase .dsl now wantsDate depth text value rest)
    (ends : Ends .dsl rest) :
    ∃ n ≤ depth, Costs ((ofTable .dsl now).literal wantsDate) n text value rest := by
  -- By induction on the depth: the items of a list are one level further in.
  induction depth generalizing text value rest with
  | zero => exact ⟨0, Nat.le_refl _, costs_of_scalarPhrase h ends⟩
  | succ depth ih =>
    rcases h with scalar | list
    · exact ⟨0, Nat.zero_le _, costs_of_scalarPhrase scalar ends⟩
    cases list with | @mk _ t1 t2 _ values opening items closing
    have hg : (ofTable .dsl now).lexicon = TokenTable.dsl.lexicon := rfl
    have legible := TokenTable.legible_dsl
    have noQuote := (nonWord_declines (ofTable .dsl now) wantsDate legible opening).1
    have hopening : (ofTable .dsl now).sign .leftBracket (skipBlanks text) = .ok ((), t1) := by
      rw [sign_eq, pick_skipBlanks, ← sign_eq]
      exact exactly_of_dsl now opening rfl
    have hclosing := exactly_of_dsl now closing rfl
    cases items with
    | none =>
      refine ⟨1, by omega, Costs.list hg noQuote hopening (Costs.items_nil ?_) hclosing⟩
      intro d
      exact literal_declines_rightBracket hg legible closing d
    | some first more =>
      obtain ⟨⟨m, hm, further⟩, next⟩ :=
        costs_of_furtherValues (fun item ends => ih item ends) more closing
      obtain ⟨n, hn, value_⟩ := ih first next
      exact ⟨max n m + 1, by omega,
        Costs.list hg noQuote hopening (Costs.items_cons value_ further) hclosing⟩

/-- A bare value starts with the token of a word, or with a character that starts none. -/
private theorem start_of_barePhrase {body : List Char}
    (h : BarePhrase .dsl now wantsDate body value rest) :
    (∃ c tail, body = c :: tail ∧ startsNoToken c = true) ∨
      ∃ symbol, symbol.startsValue = true ∧ TokenTable.dsl.Token symbol body rest := by
  have digit : ∀ {run after : List Char}, Digits run →
      ∃ c tail, run ++ after = c :: tail ∧ startsNoToken c = true := by
    intro run after digits
    obtain ⟨c, tail, start, digit⟩ := digits.start after
    exact ⟨c, tail, start, startsNoToken_of_isDigit digit⟩
  cases h with
  | string mark_ _ _ =>
    refine .inl ⟨_, _, rfl, ?_⟩
    rcases mark_ with rfl | rfl <;> decide
  | date date_ =>
    obtain ⟨c, tail, rfl, digit⟩ := date_.digit
    exact .inl ⟨c, _, rfl, startsNoToken_of_isDigit digit⟩
  | relative relative_ =>
    cases relative_ with
    | plain digits _ _ _ => exact .inl (digit digits)
    | ago digits _ _ _ _ => exact .inl (digit digits)
  | number number_ _ =>
    obtain ⟨c, tail, rfl, special⟩ := number_.start
    exact .inl ⟨c, _, rfl, special⟩
  | truth token => exact .inr ⟨_, rfl, token⟩
  | now token => exact .inr ⟨_, rfl, token⟩

/-- What a value starts with does not make an operator longer. -/
theorem ahead_of_valuePhrase (h : ValuePhrase .dsl now wantsDate depth text value rest) :
    Ahead (fun c => c.toLower ∉ ['=', '等']) text := by
  have scalar : ScalarPhrase .dsl now wantsDate text value rest →
      Ahead (fun c => c.toLower ∉ ['=', '等']) text := by
    rintro ⟨blanks, body, rfl, blank, bare⟩
    cases blanks with
    | cons c blanks => exact ahead_cons.mpr (toLower_notMem_of_isBlank (blank c (by simp)))
    | nil =>
      rcases start_of_barePhrase bare with ⟨c, tail, rfl, special⟩ | ⟨symbol, starts, token⟩
      · exact ahead_cons.mpr (toLower_notMem_of_startsNoToken special)
      · exact token.noFurther TokenTable.legible_dsl starts
  cases depth with
  | zero => exact scalar h
  | succ depth =>
    rcases h with h | ⟨opening, _, _⟩
    · exact scalar h
    · exact opening.noFurther TokenTable.legible_dsl rfl

/-! ### Operands -/

variable {trigger : Trigger}

theorem costs_of_conditionPhrase (h : ConditionPhrase .dsl now depth text trigger rest)
    (ends : Ends .dsl rest) :
    ∃ n ≤ depth, Costs (ofTable .dsl now).operand n text trigger rest := by
  cases h with | @mk _ t1 t2 _ field operator value field_ operator_ value_ membership
  have legible := TokenTable.legible_dsl
  obtain ⟨n, hn, costs⟩ := costs_of_valuePhrase value_ ends
  have hfield : (ofTable .dsl now).field text = .ok (field, t1) := by
    rw [field_eq]
    exact pick_of_dsl rfl (fun _ => alike_of_fieldOf) field_ ahead_nothing
  have hoperator : (ofTable .dsl now).operator t1 = .ok (operator, t2) := by
    rw [operator_eq]
    exact pick_of_dsl rfl (fun _ => alike_of_operatorOf) operator_ (ahead_of_valuePhrase value_)
  obtain ⟨noNot, noParen⟩ := operand_declines_field (g := ofTable .dsl now) rfl legible field_
  exact ⟨n, hn, Costs.operand_condition noNot noParen
    (Costs.condition rfl hfield hoperator costs membership)⟩

/-- Operands under both tiers are read up to what closes them. -/
theorem costs_of_tiersPhrase {phrase : Phrase Trigger}
    (operand : ∀ {text trigger rest}, phrase text trigger rest → Ends .dsl rest →
      ∃ n ≤ depth, Costs (ofTable .dsl now).operand n text trigger rest)
    (h : TiersPhrase .dsl phrase text trigger rest) (ends : EndsWith .dsl closes rest) :
    ∃ n ≤ depth, Costs (fun d => (ofTable .dsl now).tiers ((ofTable .dsl now).operand d)) n text
      trigger rest := by
  have legible := TokenTable.legible_dsl
  have inner : ∀ {text trigger rest},
      TierPhrase .dsl [.and, .nand] phrase text trigger rest →
      EndsWith .dsl (orConnective closes Connective.inOrTier) rest →
      ∃ n ≤ depth, Costs (fun d => (ofTable .dsl now).tier Connective.inAndTier
        ((ofTable .dsl now).operand d)) n text trigger rest := by
    intro text trigger rest h ends
    refine costs_of_tierPhrase rfl rfl Connective.inAndTier_iff.mpr ?_ ?_ ?_ h ends
    · intro c text mid accepted token
      exact connective_of_dsl accepted
        (fun d accepted' => tier_alike (.inr (.inl rfl)) accepted accepted') token
    · exact fun found next => operand found next.ends
    · exact fun next => next.andTier_declines rfl legible
  refine costs_of_tierPhrase rfl rfl Connective.inOrTier_iff.mpr ?_ inner ?_ h ends
  · intro c text mid accepted token
    exact connective_of_dsl accepted
      (fun d accepted' => tier_alike (.inl rfl) accepted accepted') token
  · exact fun next => next.orTier_declines rfl legible

/-- An operand is read, and it costs no more than its depth. -/
theorem costs_of_operandPhrase (h : OperandPhrase .dsl now depth text trigger rest)
    (ends : Ends .dsl rest) :
    ∃ n ≤ depth, Costs (ofTable .dsl now).operand n text trigger rest := by
  -- By induction on the depth: `NOT` and parentheses hold operands one level further in.
  induction depth generalizing text trigger rest with
  | zero => exact costs_of_conditionPhrase h ends
  | succ depth ih =>
    have legible := TokenTable.legible_dsl
    rcases h with condition | negation | parentheses
    · exact costs_of_conditionPhrase condition ends
    · obtain ⟨not_, operand_⟩ := negation
      obtain ⟨n, hn, costs⟩ := ih operand_ ends
      have hnot : (ofTable .dsl now).connective Connective.isUnary text = .ok (.not, _) :=
        connective_of_dsl rfl (fun d accepted => tier_alike (.inr (.inr rfl)) rfl accepted) not_
      exact ⟨n + 1, by omega, Costs.negation rfl hnot costs⟩
    · obtain ⟨opening, inner_, closing⟩ := parentheses
      have noNot := operand_declines_leftParen (g := ofTable .dsl now) rfl legible opening
      obtain ⟨n, hn, costs⟩ := costs_of_tiersPhrase (fun operand ends => ih operand ends) inner_
        (.inr ⟨_, _, rfl, closing⟩)
      exact ⟨n + 1, by omega, Costs.parentheses rfl noNot (exactly_of_dsl now opening rfl) costs
        (exactly_of_dsl now closing rfl)⟩

/-- A text that is a rule, nested no deeper than `maxDepth`, is read as that rule. -/
theorem rule_of_rulePhrase (h : RulePhrase .dsl now depth text trigger)
    (bounded : depth ≤ maxDepth) :
    complete (ofTable .dsl now).rule text = .ok trigger := by
  obtain ⟨rest, phrase, blank⟩ := h
  have ended : skipBlanks rest = [] := by
    rw [← List.append_nil rest, skipBlanks_append_of_blank blank]
    rfl
  obtain ⟨n, hn, costs⟩ := costs_of_tiersPhrase
    (fun operand ends => costs_of_operandPhrase operand ends) phrase (.inl ended)
  exact (rule_of_costs costs ended).1 (Nat.le_trans hn bounded)

end

end ForumModeration.Grammar
