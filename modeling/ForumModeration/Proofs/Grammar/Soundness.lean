import ForumModeration.Proofs.Grammar.Phrases
import ForumModeration.Proofs.Grammar.Productions

/-!
# `ForumModeration.Proofs.Grammar.Soundness`: what is read is a phrase

Whatever a reader of the grammar accepts is a phrase with that meaning, for every
table. There is one lemma for each reader, and two inductions: over the depth that is
left, for literals (`valuePhrase_of_literal`) and for operands
(`operandPhrase_of_operand`), and inside of both over a repetition (`many_sound`).

* `rulePhrase_of_rule`: a text that is read as a rule is a rule.
-/

set_option autoImplicit false

namespace ForumModeration.Grammar

open Text ForumModeration.Parser

/-! ### Repetitions -/

/-- A relation that holds of nothing and is kept by one reading more holds of a whole
repetition. -/
theorem many_sound {α : Type} {p : Parser α} {R : Phrase (List α)} {text rest : List Char}
    {values : List α} (nil : ∀ text, R text [] text)
    (cons : ∀ text a mid others rest, p text = .ok (a, mid) → R mid others rest →
      R text (a :: others) rest)
    (h : many p text = .ok (values, rest)) : R text values rest := by
  -- A repetition ends where its reader declines, and that is where `nil` applies.
  fun_induction many p text generalizing values with
  | case1 text a mid hp shorter others after hmany ih =>
    cases h
    exact cons _ a mid others rest hp (ih hmany)
  | case2 => cases h
  | case3 text a mid hp longer =>
    cases h
    exact nil _
  | case4 => cases h
  | case5 text failure hp soft =>
    cases h
    exact nil _

section

variable {table : TokenTable} {now : Instant} {wantsDate : Bool} {text rest : List Char}

/-! ### Tokens -/

theorem token_of_symbol {s : Symbol} (h : (ofTable table now).symbol s text = .ok ((), rest)) :
    table.Token s text rest := by
  rw [symbol_eq] at h
  obtain ⟨t, want, token⟩ := token_of_pick rfl h
  unfold exactly at want
  split at want
  · rename_i same
    rw [← same]
    exact token
  · cases want

theorem token_of_field {field : Field} (h : (ofTable table now).field text = .ok (field, rest)) :
    table.Token (.field field) text rest := by
  rw [field_eq] at h
  obtain ⟨t, want, token⟩ := token_of_pick rfl h
  cases t <;> cases want
  exact token

theorem token_of_operator {operator : Operator}
    (h : (ofTable table now).operator text = .ok (operator, rest)) :
    table.Token (.operator operator) text rest := by
  rw [operator_eq] at h
  obtain ⟨t, want, token⟩ := token_of_pick rfl h
  cases t <;> cases want
  exact token

theorem token_of_connective {accepts : Connective → Bool} {connective : Connective}
    (h : (ofTable table now).connective accepts text = .ok (connective, rest)) :
    accepts connective = true ∧ table.Token (.connective connective) text rest := by
  rw [connective_eq] at h
  obtain ⟨t, want, token⟩ := token_of_pick rfl h
  cases t with
  | connective c =>
    unfold connectiveOf at want
    simp only at want
    split at want
    · rename_i accepted
      cases want
      exact ⟨accepted, token⟩
    · cases want
  | _ => cases want

theorem token_of_truth {b : Bool} (h : (ofTable table now).truth text = .ok (b, rest)) :
    table.Token (.truth b) text rest := by
  rw [truth_eq] at h
  obtain ⟨t, want, token⟩ := token_of_pick rfl h
  cases t <;> cases want
  exact token

theorem token_of_timeUnit {unit : TimeUnit}
    (h : (ofTable table now).timeUnit text = .ok (unit, rest)) :
    table.Token (.unit unit) text rest := by
  rw [timeUnit_eq] at h
  obtain ⟨t, want, token⟩ := token_of_pick rfl h
  cases t <;> cases want
  exact token

/-! ### Strings -/

theorem quotedBody_of_readBody {mark : Char} {value : List Char}
    (h : Quoted.readBody mark text = some (value, rest)) :
    ∃ body, text = body ++ mark :: rest ∧ QuotedBody mark body value := by
  fun_induction Quoted.readBody mark text generalizing value with
  | case1 => cases h
  | case2 =>
    cases h
    exact ⟨[], rfl, .nil⟩
  | case3 => cases h
  | case4 =>
    cases h
    exact ⟨[], rfl, .nil⟩
  | case5 d more _ ih =>
    -- A backslash takes the next character with it, whichever that is.
    obtain ⟨⟨inner, after⟩, read, same⟩ := Option.map_eq_some_iff.mp h
    cases same
    obtain ⟨body, rfl, inside⟩ := ih read
    exact ⟨'\\' :: d :: body, rfl, .escape d inside⟩
  | case6 c d more noMark noEscape ih =>
    obtain ⟨⟨inner, after⟩, read, same⟩ := Option.map_eq_some_iff.mp h
    cases same
    obtain ⟨body, split, inside⟩ := ih read
    exact ⟨c :: body, by rw [split]; rfl, .plain noMark noEscape inside⟩

/-- The meaning of a string is the one that the grammar gives it. -/
theorem stringMeans_iff {g : Grammar} {string : List Char} {value : Value} :
    g.stringValue wantsDate string = value ↔
      StringMeans g.now.offset wantsDate string value := by
  unfold stringValue
  cases wantsDate with
  | false =>
    rw [if_neg Bool.false_ne_true]
    constructor
    · rintro rfl
      exact .itself fun wanted => absurd wanted Bool.false_ne_true
    · intro means
      cases means with
      | date wanted _ => cases wanted
      | itself _ => rfl
  | true =>
    rw [if_pos rfl]
    cases read : complete g.date (trim string) with
    | ok instant =>
      have date := complete_date_iff.mp read
      constructor
      · rintro rfl
        exact .date rfl date
      · intro means
        cases means with
        | date _ date' =>
          have := complete_date_iff.mpr date'
          rw [read] at this
          cases this
          rfl
        | itself noDate => exact absurd date (noDate rfl instant)
    | error failure =>
      constructor
      · rintro rfl
        refine .itself ?_
        intro _ instant date
        rw [complete_date_iff.mpr date] at read
        cases read
      · intro means
        cases means with
        | date _ date =>
          rw [complete_date_iff.mpr date] at read
          cases read
        | itself _ => rfl

/-! ### Values -/

variable {value : Value} {depth : Nat}

theorem barePhrase_of_quotedLiteral
    (h : (ofTable table now).quotedLiteral wantsDate text = .ok (value, rest)) :
    BarePhrase table now wantsDate text value rest := by
  obtain ⟨mark, inside, string, rfl, mark_, read, means⟩ := quotedLiteral_eq_ok h
  obtain ⟨body, rfl, body_⟩ := quotedBody_of_readBody read
  exact .string mark_ body_ (stringMeans_iff.mp means)

theorem relativePhrase_of_relative {instant : Instant}
    (h : (ofTable table now).relative text = .ok (instant, rest)) :
    RelativePhrase table now text instant rest := by
  obtain ⟨digits, after, unit, mid, digits_, rfl, _, bounded, hunit, ⟨_, hago⟩, counted⟩ :=
    relative_eq_ok.mp h
  have unit_ := token_of_timeUnit hunit
  rcases optional_eq_ok.mp hago with ⟨_, _, read⟩ | ⟨_, rfl, _⟩
  · exact .ago digits_ bounded unit_ (token_of_symbol read) counted
  · exact .plain digits_ bounded unit_ counted

theorem barePhrase_of_bareLiteral (h : (ofTable table now).bareLiteral text = .ok (value, rest)) :
    BarePhrase table now wantsDate text value rest := by
  unfold bareLiteral at h
  rcases orElse_eq_ok.mp h with hdate | ⟨_, h⟩
  · obtain ⟨instant, read, rfl⟩ := map_eq_ok.mp hdate
    obtain ⟨written, rfl, date⟩ := absoluteDate_of_date read
    exact .date date
  rcases orElse_eq_ok.mp h with hrelative | ⟨_, h⟩
  · obtain ⟨instant, read, rfl⟩ := map_eq_ok.mp hrelative
    exact .relative (relativePhrase_of_relative read)
  rcases orElse_eq_ok.mp h with hnumber | ⟨_, h⟩
  · obtain ⟨written, rfl, number, boundary⟩ := numberText_of_number hnumber
    exact .number number boundary
  rcases orElse_eq_ok.mp h with htruth | ⟨_, h⟩
  · obtain ⟨b, read, rfl⟩ := map_eq_ok.mp htruth
    exact .truth (token_of_truth read)
  · obtain ⟨_, mid, read, hpure⟩ := bind_eq_ok.mp h
    obtain ⟨rfl, rfl⟩ := pure_eq_ok.mp hpure
    exact .now (token_of_symbol read)

theorem scalarPhrase_of_scalar (h : (ofTable table now).scalar text = .ok (value, rest)) :
    ScalarPhrase table now false text value rest := by
  obtain ⟨_, start, hblanks, h⟩ := bind_eq_ok.mp h
  obtain ⟨blanks, split, blank⟩ := exists_blanks text
  obtain rfl : skipBlanks text = start := congrArg Prod.snd (Except.ok.inj hblanks)
  refine ⟨blanks, skipBlanks text, split, blank, ?_⟩
  rcases orElse_eq_ok.mp h with string | ⟨_, bare⟩
  · exact barePhrase_of_quotedLiteral string
  · exact barePhrase_of_bareLiteral bare

/-- The items of a list are values if each of them is. -/
theorem valuesPhrase_of_items {item : Phrase Value} {values : List Value}
    (item_ : ∀ text value rest,
      (ofTable table now).literal wantsDate depth text = .ok (value, rest) →
        item text value rest)
    (h : itemsOf (ofTable table now) wantsDate depth text = .ok (values, rest)) :
    ValuesPhrase table item text values rest := by
  rcases itemsOf_eq_ok h with ⟨rfl, rfl, _⟩ | ⟨value, mid, others, rfl, read, hothers⟩
  · exact .none
  · refine .some (item_ _ _ _ read) (many_sound (fun _ => .nil) ?_ hothers)
    intro text value mid others rest further more
    obtain ⟨t1, comma, next⟩ := furtherItem_eq_ok further
    exact .cons (token_of_symbol comma) (item_ _ _ _ next) more

/-- A literal is a value with lists nested no deeper than the literal's. -/
theorem valuePhrase_of_literal
    (h : (ofTable table now).literal wantsDate depth text = .ok (value, rest)) :
    ValuePhrase table now wantsDate depth text value rest := by
  -- By induction on the levels left: the items of a list have one less.
  induction depth generalizing text value rest with
  | zero =>
    rw [literal_apply] at h
    obtain ⟨blanks, split, blank⟩ := exists_blanks text
    refine ⟨blanks, skipBlanks text, split, blank, ?_⟩
    rcases orElse_eq_ok.mp h with string | ⟨_, h⟩
    · exact barePhrase_of_quotedLiteral string
    rcases orElse_eq_ok.mp h with list | ⟨_, bare⟩
    · -- No level is left for the items of a list.
      obtain ⟨_, _, _, _, items, _⟩ := listOf_eq_ok list
      cases items
    · exact barePhrase_of_bareLiteral bare
  | succ depth ih =>
    rw [literal_apply] at h
    obtain ⟨blanks, split, blank⟩ := exists_blanks text
    rcases orElse_eq_ok.mp h with string | ⟨_, h⟩
    · exact .inl ⟨blanks, skipBlanks text, split, blank, barePhrase_of_quotedLiteral string⟩
    rcases orElse_eq_ok.mp h with list | ⟨_, bare⟩
    · right
      obtain ⟨t1, t2, values, opening, items, closing, rfl⟩ := listOf_eq_ok list
      rw [sign_eq, pick_skipBlanks] at opening
      exact .mk (token_of_symbol opening)
        (valuesPhrase_of_items (fun _ _ _ read => ih read) items) (token_of_symbol closing)
    · exact .inl ⟨blanks, skipBlanks text, split, blank, barePhrase_of_bareLiteral bare⟩

/-! ### Triggers -/

variable {trigger : Trigger}

theorem conditionPhrase_of_condition
    (h : (ofTable table now).condition depth text = .ok (trigger, rest)) :
    ConditionPhrase table now depth text trigger rest := by
  obtain ⟨field, operator, value, t1, t2, hfield, hoperator, hvalue, membership, rfl⟩ :=
    condition_eq_ok h
  exact .mk (token_of_field hfield) (token_of_operator hoperator) (valuePhrase_of_literal hvalue)
    membership

/-- Operands of one tier are grouped as they are read. -/
theorem tierPhrase_of_tier {accepts : Connective → Bool} {tier : List Connective}
    {operand : Parser Trigger} {phrase : Phrase Trigger}
    (members : ∀ {c}, accepts c = true → c ∈ tier)
    (operand_ : ∀ text trigger rest, operand text = .ok (trigger, rest) → phrase text trigger rest)
    (h : (ofTable table now).tier accepts operand text = .ok (trigger, rest)) :
    TierPhrase table tier phrase text trigger rest := by
  obtain ⟨first, mid, others, hfirst, hothers, rfl⟩ := tier_eq_ok h
  rw [chain_eq_grouped]
  refine .mk (operand_ _ _ _ hfirst) (many_sound (fun _ => .nil) ?_ hothers)
  intro text next mid others rest further more
  obtain ⟨t1, hconnective, hright⟩ := continuation_eq_ok further
  obtain ⟨accepted, token⟩ := token_of_connective hconnective
  exact .cons (members accepted) token (operand_ _ _ _ hright) more

theorem tiersPhrase_of_tiers {operand : Parser Trigger} {phrase : Phrase Trigger}
    (operand_ : ∀ text trigger rest, operand text = .ok (trigger, rest) → phrase text trigger rest)
    (h : (ofTable table now).tiers operand text = .ok (trigger, rest)) :
    TiersPhrase table phrase text trigger rest :=
  tierPhrase_of_tier Connective.inOrTier_iff.mp
    (fun _ _ _ inner => tierPhrase_of_tier Connective.inAndTier_iff.mp operand_ inner) h

/-- An operand is one of the three forms, and only a condition if no level is left. -/
theorem operandPhrase_of_operand
    (h : (ofTable table now).operand depth text = .ok (trigger, rest)) :
    OperandPhrase table now depth text trigger rest := by
  -- By induction on the levels left. With none, only a condition can be read.
  induction depth generalizing text trigger rest with
  | zero =>
    rcases operand_eq_ok h with ⟨_, _, _, none, _⟩ | ⟨_, _, _, none, _⟩ | ⟨_, condition⟩
    · cases none
    · cases none
    · exact conditionPhrase_of_condition condition
  | succ depth ih =>
    rcases operand_eq_ok h with ⟨_, mid, negated, same, hnot, inner, rfl⟩ |
      ⟨_, t1, t2, same, _, opening, inner, closing⟩ | ⟨_, condition⟩
    · cases same
      exact .inr (.inl (.mk (token_of_connective hnot).2 (ih inner)))
    · cases same
      exact .inr (.inr (.mk (token_of_symbol opening)
        (tiersPhrase_of_tiers (fun _ _ _ read => ih read) inner) (token_of_symbol closing)))
    · exact .inl (conditionPhrase_of_condition condition)

/-- A text that is read as a rule is a rule, nested no deeper than `maxDepth`. -/
theorem rulePhrase_of_rule (h : complete (ofTable table now).rule text = .ok trigger) :
    RulePhrase table now maxDepth text trigger := by
  obtain ⟨mid, htiers, nothing⟩ := rule_eq_ok.mp (complete_eq_ok.mp h)
  refine ⟨mid, tiersPhrase_of_tiers (fun _ _ _ read => operandPhrase_of_operand read) htiers, ?_⟩
  obtain ⟨blanks, split, blank⟩ := exists_blanks mid
  rw [← nothing, List.append_nil] at split
  rw [split]
  exact blank

end

end ForumModeration.Grammar
