import ForumModeration.Proofs.Grammar.Levels
import ForumModeration.Proofs.Text.Digits
import ForumModeration.Proofs.Trees

/-!
# `ForumModeration.Proofs.Grammar.Productions`: readings taken apart

For every production of the grammar this file says what a successful reading of it
consists of: the readings of its parts, where each of them starts and ends, and how
the result is made from theirs. The lemmas hold of every grammar, strict or lenient and
with any lexicon. `operand_eq_ok` has the three forms of an operand, and says of each
what was tried before it. Blanks in front of a rule are no part of it (`rule_skipBlanks`).

What is read is a phrase of the grammar, goes over a span of the text and can be read
elsewhere: all of these are proved from the lemmas here.
-/

set_option autoImplicit false

namespace ForumModeration.Grammar

open Text ForumModeration.Parser

section

variable {g : Grammar} {text rest : List Char}

/-! ### Literals -/

variable {wantsDate : Bool} {value : Value}

theorem quotedLiteral_eq_ok (h : g.quotedLiteral wantsDate text = .ok (value, rest)) :
    ∃ mark inside string, text = mark :: inside ∧ (mark = '\'' ∨ mark = '"') ∧
      Quoted.readBody mark inside = some (string, rest) ∧
      g.stringValue wantsDate string = value := by
  unfold quotedLiteral quoted at h
  obtain ⟨string, mid, hstring, hvalue⟩ := bind_eq_ok.mp h
  obtain ⟨means, rfl⟩ := pure_eq_ok.mp hvalue
  obtain ⟨mark, inside, hmark, hbody⟩ := bind_eq_ok.mp hstring
  obtain ⟨rfl, accepted⟩ := satisfying_eq_ok.mp hmark
  cases read : Quoted.readBody mark inside with
  | none =>
    rw [read] at hbody
    cases hbody
  | some result =>
    rw [read] at hbody
    cases hbody
    exact ⟨mark, inside, string, rfl, by simpa using accepted, read, means⟩

/-- A relative time is an amount, a unit and perhaps the word behind it, and the present
can be counted back by them. -/
theorem relative_eq_ok {instant : Instant} :
    g.relative text = .ok (instant, rest) ↔
      ∃ run after unit mid, Digits run ∧ text = run ++ after ∧
        Ahead (Char.isDigit · = false) after ∧ numberOf run ≤ maxAmount ∧
        g.timeUnit after = .ok (unit, mid) ∧
        (∃ word, optional (g.symbol .ago) mid = .ok (word, rest)) ∧
        g.backFromNow? unit (numberOf run) = some instant := by
  constructor
  · intro h
    unfold relative at h
    obtain ⟨run, after, hrun, h1⟩ := bind_eq_ok.mp h
    obtain ⟨nonempty, rfl, all, ends⟩ := run_eq_ok.mp hrun
    by_cases large : maxAmount < numberOf run
    · rw [if_pos large] at h1
      cases h1
    rw [if_neg large] at h1
    obtain ⟨unit, mid, hunit, h2⟩ := bind_eq_ok.mp h1
    obtain ⟨word, t3, hword, h3⟩ := bind_eq_ok.mp h2
    -- The instant may be out of range; then nothing was read.
    cases counted : g.backFromNow? unit (numberOf run) with
    | none =>
      rw [counted] at h3
      cases h3
    | some found =>
      rw [counted] at h3
      obtain ⟨rfl, rfl⟩ := pure_eq_ok.mp h3
      exact ⟨run, after, unit, mid, ⟨nonempty, all⟩, rfl, ends, Nat.not_lt.mp large, hunit,
        ⟨word, hword⟩, counted⟩
  · rintro ⟨run, after, unit, mid, digits, rfl, ends, bounded, hunit, ⟨word, hword⟩, counted⟩
    unfold relative
    rw [bind_of_ok (run_eq_ok.mpr ⟨digits.1, rfl, digits.2, ends⟩),
      if_neg (Nat.not_lt.mpr bounded), bind_of_ok hunit, bind_of_ok hword, counted]
    rfl

theorem listOf_eq_ok {items : Parser (List Value)}
    (h : g.listOf items text = .ok (value, rest)) :
    ∃ t1 t2 values, g.sign .leftBracket text = .ok ((), t1) ∧ items t1 = .ok (values, t2) ∧
      g.sign .rightBracket t2 = .ok ((), rest) ∧ value = .list values := by
  obtain ⟨_, t1, opening, inside⟩ := bind_eq_ok.mp h
  obtain ⟨values, t2, hitems, hclosing⟩ := bind_eq_ok.mp inside
  obtain ⟨_, t3, closing, hpure⟩ := bind_eq_ok.mp hclosing
  obtain ⟨rfl, rfl⟩ := pure_eq_ok.mp hpure
  exact ⟨t1, t2, values, opening, hitems, required_eq_ok.mp closing, rfl⟩

/-- The items of a list are none, or a first one and others. -/
theorem itemsOf_eq_ok {depth : Nat} {values : List Value}
    (h : itemsOf g wantsDate depth text = .ok (values, rest)) :
    (values = [] ∧ rest = text ∧ (g.literal wantsDate depth).Declines text) ∨
      ∃ first mid others, values = first :: others ∧
        g.literal wantsDate depth text = .ok (first, mid) ∧
        many (furtherItem g wantsDate depth) mid = .ok (others, rest) := by
  unfold itemsOf separatedOrNone at h
  obtain ⟨first, mid, hfirst, hmore⟩ := bind_eq_ok.mp h
  rcases optional_eq_ok.mp hfirst with ⟨value, rfl, read⟩ | ⟨rfl, rfl, declines⟩
  · obtain ⟨others, mid', hothers, hpure⟩ := bind_eq_ok.mp hmore
    obtain ⟨rfl, rfl⟩ := pure_eq_ok.mp hpure
    exact .inr ⟨value, mid, others, rfl, read, hothers⟩
  · obtain ⟨rfl, rfl⟩ := pure_eq_ok.mp hmore
    exact .inl ⟨rfl, rfl, declines⟩

theorem furtherItem_eq_ok {depth : Nat}
    (h : furtherItem g wantsDate depth text = .ok (value, rest)) :
    ∃ mid, g.sign .comma text = .ok ((), mid) ∧
      g.literal wantsDate depth mid = .ok (value, rest) := by
  obtain ⟨_, mid, comma, item⟩ := bind_eq_ok.mp h
  exact ⟨mid, comma, item⟩

/-! ### Triggers -/

variable {trigger : Trigger} {depth : Nat} {accepts : Connective → Bool}
  {operand : Parser Trigger}

/-- A condition is a field, an operator and a literal, and a list where membership is
tested. -/
theorem condition_eq_ok (h : g.condition depth text = .ok (trigger, rest)) :
    ∃ field operator value t1 t2, g.field text = .ok (field, t1) ∧
      g.operator t1 = .ok (operator, t2) ∧
      g.literal field.isTime depth t2 = .ok (value, rest) ∧
      (operator = .among → value.isList = true) ∧
      trigger = .condition ⟨field, operator, value⟩ := by
  unfold condition at h
  obtain ⟨field, t1, hfield, h1⟩ := bind_eq_ok.mp h
  obtain ⟨operator, t2, hoperator, h2⟩ := bind_eq_ok.mp h1
  obtain ⟨_, t3, hblanks, h3⟩ := bind_eq_ok.mp h2
  have skipped : t3 = skipBlanks t2 := by cases hblanks; rfl
  -- The value is read behind the blanks, where a refusal would stand.
  cases read : ((commit (g.literal field.isTime depth)).word .literal) t3 with
  | error failure =>
    rw [read] at h3
    cases h3
  | ok result =>
    obtain ⟨value, mid⟩ := result
    rw [read] at h3
    have value_ := commit_eq_ok.mp (expecting_eq_ok.mp read)
    rw [skipped, literal_skipBlanks] at value_
    change (if operator = Operator.among ∧ ¬value.isList = true then reject .listAfterIn t3
      else Except.ok (Trigger.condition ⟨field, operator, value⟩, mid)) = _ at h3
    by_cases refused : operator = Operator.among ∧ ¬value.isList = true
    · rw [if_pos refused] at h3
      cases h3
    · rw [if_neg refused] at h3
      cases h3
      refine ⟨field, operator, value, t1, t2, expecting_eq_ok.mp hfield,
        commit_eq_ok.mp (expecting_eq_ok.mp hoperator), value_, ?_, rfl⟩
      intro among
      by_contra noList
      exact refused ⟨among, noList⟩

/-- Strictly or leniently, an operand is read after its connective. -/
theorem rightOperand_eq_ok :
    g.rightOperand operand text = .ok (trigger, rest) ↔ operand text = .ok (trigger, rest) := by
  unfold rightOperand
  cases g.lenient with
  | false => exact commit_eq_ok
  | true =>
    show uncommit operand text = _ ↔ _
    unfold uncommit
    cases operand text <;> simp

theorem continuation_eq_ok {connective : Connective}
    (h : g.continuation accepts operand text = .ok ((connective, trigger), rest)) :
    ∃ mid, g.connective accepts text = .ok (connective, mid) ∧
      operand mid = .ok (trigger, rest) := by
  obtain ⟨c, mid, hconnective, h1⟩ := bind_eq_ok.mp h
  obtain ⟨t, t2, hright, h2⟩ := bind_eq_ok.mp h1
  obtain ⟨same, rfl⟩ := pure_eq_ok.mp h2
  cases same
  exact ⟨mid, hconnective, rightOperand_eq_ok.mp hright⟩

theorem tier_eq_ok (h : g.tier accepts operand text = .ok (trigger, rest)) :
    ∃ first mid others, operand text = .ok (first, mid) ∧
      many (g.continuation accepts operand) mid = .ok (others, rest) ∧
      trigger = chain first others := by
  obtain ⟨first, mid, hfirst, h1⟩ := bind_eq_ok.mp h
  obtain ⟨others, mid', hothers, h2⟩ := bind_eq_ok.mp h1
  obtain ⟨rfl, rfl⟩ := pure_eq_ok.mp h2
  exact ⟨first, mid, others, hfirst, hothers, rfl⟩

/-- A connective that is read is one that was wanted. -/
theorem accepts_of_connective {connective : Connective}
    (h : g.connective accepts text = .ok (connective, rest)) : accepts connective = true := by
  rw [connective_eq] at h
  obtain ⟨_, symbol, _, want, _⟩ := mem_of_pick h
  obtain ⟨c, rfl, accepted⟩ := accepts_of_connectiveOf (Option.isSome_of_mem want)
  simp only [connectiveOf, accepted, if_true, Option.some.injEq] at want
  rw [← want, accepted]

/-- An operand is negated, in parentheses or a condition. It is the first of these that
its start fits, and the first two take a level of nesting. -/
theorem operand_eq_ok (h : g.operand depth text = .ok (trigger, rest)) :
    (∃ d mid negated, depth = d + 1 ∧ g.connective Connective.isUnary text = .ok (.not, mid) ∧
      g.operand d mid = .ok (negated, rest) ∧ trigger = negated.negate) ∨
    (∃ d t1 t2, depth = d + 1 ∧ (g.connective Connective.isUnary).Declines text ∧
      g.sign .leftParen text = .ok ((), t1) ∧ g.tiers (g.operand d) t1 = .ok (trigger, t2) ∧
      g.sign .rightParen t2 = .ok ((), rest)) ∨
    ((g.connective Connective.isUnary).Declines text ∧
      g.condition depth text = .ok (trigger, rest)) := by
  rw [operand_eq, operandWith] at h
  obtain ⟨negation, mid, hnegation, h1⟩ := bind_eq_ok.mp h
  rcases optional_eq_ok.mp hnegation with ⟨c, rfl, read⟩ | ⟨rfl, rfl, noNot⟩
  · left
    obtain ⟨negated, inner, rfl⟩ := map_eq_ok.mp h1
    obtain rfl := Connective.isUnary_iff.mp (accepts_of_connective read)
    cases depth with
    | zero => cases inner
    | succ d => exact ⟨d, mid, negated, rfl, read, commit_eq_ok.mp inner, rfl⟩
  · right
    rcases orElse_eq_ok.mp h1 with parens | ⟨_, condition⟩
    · left
      obtain ⟨_, t1, opening, inside⟩ := bind_eq_ok.mp parens
      obtain ⟨held, t2, inner, hclosing⟩ := bind_eq_ok.mp inside
      obtain ⟨_, t3, closing, hpure⟩ := bind_eq_ok.mp hclosing
      obtain ⟨rfl, rfl⟩ := pure_eq_ok.mp hpure
      cases depth with
      | zero => cases inner
      | succ d =>
        exact ⟨d, t1, t2, rfl, noNot, opening, commit_eq_ok.mp inner, required_eq_ok.mp closing⟩
    · exact .inr ⟨noNot, condition⟩

/-- A rule is operands under both tiers and the blanks after them. -/
theorem rule_eq_ok :
    g.rule text = .ok (trigger, rest) ↔
      ∃ mid, g.tiers (g.operand maxDepth) text = .ok (trigger, mid) ∧ rest = skipBlanks mid := by
  constructor
  · intro h
    obtain ⟨t, mid, htiers, h1⟩ := bind_eq_ok.mp h
    obtain ⟨_, end_, hblanks, h2⟩ := bind_eq_ok.mp h1
    obtain ⟨rfl, rfl⟩ := pure_eq_ok.mp h2
    exact ⟨mid, htiers, (Prod.mk.inj (Except.ok.inj hblanks)).2.symm⟩
  · rintro ⟨mid, htiers, rfl⟩
    have hblanks : blanks mid = .ok ((), skipBlanks mid) := rfl
    exact (bind_of_ok htiers).trans (bind_of_ok hblanks)

/-! ### Blanks in front -/

/-- Where the first reading is the same, the whole reading is. -/
private theorem bind_congr_text {α β : Type} {p : Parser α} {f : α → Parser β}
    {text text' : List Char} (same : p text = p text') : (p >>= f) text = (p >>= f) text' := by
  cases read : p text' with
  | ok result =>
    obtain ⟨a, rest⟩ := result
    rw [bind_of_ok (same.trans read), bind_of_ok read]
  | error failure => rw [bind_of_error (same.trans read), bind_of_error read]

/-- Where no token is picked, another reading may be tried. -/
theorem pick_declines_of_error {α : Type} {wanted : Symbol → Option α} {failure : Failure}
    (h : g.pick wanted text = .error failure) : (g.pick wanted).Declines text := by
  refine ⟨failure, h, ?_⟩
  unfold pick at h
  dsimp only at h
  split at h
  · cases h
  · cases h
    rfl

private theorem operandWith_skipBlanks (negated inner : Parser Trigger) :
    g.operandWith depth negated inner (skipBlanks text)
      = g.operandWith depth negated inner text := by
  -- Where no `NOT` stands, the other forms start with a token, too.
  have other : orElse (g.parenthesized inner) (g.condition depth) (skipBlanks text)
      = orElse (g.parenthesized inner) (g.condition depth) text := by
    have sign : g.sign .leftParen (skipBlanks text) = g.sign .leftParen text := by
      rw [sign_eq, pick_skipBlanks]
    have parens : g.parenthesized inner (skipBlanks text) = g.parenthesized inner text :=
      bind_congr_text sign
    have condition : g.condition depth (skipBlanks text) = g.condition depth text := by
      refine bind_congr_text ?_
      unfold word expecting
      rw [field, pick_skipBlanks]
    unfold orElse
    rw [parens, condition]
  have same : g.connective Connective.isUnary (skipBlanks text)
      = g.connective Connective.isUnary text := pick_skipBlanks
  rw [operandWith]
  cases read : g.connective Connective.isUnary text with
  | ok result =>
    rw [bind_of_ok (optional_of_ok (same.trans read)), bind_of_ok (optional_of_ok read)]
  | error failure =>
    have declines : ∀ text', g.connective Connective.isUnary text' = .error failure →
        (g.connective Connective.isUnary).Declines text' :=
      fun _ => pick_declines_of_error
    rw [bind_of_ok (declines _ (same.trans read)).optional, bind_of_ok (declines _ read).optional]
    exact other

/-- Blanks in front of a rule do not matter. -/
theorem rule_skipBlanks : g.rule (skipBlanks text) = g.rule text := by
  have operand : g.operand maxDepth (skipBlanks text) = g.operand maxDepth text := by
    rw [operand_eq]
    exact operandWith_skipBlanks _ _
  exact bind_congr_text (bind_congr_text (bind_congr_text operand))

end

end ForumModeration.Grammar
