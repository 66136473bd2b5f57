import ForumModeration.Proofs.Grammar.Contexts
import ForumModeration.Proofs.Grammar.Failures

/-!
# `ForumModeration.Proofs.Grammar.Prose`: rules with prose behind them

A lenient reader ends a rule in front of a connective that has no right operand, so a word
such as `and` behind a rule is left to the prose.

Where there is no operand, there is no failure that would be final, either
(`continuation_soft`). So a lenient reader that has read one operand has a rule, whatever
comes next (`exists_rule_of_operand`). It follows that there is no operand in front of a
text of which no beginning is a rule.

* `tier_of_context`: a lenient tier in another context, if it ends where it did.
* `rule_before_prose`: a whole text that is a rule is read in front of prose, and what is
  left starts with the connective.
-/

set_option autoImplicit false

namespace ForumModeration.Grammar

open Text ForumModeration.Parser

/-! ### Connectives of both tiers -/

theorem isUnary_eq_false_of_tier {accepts : Connective → Bool}
    (tier : accepts = Connective.inOrTier ∨ accepts = Connective.inAndTier) {c : Connective}
    (accepted : accepts c = true) : c.isUnary = false := by
  rcases tier with rfl | rfl <;> cases c <;> first | rfl | exact absurd accepted (by decide)

/-- Where a connective stands that a tier does not have, those of the tier are tried. -/
theorem triedAt_of_tier {accepts : Connective → Bool}
    (tier : accepts = Connective.inOrTier ∨ accepts = Connective.inAndTier) {c d : Connective}
    (binary : c.isUnary = false) (foreign : accepts c = false) (accepted : accepts d = true) :
    (Symbol.connective c).triedAt (.connective d) = true := by
  rcases tier with rfl | rfl <;> cases c <;> cases d <;>
    first
      | rfl | exact absurd binary (by decide) | exact absurd foreign (by decide)
      | exact absurd accepted (by decide)

section

variable {table : TokenTable} {g : Grammar} {accepts : Connective → Bool} {p q : Parser Trigger}
  {text rest : List Char} {trigger : Trigger}

/-! ### Lenient readers -/

/-- A lenient reader of a connective and its operand fails only so that the rule may end in
front of the connective. -/
theorem continuation_soft (lenient : g.lenient = true) {failure : Failure}
    (failed : g.continuation accepts p text = .error failure) : failure.committed = false := by
  rcases bind_eq_error.mp failed with failed | ⟨_, mid, _, failed⟩
  · rw [connective_eq] at failed
    rw [pick_eq_error failed]
  · rcases bind_eq_error.mp failed with failed | ⟨_, _, _, failed⟩
    · obtain ⟨inner, _, rfl⟩ := rightOperand_eq_error failed
      simp [lenient]
    · cases failed

/-- A lenient tier that has one operand is read. -/
theorem exists_tier_of_operand (lenient : g.lenient = true) (accepts : Connective → Bool)
    (read : p text = .ok (trigger, rest)) :
    ∃ trigger rest, g.tier accepts p text = .ok (trigger, rest) := by
  cases others : many (g.continuation accepts p) rest with
  | ok result => exact ⟨_, _, (bind_of_ok read).trans (bind_of_ok others)⟩
  | error failure =>
    obtain ⟨mid, _, failed, final⟩ := exists_of_many_error (S := fun _ => True)
      (fun _ _ _ _ _ => trivial) trivial others
    rw [continuation_soft lenient failed] at final
    cases final

/-- A lenient rule that has one operand is read. -/
theorem exists_rule_of_operand (lenient : g.lenient = true)
    (read : g.operand maxDepth text = .ok (trigger, rest)) :
    ∃ trigger rest, g.rule text = .ok (trigger, rest) := by
  obtain ⟨_, _, inner⟩ := exists_tier_of_operand lenient Connective.inAndTier read
  obtain ⟨_, _, outer⟩ := exists_tier_of_operand lenient Connective.inOrTier inner
  exact ⟨_, _, rule_eq_ok.mpr ⟨_, outer, rfl⟩⟩

/-- In front of a connective that has no right operand a lenient tier ends, whether the
connective belongs to it or not. -/
theorem continuation_declines (hg : g.lexicon = table.lexicon) (legible : table.Legible)
    (contained : table.Contained) (lenient : g.lenient = true)
    (tier : accepts = Connective.inOrTier ∨ accepts = Connective.inAndTier)
    {connective : Connective} (binary : connective.isUnary = false)
    (token : table.Token (.connective connective) text rest)
    (blank : Ahead (isBlank · = true) rest)
    (none : ∀ trigger after, p rest ≠ .ok (trigger, after)) :
    (g.continuation accepts p).Declines text := by
  cases read : g.continuation accepts p text with
  | error failure => exact ⟨failure, read, continuation_soft lenient read⟩
  | ok result =>
    exfalso
    obtain ⟨⟨c, trigger⟩, after⟩ := result
    obtain ⟨mid, hconnective, hoperand⟩ := continuation_eq_ok read
    cases accepted : accepts connective with
    | true =>
      -- What is read is the connective, so the operand would be behind it.
      have here : g.connective accepts text = .ok (connective, rest) := by
        rw [connective_eq]
        refine pick_before_blank hg legible contained (by simp [connectiveOf, accepted]) ?_ blank
          token
        intro t want
        obtain ⟨d, rfl, accepted'⟩ := accepts_of_connectiveOf want
        exact tier_alike (tier.imp_right .inl) accepted accepted'
      rw [hconnective] at here
      cases here
      exact none _ _ hoperand
    | false =>
      have declines : (g.connective accepts).Declines text := by
        refine connective_declines_at hg legible token ?_
        intro d accepted'
        exact triedAt_of_tier tier binary accepted accepted'
      exact declines.not_ok hconnective

end

/-! ### Rules in another context -/

/-- The lenient grammar of a table. -/
def leniently (table : TokenTable) (now : Instant) : Grammar :=
  { ofTable table now with lenient := true }

section

variable {table : TokenTable} {now : Instant} {accepts : Connective → Bool} {p q : Parser Trigger}
  {span context context' part rest : List Char} {trigger : Trigger}

/-- A tier within the span is read leniently in the other context, if its operands are read
there in front of what may come next, and if it ends where it did. -/
theorem tier_of_context (h : Interchangeable table span context context') (cuts : Cuts p)
    {P : List Char → Prop}
    (operand : ∀ {part rest trigger}, part <:+ span →
      p (part ++ context) = .ok (trigger, rest ++ context) → P (rest ++ context') →
      q (part ++ context') = .ok (trigger, rest ++ context'))
    (connective : ∀ {c text rest}, accepts c = true →
      table.Token (.connective c) text rest → P text)
    (stop : ((leniently table now).continuation accepts q).Declines (rest ++ context'))
    (ends : P (rest ++ context')) (inside : part <:+ span)
    (read : (ofTable table now).tier accepts p (part ++ context) = .ok (trigger, rest ++ context)) :
    (leniently table now).tier accepts q (part ++ context') = .ok (trigger, rest ++ context') := by
  obtain ⟨first, text, others, hfirst, hothers, rfl⟩ := tier_eq_ok read
  have cuts' := continuation_cuts (g := ofTable table now) rfl accepts cuts
  obtain ⟨mid, rfl, inside'⟩ :=
    Interchangeable.exists_part inside (cuts hfirst) (cuts'.many hothers)
  have further : many ((leniently table now).continuation accepts q) (mid ++ context')
        = .ok (others, rest ++ context') ∧ P (mid ++ context') := by
    refine Interchangeable.many_induction cuts' (R := fun part others =>
      many ((leniently table now).continuation accepts q) (part ++ context')
        = .ok (others, rest ++ context') ∧ P (part ++ context')) ?_ ?_ inside' hothers
    · obtain ⟨failure, failed, soft⟩ := stop
      exact ⟨many_of_error failed soft, ends⟩
    · rintro part mid ⟨c, trigger⟩ others inside inside' first ⟨more, ends'⟩
      obtain ⟨text, hconnective, hoperand⟩ := continuation_eq_ok first
      obtain ⟨start, rfl, inside''⟩ := Interchangeable.exists_part inside
        (connective_cuts rfl accepts hconnective) (cuts hoperand)
      -- The connective is read in the other context as well, and then its operand.
      have hconnective' : (ofTable table now).connective accepts (part ++ context')
          = .ok (c, start ++ context') := h.pick rfl rfl inside hconnective
      have hoperand' := operand inside'' hoperand ends'
      have step : (leniently table now).continuation accepts q (part ++ context')
          = .ok ((c, trigger), mid ++ context') :=
        (bind_of_ok hconnective').trans (bind_of_ok (rightOperand_eq_ok.mpr hoperand'))
      obtain ⟨accepted, token⟩ := token_of_connective hconnective'
      have shorter : (mid ++ context').length < (part ++ context').length := by
        have := (cuts hoperand).length_le
        have := token.length_lt
        simp only [List.length_append] at *
        omega
      exact ⟨many_of_ok step shorter more, connective accepted token⟩
  exact (bind_of_ok (operand inside hfirst further.2)).trans (bind_of_ok further.1)

/-- Operands under both tiers within the span, if both tiers end where they did. -/
theorem tiers_of_context (h : Interchangeable table span context context')
    (legible : table.Legible) (ends : Ends table (rest ++ context'))
    (noAnd : ((leniently table now).continuation Connective.inAndTier
      ((leniently table now).operand maxDepth)).Declines (rest ++ context'))
    (noOr : ((leniently table now).continuation Connective.inOrTier
      ((leniently table now).tier Connective.inAndTier
        ((leniently table now).operand maxDepth))).Declines (rest ++ context'))
    (inside : part <:+ span)
    (read : (ofTable table now).tiers ((ofTable table now).operand maxDepth) (part ++ context)
      = .ok (trigger, rest ++ context)) :
    (leniently table now).tiers ((leniently table now).operand maxDepth) (part ++ context')
      = .ok (trigger, rest ++ context') := by
  have ender : ∀ {accepts c text rest}, accepts = Connective.inOrTier ∨
      accepts = Connective.inAndTier → accepts c = true →
      table.Token (.connective c) text rest → Ends table text := by
    intro accepts c text rest tier accepted token
    exact .inr ⟨_, _, by simp [Symbol.isEnder, isUnary_eq_false_of_tier tier accepted], token⟩
  refine tier_of_context h (tier_cuts rfl _ (operand_cuts rfl maxDepth))
    (P := fun text => Ends table text ∧ ((leniently table now).continuation Connective.inAndTier
      ((leniently table now).operand maxDepth)).Declines text) ?_ ?_ noOr ⟨ends, noAnd⟩ inside read
  · rintro part rest trigger inside read ⟨ends, noAnd⟩
    refine tier_of_context h (operand_cuts rfl maxDepth) (P := Ends table) ?_ (ender (.inr rfl))
      noAnd ends inside read
    intro part rest trigger inside read ends
    obtain ⟨n, enough, costs⟩ := h.operand legible rfl inside read ends
    exact (operand_follows rfl maxDepth).of_ok (costs.reads maxDepth enough)
  · intro c text rest loose token
    refine ⟨ender (.inl rfl) loose token,
      Declines.bind (connective_declines_at rfl legible token ?_)⟩
    have foreign := c.unary_or_tier.2
    rw [loose, Bool.true_and] at foreign
    exact fun _ => triedAt_of_tier (.inr rfl) (isUnary_eq_false_of_tier (.inl rfl) loose) foreign

/-- There is no operand in front of a text of which no beginning is a rule. -/
theorem operand_ne_ok_of_unread (legible : table.Legible) (contained : table.Contained)
    {prose : List Char}
    (unread : ∀ part, part <+: prose → ∀ trigger,
      complete (ofTable table now).rule part ≠ .ok trigger)
    {blanks : List Char} (blank : ∀ c ∈ blanks, isBlank c = true) (trigger : Trigger)
    (rest : List Char) :
    (leniently table now).operand maxDepth (blanks ++ prose) ≠ .ok (trigger, rest) := by
  intro read
  have hg : (leniently table now).lexicon = table.lexicon := rfl
  obtain ⟨whole, left, rule_⟩ := exists_rule_of_operand rfl read
  rw [← rule_skipBlanks, skipBlanks_append_of_blank blank, rule_skipBlanks] at rule_
  obtain ⟨span, rfl⟩ := (rule_cuts hg rule_).suffix
  exact unread span (List.prefix_append _ _) whole (rule_of_span legible contained hg rule_)

/-- A whole text that is a rule, in front of a connective with no right operand: the rule is
read, and the connective is left. -/
theorem rule_before_prose (legible : table.Legible) (contained : table.Contained)
    {text more after : List Char} {c : Char} {connective : Connective}
    (read : complete (ofTable table now).rule text = .ok trigger) (space : isBlank c = true)
    (binary : connective.isUnary = false)
    (token : table.Token (.connective connective) (c :: more) after)
    (blank : Ahead (isBlank · = true) after)
    (none : ∀ trigger rest, (leniently table now).operand maxDepth after ≠ .ok (trigger, rest)) :
    (leniently table now).rule (text ++ c :: more) = .ok (trigger, skipBlanks (c :: more)) := by
  obtain ⟨mid, htiers, nothing⟩ := rule_eq_ok.mp (complete_eq_ok.mp read)
  obtain ⟨spaces, split, spaces_⟩ := exists_blanks mid
  rw [← nothing, List.append_nil] at split
  subst split
  -- Where the text ends the connective comes next, and there both tiers end.
  have there := token.prepend spaces_
  have noTier : ∀ trigger rest, (leniently table now).tier Connective.inAndTier
      ((leniently table now).operand maxDepth) after ≠ .ok (trigger, rest) := by
    intro trigger rest read
    obtain ⟨_, _, _, first, _⟩ := tier_eq_ok read
    exact none _ _ first
  rw [← List.append_nil text, ← List.append_nil mid] at htiers
  have htiers' := tiers_of_context (interchangeable_blank contained space text more) legible
    (.inr ⟨_, _, by simp [Symbol.isEnder, binary], there⟩)
    (continuation_declines rfl legible contained rfl (.inr rfl) binary there blank none)
    (continuation_declines rfl legible contained rfl (.inl rfl) binary there blank noTier)
    (List.suffix_refl text) htiers
  refine rule_eq_ok.mpr ⟨mid ++ c :: more, htiers', ?_⟩
  rw [skipBlanks_append_of_blank spaces_]

/-- A rule, a connective and prose with white space between them: the rule is read, and the
connective is left. -/
theorem rule_of_prose (legible : table.Legible) (contained : table.Contained)
    {text gap word gap' prose spelling : List Char} {connective : Connective}
    (read : complete (ofTable table now).rule text = .ok trigger)
    (binary : connective.isUnary = false)
    (mem : (spelling, .connective connective) ∈ table.lexicon) (same : lower word = lower spelling)
    (nonempty : gap ≠ []) (spaces : ∀ c ∈ gap, isBlank c = true)
    (nonempty' : gap' ≠ []) (spaces' : ∀ c ∈ gap', isBlank c = true)
    (unread : ∀ part, part <+: prose → ∀ trigger,
      complete (ofTable table now).rule part ≠ .ok trigger) :
    (leniently table now).rule (text ++ gap ++ (word ++ (gap' ++ prose)))
      = .ok (trigger, word ++ (gap' ++ prose)) := by
  have blank : Ahead (isBlank · = true) (gap' ++ prose) := by
    obtain ⟨c, more, rfl⟩ := List.exists_cons_of_ne_nil nonempty'
    exact ahead_cons.mpr (spaces' c (by simp))
  have boundary : RespectsBoundary spelling (gap' ++ prose) := by
    refine fun _ => blank.imp fun c space => ⟨isIdent_eq_false_of_isBlank space, ?_⟩
    rintro rfl
    exact absurd space (by decide)
  have token : table.Token (.connective connective) (gap ++ (word ++ (gap' ++ prose)))
      (gap' ++ prose) :=
    ⟨gap, word, spelling, (List.append_assoc _ _ _).symm, spaces,
      TokenTable.mem_lexicon_iff.mp mem, same, boundary⟩
  have left : skipBlanks (gap ++ (word ++ (gap' ++ prose))) = word ++ (gap' ++ prose) := by
    rw [skipBlanks_append_of_blank spaces, legible.skipBlanks_written mem same]
  have none := operand_ne_ok_of_unread legible contained unread spaces'
  rw [List.append_assoc]
  obtain ⟨c, more, rfl⟩ := List.exists_cons_of_ne_nil nonempty
  rw [List.cons_append] at token left ⊢
  rw [rule_before_prose legible contained read (spaces c (by simp)) binary token blank none, left]

end

end ForumModeration.Grammar
