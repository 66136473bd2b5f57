import ForumModeration.Proofs.Grammar.Levels

/-!
# `ForumModeration.Proofs.Grammar.Leniency`: strict and lenient reading agree on rules

A lenient grammar differs from a strict one in one place: where the operand after a
connective cannot be read, it ends the rule in front of the connective, while the
strict one fails for good. So a lenient reader `Follows` the strict one. It does the
same wherever the strict one reads something or declines, and only a final failure of
the strict one sets it free.

* `Follows.bind`, `Follows.orElse`, `Follows.optional`, `Follows.many`: readers that
  are put together alike from readers that follow one another follow one another.
* `rule_lenient_of_rule`: a rule that the strict grammar reads is read alike by the lenient
  one, whatever the lexicon.
-/

set_option autoImplicit false

namespace ForumModeration

namespace Parser

variable {α β : Type} {p q : Parser α} {f h : α → Parser β}

/-- Fails and leaves no room for another reading. -/
def Refuses (p : Parser α) (text : List Char) : Prop :=
  ∃ failure, p text = .error failure ∧ failure.committed = true

/-- The first reader does what the second one does, unless that refuses. -/
def Follows (q p : Parser α) : Prop :=
  ∀ text, q text = p text ∨ p.Refuses text

namespace Follows

theorem refl (p : Parser α) : Follows p p :=
  fun _ => .inl rfl

/-- What is read is read by a reader that follows, too. -/
theorem of_ok (follows : Follows q p) {text rest : List Char} {a : α}
    (read : p text = .ok (a, rest)) : q text = .ok (a, rest) := by
  rcases follows text with same | ⟨failure, failed, _⟩
  · rw [same, read]
  · rw [read] at failed
    cases failed

theorem bind (first : Follows q p) (second : ∀ a, Follows (h a) (f a)) :
    Follows (q >>= h) (p >>= f) := by
  intro text
  rcases first text with same | ⟨failure, failed, final⟩
  · cases read : p text with
    | error failure =>
      left
      rw [bind_of_error read, bind_of_error (same.trans read)]
    | ok result =>
      have here : (p >>= f) text = f result.1 result.2 := bind_of_ok read
      have there : (q >>= h) text = h result.1 result.2 := bind_of_ok (same.trans read)
      rcases second result.1 result.2 with same' | ⟨failure, failed, final⟩
      · left
        rw [here, there, same']
      · right
        exact ⟨failure, here.trans failed, final⟩
  · right
    exact ⟨failure, bind_of_error failed, final⟩

theorem map (follows : Follows q p) (g : α → β) : Follows (g <$> q) (g <$> p) :=
  follows.bind fun a => refl (pure (g a))

theorem orElse {p' q' : Parser α} (first : Follows q p) (second : Follows q' p') :
    Follows (q.orElse q') (p.orElse p') := by
  intro text
  rcases first text with same | ⟨failure, failed, final⟩
  · cases read : p text with
    | ok result =>
      left
      simp [Parser.orElse, same, read]
    | error failure =>
      -- The second trial is made in the same cases.
      by_cases final : failure.committed = true
      · left
        simp [Parser.orElse, same, read, final]
      · have declines : p.Declines text := ⟨failure, read, by simpa using final⟩
        have declines' : q.Declines text := ⟨failure, same.trans read, by simpa using final⟩
        unfold Refuses
        rw [declines.orElse_eq, declines'.orElse_eq]
        exact second text
  · right
    refine ⟨failure, ?_, final⟩
    simp [Parser.orElse, failed, final]

theorem commit (follows : Follows q p) : Follows (commit q) (commit p) := by
  intro text
  rcases follows text with same | ⟨failure, failed, _⟩
  · left
    unfold Parser.commit
    rw [same]
  · right
    refine ⟨{ failure with committed := true }, ?_, rfl⟩
    unfold Parser.commit
    rw [failed]

/-- A repetition goes the same way as long as its reader does. -/
theorem many (follows : Follows q p) : Follows (many q) (many p) := by
  intro text
  -- By induction on the length of the text, which every reading shortens.
  induction length : text.length using Nat.strong_induction_on generalizing text with
  | _ n ih =>
    subst length
    rcases follows text with same | ⟨failure, failed, final⟩
    · unfold Refuses
      rw [Parser.many.eq_def q, Parser.many.eq_def p, same]
      cases read : p text with
      | error failure => exact .inl rfl
      | ok result =>
        obtain ⟨a, mid⟩ := result
        by_cases shorter : mid.length < text.length
        · simp only [shorter, if_true]
          rcases ih mid.length shorter mid rfl with same' | ⟨failure, failed, final⟩
          · left
            rw [same']
          · right
            exact ⟨failure, by rw [failed], final⟩
        · left
          simp only [shorter, if_false]
    · right
      refine ⟨failure, ?_, final⟩
      rw [Parser.many, failed]
      simp [final]

end Follows

end Parser

namespace Grammar

open ForumModeration.Parser

variable (g : Grammar)

/-- Literals do not depend on leniency. -/
theorem literal_lenient (wantsDate : Bool) (depth : Nat) :
    ({ g with lenient := true } : Grammar).literal wantsDate depth = g.literal wantsDate depth := by
  induction depth with
  | zero => rfl
  | succ depth ih =>
    show g.literalWith wantsDate (separatedOrNone
      (({ g with lenient := true } : Grammar).literal wantsDate depth) (g.sign .comma)) = _
    rw [ih]
    rfl

theorem condition_lenient (depth : Nat) :
    ({ g with lenient := true } : Grammar).condition depth = g.condition depth := by
  unfold condition
  simp only [literal_lenient]
  rfl

variable {g} {p q : Parser Trigger}

/-- An operand after a connective that is read strictly is read leniently. -/
theorem rightOperand_follows (strict : g.lenient = false) (operand : Follows q p) :
    Follows (({ g with lenient := true } : Grammar).rightOperand q) (g.rightOperand p) := by
  intro text
  show uncommit q text = (if g.lenient = true then uncommit p else commit p) text ∨
    Refuses (if g.lenient = true then uncommit p else commit p) text
  rw [strict, if_neg Bool.false_ne_true]
  cases read : p text with
  | ok result =>
    left
    simp [uncommit, Parser.commit, operand.of_ok read, read]
  | error failure =>
    -- The strict grammar does not go on where the operand fails.
    right
    exact ⟨{ failure with committed := true }, by simp [Parser.commit, read], rfl⟩

theorem tier_follows (strict : g.lenient = false) (accepts : Connective → Bool)
    (operand : Follows q p) :
    Follows (({ g with lenient := true } : Grammar).tier accepts q) (g.tier accepts p) := by
  have further : Follows (({ g with lenient := true } : Grammar).continuation accepts q)
      (g.continuation accepts p) :=
    (Follows.refl (g.connective accepts)).bind fun _ =>
      (rightOperand_follows strict operand).bind fun _ => Follows.refl _
  exact operand.bind fun _ => further.many.bind fun _ => Follows.refl _

theorem tiers_follows (strict : g.lenient = false) (operand : Follows q p) :
    Follows (({ g with lenient := true } : Grammar).tiers q) (g.tiers p) :=
  tier_follows strict _ (tier_follows strict _ operand)

/-- The forms of an operand are tried alike. -/
theorem operandWith_follows (depth : Nat) {negated negated' inner inner' : Parser Trigger}
    (hnegated : Follows negated' negated) (hinner : Follows inner' inner) :
    Follows (({ g with lenient := true } : Grammar).operandWith depth negated' inner')
      (g.operandWith depth negated inner) := by
  have parens : Follows (({ g with lenient := true } : Grammar).parenthesized inner')
      (g.parenthesized inner) :=
    (Follows.refl (g.sign .leftParen)).bind fun _ => hinner.bind fun _ =>
      (Follows.refl (required .closingParen (g.sign .rightParen))).bind fun _ => Follows.refl _
  refine (Follows.refl (Parser.optional (g.connective Connective.isUnary))).bind fun found => ?_
  cases found with
  | some _ => exact hnegated.map Trigger.negate
  | none =>
    refine parens.orElse ?_
    rw [condition_lenient]
    exact Follows.refl _

/-- An operand that is read strictly is read leniently, at any depth. -/
theorem operand_follows (strict : g.lenient = false) (depth : Nat) :
    Follows (({ g with lenient := true } : Grammar).operand depth) (g.operand depth) := by
  -- What is negated and what parentheses hold is one level further in.
  induction depth with
  | zero => exact operandWith_follows 0 (Follows.refl _) (Follows.refl _)
  | succ depth ih =>
    exact operandWith_follows (depth + 1) ih.commit (tiers_follows strict ih).commit

/-- A rule that the strict grammar reads is read alike by the lenient one. -/
theorem rule_lenient_of_rule (strict : g.lenient = false) {text rest : List Char}
    {trigger : Trigger} (read : g.rule text = .ok (trigger, rest)) :
    ({ g with lenient := true } : Grammar).rule text = .ok (trigger, rest) := by
  have follows : Follows ({ g with lenient := true } : Grammar).rule g.rule :=
    (tiers_follows strict (operand_follows strict maxDepth)).bind fun _ => Follows.refl _
  exact follows.of_ok read

end Grammar

end ForumModeration
