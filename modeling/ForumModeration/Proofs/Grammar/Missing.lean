import ForumModeration.Proofs.Grammar.Failures

/-!
# `ForumModeration.Proofs.Grammar.Missing`: what is missing where a rule cannot be read

A failure names what was needed and the place where it is missing. `Candid` says that it
is right. Where a word was needed, no word of that kind stands there and nothing else that
could have been read instead (`Missing`).

* `candid_of_condition`: a field, an operator or a value is missing.
* `candid_of_operand`, `candid_of_rule`: the failures of operands, by induction on the
  levels of nesting that are left, and those of rules.
* `tiers_leave`: what a strict reader of operands leaves starts with no connective.
-/

set_option autoImplicit false

namespace ForumModeration

open Text

/-! ### What is missing -/

namespace TokenTable

variable (table : TokenTable)

/-- A text ends with a field and perhaps blanks, where another text goes on. -/
def FieldEnds (before after : List Char) : Prop :=
  ∃ field lead written blanks, before = lead ++ (written ++ blanks) ∧
    (∀ c ∈ blanks, isBlank c = true) ∧
    table.Token (.field field) (written ++ (blanks ++ after)) (blanks ++ after)

/-- What is missing where a word of some kind was needed between two parts of a text. In
place of a field the start of another operand would do. An operator is needed behind a
field. -/
def Missing (before after : List Char) : WordKind → Prop
  | .field => (∀ field, ¬table.Stands (.field field) after) ∧
      ¬table.Stands (.punctuation .leftParen) after ∧ ¬table.Stands (.connective .not) after
  | .operator => table.FieldEnds before after ∧
      ∀ operator, ¬table.Stands (.operator operator) after
  | .literal => ¬table.LiteralForm after
  | .action => False

/-- A failure is candid about a text: it says what was needed, and if that is a word, it
stands within the text and behind the blanks, and the word is missing there. -/
def Candid (text : List Char) (failure : Failure) : Prop :=
  match failure.expected with
  | some (.word kind) => ∃ before, text = before ++ failure.rest ∧
      skipBlanks failure.rest = failure.rest ∧ table.Missing before failure.rest kind
  | some (.requirement _) => True
  | none => False

variable {table}

/-- A requirement is beyond doubt. -/
theorem candid_of_requirement {text : List Char} {failure : Failure}
    (h : ∃ what, failure.expected = some (.requirement what)) : table.Candid text failure := by
  obtain ⟨what, needed⟩ := h
  unfold Candid
  rw [needed]
  trivial

/-- Whether a failure is final does not matter. -/
theorem candid_committed {text : List Char} {failure : Failure} {final : Bool} :
    table.Candid text { failure with committed := final } ↔ table.Candid text failure :=
  Iff.rfl

/-- A field that was read, and the blanks behind it, end what stands in front of them. -/
theorem fieldEnds_of_token (lead : List Char) {field : Field} {text rest : List Char}
    (token : table.Token (.field field) text rest) :
    ∃ before, lead ++ text = before ++ skipBlanks rest ∧
      table.FieldEnds before (skipBlanks rest) := by
  obtain ⟨before, split⟩ := token.cleanCut.suffix
  obtain ⟨blanks, skipped, blank⟩ := exists_blanks rest
  refine ⟨lead ++ (before ++ blanks), ?_, field, lead, before, blanks, rfl, blank, ?_⟩
  · rw [← split, List.append_assoc, List.append_assoc, ← skipped]
  · rwa [← skipped, split]

end TokenTable

namespace Grammar

open ForumModeration.Parser

variable {g : Grammar} {table : TokenTable} {text rest : List Char} {depth : Nat}
  {failure : Failure}

/-! ### Rules -/

/-- What is declined is declined behind the blanks, too. -/
private theorem declines_skipBlanks {α : Type} {wanted : Symbol → Option α}
    (h : g.pick wanted text = .error failure) : (g.pick wanted).Declines (skipBlanks text) :=
  pick_declines_of_error (pick_skipBlanks.trans h)

/-- A condition that is tried where no other operand starts. -/
theorem candid_of_condition (hg : g.lexicon = table.lexicon) (legible : table.Legible)
    {part : List Char} (inside : part <:+ text)
    (noNot : ¬table.Stands (.connective .not) (skipBlanks part))
    (noParen : ¬table.Stands (.punctuation .leftParen) (skipBlanks part))
    (h : g.condition depth part = .error failure) : table.Candid text failure := by
  obtain ⟨lead, rfl⟩ := inside
  rw [condition_eq] at h
  rcases bind_eq_error.mp h with failed | ⟨field, t1, hfield, h⟩
  · -- Neither a field nor another operand stands here.
    obtain ⟨inner, read, rfl⟩ := expecting_eq_error failed
    obtain ⟨blanks, split, _⟩ := exists_blanks part
    have noField : ∀ f, ¬table.Stands (.field f) (skipBlanks part) := fun f =>
      not_stands_of_declines hg legible (declines_skipBlanks read) rfl
    cases pick_eq_error read
    refine ⟨lead ++ blanks, ?_, skipBlanks_skipBlanks _, noField, noParen, noNot⟩
    rw [List.append_assoc, ← split]
  have field_ : table.Token (.field field) part t1 := by
    have read := expecting_eq_ok.mp hfield
    rw [field_eq] at read
    obtain ⟨symbol, want, token⟩ := token_of_pick hg read
    cases symbol <;> cases want
    exact token
  rcases bind_eq_error.mp h with failed | ⟨operator, t2, hoperator, h⟩
  · -- The field in front of the missing operator has been read.
    obtain ⟨inner, read, rfl⟩ := word_commit_eq_error failed
    have noOperator : ∀ o, ¬table.Stands (.operator o) (skipBlanks t1) := fun o =>
      not_stands_of_declines hg legible (declines_skipBlanks read) rfl
    obtain ⟨before, split, ends⟩ := TokenTable.fieldEnds_of_token lead field_
    cases pick_eq_error read
    exact ⟨before, split, skipBlanks_skipBlanks _, ends, noOperator⟩
  rcases bind_eq_error.mp h with failed | ⟨_, t3, hblanks, h⟩
  · cases failed
  cases hblanks
  rcases checked_eq_error h with failed | refused
  · obtain ⟨inner, read, rfl⟩ := word_commit_eq_error failed
    rcases literal_eq_error read with ⟨what, needed⟩ | ⟨no, same⟩
    · exact TokenTable.candid_of_requirement ⟨what, by simp [needed]⟩
    · -- The value is looked for behind the blanks that come after the operator.
      have noForm := not_literalForm_of_declines hg legible no
      rw [skipBlanks_skipBlanks] at same noForm
      have operator_ := (pick_cuts hg operatorOf) (commit_eq_ok.mp (expecting_eq_ok.mp hoperator))
      have inside : skipBlanks t2 <:+ lead ++ part :=
        (List.dropWhile_suffix _).trans (operator_.suffix.trans
          (field_.cleanCut.suffix.trans (List.suffix_append _ _)))
      obtain ⟨before, split⟩ := inside
      rw [same]
      exact ⟨before, split.symm, skipBlanks_skipBlanks _, noForm⟩
  · exact TokenTable.candid_of_requirement ⟨_, refused⟩

/-- The failures of a reader are candid about a whole text, wherever in it the reader
starts. -/
def CandidIn (table : TokenTable) (text : List Char) (p : Parser Trigger) : Prop :=
  ∀ ⦃part failure⦄, part <:+ text → p part = .error failure → table.Candid text failure

variable {p : Parser Trigger}

theorem CandidIn.commit (h : CandidIn table text p) : CandidIn table text (commit p) := by
  intro part failure inside failed
  obtain ⟨inner, read, rfl⟩ := commit_eq_error failed
  exact TokenTable.candid_committed.mpr (h inside read)

theorem CandidIn.reject (what : Requirement) : CandidIn table text (reject what) := by
  intro part failure _ failed
  cases failed
  exact TokenTable.candid_of_requirement ⟨what, rfl⟩

/-- Operands of one tier fail as an operand does. -/
theorem CandidIn.tier (hg : g.lexicon = table.lexicon) (accepts : Connective → Bool)
    (cuts : Cuts p) (h : CandidIn table text p) : CandidIn table text (g.tier accepts p) := by
  intro part failure inside failed
  rcases bind_eq_error.mp failed with failed | ⟨first, mid, read, failed⟩
  · exact h inside failed
  have inside' : mid <:+ text := (cuts read).suffix.trans inside
  rcases bind_eq_error.mp failed with failed | ⟨_, _, _, failed⟩
  · obtain ⟨start, inside, failed, final⟩ := exists_of_many_error (S := (· <:+ text))
      (fun _ _ _ inside read => (continuation_cuts hg accepts cuts read).suffix.trans inside)
      inside' failed
    rcases bind_eq_error.mp failed with failed | ⟨c, mid, hconnective, failed⟩
    · rw [connective_eq] at failed
      rw [pick_eq_error failed] at final
      cases final
    have inside : mid <:+ text := (connective_cuts hg accepts hconnective).suffix.trans inside
    rcases bind_eq_error.mp failed with failed | ⟨_, _, _, failed⟩
    · obtain ⟨inner, read, rfl⟩ := rightOperand_eq_error failed
      exact TokenTable.candid_committed.mpr (h inside read)
    · cases failed
  · cases failed

theorem CandidIn.tiers (hg : g.lexicon = table.lexicon) (cuts : Cuts p)
    (h : CandidIn table text p) : CandidIn table text (g.tiers p) :=
  .tier hg _ (tier_cuts hg _ cuts) (.tier hg _ cuts h)

/-- Operands fail candidly, if what they hold does. -/
theorem CandidIn.operandWith (hg : g.lexicon = table.lexicon) (legible : table.Legible)
    {negated inner : Parser Trigger} (firm : Firm inner)
    (hnegated : CandidIn table text negated) (hinner : CandidIn table text inner) :
    CandidIn table text (g.operandWith depth negated inner) := by
  intro part failure inside h
  rcases bind_eq_error.mp h with failed | ⟨negation, mid, hnot, other⟩
  · -- A `NOT` may be missing.
    obtain ⟨failed, final⟩ := optional_eq_error failed
    rw [connective_eq] at failed
    rw [pick_eq_error failed] at final
    cases final
  rcases optional_eq_ok.mp hnot with ⟨c, rfl, read⟩ | ⟨rfl, rfl, noNot⟩
  · rcases bind_eq_error.mp other with failed | ⟨_, _, _, failed⟩
    · exact hnegated ((connective_cuts hg _ read).suffix.trans inside) failed
    · cases failed
  rcases orElse_eq_error (show orElse (g.parenthesized inner) (g.condition depth) mid = _
    from other) with ⟨failed, final⟩ | ⟨noParens, failed⟩
  · -- A sign has been read, so what comes after it has failed.
    rcases bind_eq_error.mp failed with failed | ⟨_, t1, opening, failed⟩
    · rw [sign_eq] at failed
      rw [pick_eq_error failed] at final
      cases final
    rcases bind_eq_error.mp failed with failed | ⟨_, t2, held, failed⟩
    · exact hinner ((sign_cuts hg _ opening).suffix.trans inside) failed
    rcases bind_eq_error.mp failed with failed | ⟨_, _, _, failed⟩
    · rcases sign_required (S := fun _ => True) trivial _ failed with ⟨soft, _⟩ | ⟨_, _, named⟩
      · cases soft.symm.trans final
      · exact TokenTable.candid_of_requirement ⟨_, named⟩
    · cases failed
  · refine candid_of_condition hg legible inside ?_ ?_ failed
    · exact fun stands => not_stands_of_connective hg legible noNot rfl stands.unskipped
    · rcases noParens.of_bind with no | ⟨_, mid, _, no⟩
      · exact fun stands => not_stands_of_sign hg legible no stands.unskipped
      · exact absurd no
          ((firm.bind fun _ => (Firm.required _ _).bind fun _ => .pure _) mid)

/-- What is said of an operand that is missing is true: what else could start there was tried
first. -/
theorem candid_of_operand (hg : g.lexicon = table.lexicon) (legible : table.Legible)
    (text : List Char) (depth : Nat) : CandidIn table text (g.operand depth) := by
  -- By induction on the levels left: what an operand holds has one less.
  induction depth with
  | zero => exact .operandWith hg legible (.reject _) (.reject _) (.reject _)
  | succ depth ih =>
    have cuts := operand_cuts hg depth
    exact .operandWith hg legible (.commit _) ih.commit (CandidIn.tiers hg cuts ih).commit

theorem candid_of_rule (hg : g.lexicon = table.lexicon) (legible : table.Legible)
    (h : g.rule text = .error failure) : table.Candid text failure := by
  rcases bind_eq_error.mp h with failed | ⟨_, _, _, failed⟩
  · exact CandidIn.tiers hg (operand_cuts hg _) (candid_of_operand hg legible text _)
      (List.suffix_refl _) failed
  · rcases bind_eq_error.mp failed with failed | ⟨_, _, _, failed⟩ <;> cases failed

/-! ### Where operands end -/

/-- What a strict reader of operands of one tier leaves starts with no connective of the tier,
and with nothing that an operand does not leave. -/
private theorem tier_leaves (hg : g.lexicon = table.lexicon) (strict : g.lenient = false)
    {accepts : Connective → Bool} (cuts : Cuts p) {P : List Char → Prop}
    (leaves : ∀ ⦃text trigger rest⦄, p text = .ok (trigger, rest) → P rest)
    {trigger : Trigger} (read : g.tier accepts p text = .ok (trigger, rest)) :
    (g.connective accepts).Declines rest ∧ P rest := by
  obtain ⟨first, mid, others, hfirst, hothers, _⟩ := tier_eq_ok read
  have shorter : ∀ ⦃text a rest⦄, g.continuation accepts p text = .ok (a, rest) →
      rest.length < text.length := by
    rintro text ⟨c, trigger⟩ rest read
    obtain ⟨mid, hconnective, hoperand⟩ := continuation_eq_ok read
    rw [connective_eq] at hconnective
    exact (cuts hoperand).length_le.trans_lt (pick_length_lt hg hconnective)
  constructor
  · rcases (declines_of_many shorter hothers).of_bind with no | ⟨c, mid, _, no⟩
    · exact no
    · refine absurd no (Firm.bind ?_ (fun _ => .pure _) mid)
      unfold rightOperand
      rw [strict]
      exact .commit _
  · have all := many_sound (R := fun text _ rest => P text → P rest) (fun _ h => h) ?_ hothers
    · exact all (leaves hfirst)
    · rintro text ⟨c, trigger⟩ mid others rest read more _
      obtain ⟨mid', _, hoperand⟩ := continuation_eq_ok read
      exact more (leaves hoperand)

/-- What a strict reader of operands leaves starts with no connective that stands between
operands. -/
theorem tiers_leave (hg : g.lexicon = table.lexicon) (legible : table.Legible)
    (strict : g.lenient = false) {trigger : Trigger} (cuts : Cuts p)
    (read : g.tiers p text = .ok (trigger, rest)) {c : Connective} (binary : c.isUnary = false) :
    ¬table.Stands (.connective c) rest := by
  obtain ⟨noOr, noAnd, _⟩ := tier_leaves hg strict (tier_cuts hg _ cuts)
    (fun _ _ _ read => tier_leaves hg strict cuts (P := fun _ => True)
      (fun _ _ _ _ => trivial) read) read
  cases loose : c.inOrTier with
  | true => exact not_stands_of_connective hg legible noOr loose
  | false =>
    have tight : c.inAndTier = true := by
      have classes := c.unary_or_tier.1
      rwa [binary, loose, Bool.false_or, eq_comm, Bool.not_eq_false'] at classes
    exact not_stands_of_connective hg legible noAnd tight

end Grammar

end ForumModeration
