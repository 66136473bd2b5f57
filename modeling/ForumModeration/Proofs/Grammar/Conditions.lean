import ForumModeration.Proofs.Grammar.Nesting

/-!
# `ForumModeration.Proofs.Grammar.Conditions`: conditions taken by their value

What a condition means, and whether it can be read, is up to its value. Behind a field and an
operator (`TokenTable.Comparison`) stands a value that starts with a digit, a sign or a quote;
the operator ends in front of it, as no operator holds such a character
(`TokenTable.ComparesPlainly`).

* `Comparison.costs`, `Comparison.refused`: the condition goes the way of its value.
* `Comparison.rule_of_costs`, `Comparison.rule_refused`: so does a rule that starts with it.
-/

set_option autoImplicit false

namespace ForumModeration

open Text

namespace TokenTable

/-- Operators hold no character that starts a literal other than a word. -/
structure ComparesPlainly (table : TokenTable) : Prop where
  operators : ∀ entry ∈ table.entries, entry.1.isOperator = true → ∀ token ∈ entry.2,
    token.toList.all (fun c => !startsNoToken c) = true

theorem comparesPlainly_dsl : dsl.ComparesPlainly where
  operators := by decide +kernel

theorem comparesPlainly_cnl : cnl.ComparesPlainly where
  operators := by decide +kernel

variable (table : TokenTable)

/-- A text starts with a field and an operator, and `value` comes after them. -/
def Comparison (field : Field) (operator : Operator) (text value : List Char) : Prop :=
  ∃ mid, table.Token (.field field) text mid ∧ table.Token (.operator operator) mid value

variable {table} {field : Field} {operator : Operator} {text value : List Char}

theorem Comparison.suffix (h : table.Comparison field operator text value) : value <:+ text := by
  obtain ⟨mid, field_, operator_⟩ := h
  exact operator_.cleanCut.suffix.trans field_.cleanCut.suffix

end TokenTable

namespace Grammar

open ForumModeration.Parser

variable {table : TokenTable} {g : Grammar} {text mid value rest : List Char} {field : Field}
  {operator : Operator}

/-- An operator is picked in front of a value that is no word, with blanks between them or
without. -/
theorem operator_before_value (hg : g.lexicon = table.lexicon) (legible : table.Legible)
    (contained : table.Contained) (plain : table.ComparesPlainly)
    (token : table.Token (.operator operator) text value)
    (special : Ahead (startsNoToken · = true) (skipBlanks value)) :
    g.operator text = .ok (operator, value) := by
  rw [operator_eq]
  refine pick_before_foreign hg legible rfl (fun _ => alike_of_operatorOf) ?_ token
  rintro c first ⟨other, t⟩ mem alike d held letter
  by_cases blank : isBlank c = true
  · have notBlank := isBlank_eq_false_of_mem contained mem held
    rw [← isBlank_toLower, letter, isBlank_toLower, blank] at notBlank
    cases notBlank
  · obtain ⟨_, entry, hentry, named, spelling, listed, rfl⟩ := TokenTable.exists_entry mem
    have none := plain.operators entry hentry (by rw [named]; exact isOperator_of_alike alike)
      spelling listed
    have plainChar : startsNoToken d = false := by simpa using List.all_eq_true.mp none d held
    have start : startsNoToken c = true := by
      cases value with
      | nil => cases first
      | cons _ tail =>
        cases first
        rw [skipBlanks_eq_of_not_blank (by simpa using blank)] at special
        exact ahead_cons.mp special
    rw [← startsNoToken_toLower, letter, startsNoToken_toLower, start] at plainChar
    cases plainChar

/-- The words of a comparison are read in front of a value that is no word. -/
theorem comparison_read (hg : g.lexicon = table.lexicon) (legible : table.Legible)
    (contained : table.Contained) (opens : table.OpensPlainly) (plain : table.ComparesPlainly)
    (h : table.Comparison field operator text value)
    (special : Ahead (startsNoToken · = true) (skipBlanks value)) :
    ∃ mid, g.field text = .ok (field, mid) ∧ g.operator mid = .ok (operator, value) := by
  obtain ⟨mid, field_, operator_⟩ := h
  exact ⟨mid, field_of_opens hg legible opens field_,
    operator_before_value hg legible contained plain operator_ special⟩

end Grammar

namespace TokenTable.Comparison

open Grammar ForumModeration.Parser

variable {table : TokenTable} {g : Grammar} {text value rest : List Char} {field : Field}
  {operator : Operator} (hg : g.lexicon = table.lexicon) (legible : table.Legible)
  (contained : table.Contained) (opens : table.OpensPlainly) (plain : table.ComparesPlainly)

include hg legible contained opens plain

/-- A condition is read with the value that is read in it. -/
theorem costs {v : Value} (h : table.Comparison field operator text value)
    (special : Ahead (startsNoToken · = true) (skipBlanks value))
    (read : Costs (g.literal field.isTime) 0 value v rest)
    (membership : operator = .among → v.isList = true) :
    Costs g.condition 0 text (.condition ⟨field, operator, v⟩) rest := by
  obtain ⟨mid, hfield, hoperator⟩ := comparison_read hg legible contained opens plain h special
  exact Costs.condition hg hfield hoperator read membership

/-- A condition is refused where its value is refused for good, and for the same reason. -/
theorem refused {stop : List Char} {what : Requirement} {depth : Nat}
    (h : table.Comparison field operator text value)
    (special : Ahead (startsNoToken · = true) (skipBlanks value))
    (refused : g.literal field.isTime depth value
      = .error ⟨stop, some (.requirement what), true⟩) :
    g.condition depth text = .error ⟨stop, some (.requirement what), true⟩ := by
  obtain ⟨mid, hfield, hoperator⟩ := comparison_read hg legible contained opens plain h special
  exact condition_of_error hfield hoperator (by rw [literal_skipBlanks]; exact refused)

end TokenTable.Comparison

namespace Grammar

open ForumModeration.Parser

variable {table : TokenTable} {g : Grammar} {text value rest : List Char} {field : Field}
  {operator : Operator} {trigger : Trigger}

/-- A rule that is a condition is read as that condition. -/
theorem rule_of_condition (hg : g.lexicon = table.lexicon) (legible : table.Legible)
    (h : table.Comparison field operator text value)
    (read : Costs g.condition 0 text trigger rest) (ended : skipBlanks rest = []) :
    complete g.rule text = .ok trigger := by
  obtain ⟨mid, field_, _⟩ := h
  have operand := read.congr (operand_of_field hg legible field_)
  have tight : EndsWith table (orConnective closes Connective.inOrTier) rest := .inl ended
  have loose : EndsWith table closes rest := .inl ended
  have tiers := Costs.single (Costs.single operand (tight.andTier_declines hg legible))
    (loose.orTier_declines hg legible)
  exact (rule_of_costs tiers ended).1 (Nat.zero_le _)

/-- A rule is refused where the condition that it starts with is. -/
theorem rule_of_condition_error {failure : Failure} (hg : g.lexicon = table.lexicon)
    (legible : table.Legible) (h : table.Comparison field operator text value)
    (refused : g.condition maxDepth text = .error failure) :
    complete g.rule text = .error failure := by
  obtain ⟨mid, field_, _⟩ := h
  have operand := (operand_of_field hg legible field_ maxDepth).trans refused
  have rule : g.rule text = .error failure := bind_of_error (bind_of_error (bind_of_error operand))
  unfold complete
  rw [rule]

end Grammar

end ForumModeration
