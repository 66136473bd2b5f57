import ForumModeration.Proofs.Grammar.Phrases
import ForumModeration.Proofs.Trees

/-!
# `ForumModeration.Proofs.Grammar.Meanings`: what phrases can mean

Not every trigger is the meaning of a phrase. In a trigger that is, `NOT` has one child
and every other connective has two or more, membership is tested in lists, instants are
in the offset of the grammar and can be written as dates of it, and no string that is
compared with a field of time is a date: it would mean that date
(`rulePhrase_meaning`). The one thing that the grammar does not promise is that numbers
are finite, as a number may be written with so many digits that it is not.

The present that the grammar counts from has to be such an instant itself. What is said
of groups and of membership holds whatever the present is (`rulePhrase_lists`).
-/

set_option autoImplicit false

namespace ForumModeration

open Text

/-- What holds of a scalar that a phrase means, where dates are wanted or not. -/
def Value.Meant (offset : Offset) (wantsDate : Bool) : Value → Prop
  | .instant time =>
    time.offset = offset ∧ time.isLeap = false ∧ Grammar.hasShortYear time = true
  | .string text =>
    wantsDate = true → ∀ instant, ¬AbsoluteDate offset (trim text.toList) instant
  | _ => True

/-- What holds of a condition that a phrase means. -/
def Condition.Meant (offset : Offset) (c : Condition) : Prop :=
  (c.operator = .among → c.value.isList = true) ∧
    ∀ v ∈ c.value.scalars, v.Meant offset c.field.isTime

/-- The groups of a trigger have as many children as their connectives take, and something
holds of its conditions. -/
structure Trigger.Shaped (P : Condition → Prop) (t : Trigger) : Prop where
  arities : ∀ g ∈ t.groups, g.1.acceptsArity g.2 = true
  conditions : ∀ c ∈ t.conditions, P c

/-- What holds of a trigger that a phrase means. -/
structure Trigger.Meant (offset : Offset) (t : Trigger) : Prop where
  arities : ∀ g ∈ t.groups, g.1.acceptsArity g.2 = true
  conditions : ∀ c ∈ t.conditions, c.Meant offset

variable {table : TokenTable} {now : Instant} {wantsDate : Bool} {text rest : List Char}

/-! ### Values -/

/-- Counting back from the present stays in its offset and outside of leap seconds. -/
theorem Grammar.backFromNow?_meant {g : Grammar} {unit : TimeUnit} {amount : Nat}
    {instant : Instant} (noLeap : g.now.isLeap = false)
    (h : g.backFromNow? unit amount = some instant) :
    (Value.instant instant).Meant g.now.offset wantsDate := by
  unfold backFromNow? at h
  obtain ⟨span, _, h⟩ := Option.bind_eq_some_iff.mp h
  obtain ⟨back, counted, h⟩ := Option.bind_eq_some_iff.mp h
  split at h
  · rename_i short
    cases h
    unfold Instant.before? at counted
    rw [noLeap] at counted
    split at counted
    · cases counted
      exact ⟨rfl, noLeap, short⟩
    · simp only [Bool.false_eq_true, if_false, Instant.ofUnix?] at counted
      split at counted
      · cases counted
        exact ⟨rfl, noLeap, short⟩
      · cases counted
  · cases h

/-- What a value means that is no list. -/
theorem scalarPhrase_meaning (noLeap : now.isLeap = false) (short : Grammar.hasShortYear now = true)
    {v : Value} (h : ScalarPhrase table now wantsDate text v rest) :
    v.isList = false ∧ v.Meant now.offset wantsDate := by
  obtain ⟨_, _, _, _, bare⟩ := h
  cases bare with
  | string _ _ means =>
    cases means with
    | date _ date => exact ⟨rfl, date.readable⟩
    | itself noDate =>
      refine ⟨rfl, ?_⟩
      intro wanted instant
      rw [String.toList_ofList]
      exact noDate wanted instant
  | date date => exact ⟨rfl, date.readable⟩
  | relative relative_ =>
    cases relative_ with
    | plain _ _ _ counted => exact ⟨rfl, Grammar.backFromNow?_meant noLeap counted⟩
    | ago _ _ _ _ counted => exact ⟨rfl, Grammar.backFromNow?_meant noLeap counted⟩
  | number number_ _ => cases number_ <;> exact ⟨rfl, trivial⟩
  | truth _ => exact ⟨rfl, trivial⟩
  | now _ => exact ⟨rfl, rfl, noLeap, short⟩

/-- What holds of items holds of a list of them. -/
private theorem valuesPhrase_meaning {item : Phrase Value} {P : Value → Prop} {values : List Value}
    (one : ∀ {text v rest}, item text v rest → P v)
    (h : ValuesPhrase table item text values rest) : ∀ v ∈ values, P v := by
  have further : ∀ {text values rest}, FurtherValues table item text values rest →
      ∀ v ∈ values, P v := by
    intro text values rest h
    induction h with
    | nil => exact fun _ mem => absurd mem List.not_mem_nil
    | cons _ first _ ih => exact List.forall_mem_cons.mpr ⟨one first, ih⟩
  cases h with
  | none => exact fun _ mem => absurd mem List.not_mem_nil
  | some first more => exact List.forall_mem_cons.mpr ⟨one first, further more⟩

/-- What the scalars of a value mean. -/
theorem valuePhrase_meaning (noLeap : now.isLeap = false) (short : Grammar.hasShortYear now = true)
    {v : Value} {depth : Nat} (h : ValuePhrase table now wantsDate depth text v rest) :
    ∀ s ∈ v.scalars, s.Meant now.offset wantsDate := by
  have scalar : ∀ {text v rest}, ScalarPhrase table now wantsDate text v rest →
      ∀ s ∈ v.scalars, s.Meant now.offset wantsDate := by
    intro text v rest h
    obtain ⟨noList, meant⟩ := scalarPhrase_meaning noLeap short h
    rw [Value.scalars_of_isList noList, List.forall_mem_singleton]
    exact meant
  -- By induction on the depth: the items of a list are one level further in.
  induction depth generalizing text v rest with
  | zero => exact scalar h
  | succ depth ih =>
    rcases h with h | ⟨_, items, _⟩
    · exact scalar h
    · have each := valuesPhrase_meaning (fun h => ih h) items
      rw [Value.scalars_list]
      intro s mem
      obtain ⟨item, listed, found⟩ := List.mem_flatMap.mp mem
      exact each item listed s found

/-! ### Triggers -/

/-- A group of triggers with a number of them that its connective takes. -/
private theorem Trigger.Shaped.group {P : Condition → Prop} {connective : Connective}
    {children : List Trigger} (arity : connective.acceptsArity children.length = true)
    (h : ∀ child ∈ children, child.Shaped P) : (Trigger.group connective children).Shaped P where
  arities := by
    rw [Trigger.groups_group, List.forall_mem_cons]
    refine ⟨arity, ?_⟩
    intro g mem
    obtain ⟨child, listed, found⟩ := List.mem_flatMap.mp mem
    exact (h child listed).arities g found
  conditions := by
    rw [Trigger.conditions_group]
    intro c mem
    obtain ⟨child, listed, found⟩ := List.mem_flatMap.mp mem
    exact (h child listed).conditions c found

/-- Runs of connectives that are no `NOT` make groups of two children or more. -/
private theorem grouped_shaped {P : Condition → Prop} {first : Trigger}
    {others : List (Connective × Trigger)} (h : first.Shaped P)
    (hs : ∀ o ∈ others, o.1.isUnary = false ∧ o.2.Shaped P) :
    (grouped first others).Shaped P := by
  -- The group that has been built is the first operand of the next one.
  fun_induction grouped first others with
  | case1 first => exact h
  | case2 first connective second others ih =>
    obtain ⟨⟨binary, shaped⟩, hs⟩ := List.forall_mem_cons.mp hs
    refine ih (.group ?_ ?_) fun o mem => hs o (List.dropWhile_subset _ mem)
    · simp [Connective.acceptsArity, binary]
    · refine List.forall_mem_cons.mpr ⟨h, List.forall_mem_cons.mpr ⟨shaped, ?_⟩⟩
      intro child mem
      obtain ⟨o, listed, rfl⟩ := List.mem_map.mp mem
      exact (hs o (List.takeWhile_subset _ listed)).2

/-- The shape of a tier, if its operands have theirs. -/
private theorem tierPhrase_shaped {P : Condition → Prop} {tier : List Connective}
    {operand : Phrase Trigger} (binary : ∀ c ∈ tier, c.isUnary = false)
    (one : ∀ {text t rest}, operand text t rest → t.Shaped P) {t : Trigger}
    (h : TierPhrase table tier operand text t rest) : t.Shaped P := by
  obtain ⟨first, more⟩ := h
  refine grouped_shaped (one first) ?_
  -- The first operand is done with; the others are met one by one.
  clear first
  induction more with
  | nil => exact fun _ mem => absurd mem List.not_mem_nil
  | cons member _ operand_ _ ih =>
    exact List.forall_mem_cons.mpr ⟨⟨binary _ member, one operand_⟩, ih⟩

/-- The shape of both tiers, if their operands have theirs. -/
private theorem tiersPhrase_shaped {P : Condition → Prop} {operand : Phrase Trigger}
    (one : ∀ {text t rest}, operand text t rest → t.Shaped P) {t : Trigger}
    (h : TiersPhrase table operand text t rest) : t.Shaped P :=
  tierPhrase_shaped (by decide) (fun h => tierPhrase_shaped (by decide) one h) h

/-- What holds of the conditions in a rule holds of the rule, and its groups are as they
should be. -/
theorem rulePhrase_shaped {P : Condition → Prop}
    (one : ∀ {depth text t rest}, ConditionPhrase table now depth text t rest → t.Shaped P)
    {t : Trigger} {depth : Nat} (h : RulePhrase table now depth text t) : t.Shaped P := by
  have operand : ∀ {depth text t rest}, OperandPhrase table now depth text t rest →
      t.Shaped P := by
    intro depth text t rest h
    induction depth generalizing text t rest with
    | zero => exact one h
    | succ depth ih =>
      rcases h with condition | ⟨_, operand⟩ | ⟨_, inner, _⟩
      · exact one condition
      · exact .group rfl (List.forall_mem_singleton.mpr (ih operand))
      · exact tiersPhrase_shaped (fun h => ih h) inner
  obtain ⟨_, tiers, _⟩ := h
  exact tiersPhrase_shaped (fun h => operand h) tiers

/-- In a rule of any table, membership is tested in lists. -/
theorem rulePhrase_lists {t : Trigger} {depth : Nat} (h : RulePhrase table now depth text t) :
    t.Shaped fun c => c.operator = .among → c.value.isList = true := by
  refine rulePhrase_shaped ?_ h
  intro depth text t rest h
  obtain ⟨_, _, _, membership⟩ := h
  exact ⟨fun _ mem => absurd mem List.not_mem_nil, List.forall_mem_singleton.mpr membership⟩

/-- What a rule means. -/
theorem rulePhrase_meaning (noLeap : now.isLeap = false)
    (short : Grammar.hasShortYear now = true) {t : Trigger} {depth : Nat}
    (h : RulePhrase table now depth text t) : t.Meant now.offset := by
  have shaped : t.Shaped (Condition.Meant now.offset) := by
    refine rulePhrase_shaped ?_ h
    intro depth text t rest h
    obtain ⟨_, _, value_, membership⟩ := h
    exact ⟨fun _ mem => absurd mem List.not_mem_nil,
      List.forall_mem_singleton.mpr ⟨membership, valuePhrase_meaning noLeap short value_⟩⟩
  exact ⟨shaped.arities, shaped.conditions⟩

end ForumModeration
