import ForumModeration.Calendar.Instant
import ForumModeration.Trigger
import Mathlib

/-!
# `ForumModeration.Proofs.Trees`: values and triggers as trees

What the theorems about rendering and storing say of a tree, they say of its parts:
of the scalars of a value (`Value.scalars`) and of the groups and conditions of a
trigger (`Trigger.groups`, `Trigger.conditions`). Proofs about trees go by
`Value.induction` and `Trigger.induction`, where a list of parts is a list.

`Trigger.levels` counts the levels of nesting that a written trigger takes up. It is
counted on a trigger without groups of one child, `Trigger.collapse`.

* `conditions_collapse`, `acceptsArity_collapse`: what collapsing keeps and what it
  brings about.
-/

set_option autoImplicit false

namespace ForumModeration

/-! ### What is done part by part

Definitions on trees have a companion for lists of parts. These lemmas say what the companion
is, given its two equations. -/

section

variable {α β : Type} {items : List α}

theorem eq_map_of_cons {f : List α → List β} {g : α → β} (nil : f [] = [])
    (cons : ∀ item items, f (item :: items) = g item :: f items) : f items = items.map g := by
  induction items with
  | nil => exact nil
  | cons item items ih => rw [cons, ih, List.map_cons]

theorem eq_flatMap_of_cons {f : List α → List β} {g : α → List β} (nil : f [] = [])
    (cons : ∀ item items, f (item :: items) = g item ++ f items) : f items = items.flatMap g := by
  induction items with
  | nil => exact nil
  | cons item items ih => rw [cons, ih, List.flatMap_cons]

theorem eq_foldr_of_cons {f : List α → β} {g : α → β} {step : β → β → β} {start : β}
    (nil : f [] = start) (cons : ∀ item items, f (item :: items) = step (g item) (f items)) :
    f items = (items.map g).foldr step start := by
  induction items with
  | nil => exact nil
  | cons item items ih => rw [cons, ih, List.map_cons, List.foldr_cons]

end

theorem Connective.isUnary_iff {connective : Connective} :
    connective.isUnary = true ↔ connective = .not := by
  cases connective <;> simp [isUnary]

/-- A negation takes one child, and any other connective takes two or more. -/
theorem Connective.acceptsArity_iff {connective : Connective} {count : Nat} :
    connective.acceptsArity count = true ↔ if connective = .not then count = 1 else 2 ≤ count := by
  cases connective <;> simp [acceptsArity, isUnary]

/-- A group that needs two or more children has a first and a second one. -/
theorem Connective.exists_children {α : Type} {connective : Connective} {children : List α}
    (binary : connective.isUnary = false)
    (accepts : connective.acceptsArity children.length = true) :
    ∃ first second others, children = first :: second :: others := by
  have two : 2 ≤ children.length := by simpa [acceptsArity, binary] using accepts
  cases children with
  | nil => cases two
  | cons first children =>
    cases children with
    | nil => exact absurd two (by simp)
    | cons second others => exact ⟨first, second, others, rfl⟩

namespace Value

mutual

private theorem inductionOne {P : Value → Prop} (scalar : ∀ v, v.isList = false → P v)
    (list : ∀ items, (∀ item ∈ items, P item) → P (.list items)) : (v : Value) → P v
  | .list items => list items (inductionAll scalar list items)
  | .bool truth => scalar (.bool truth) rfl
  | .int number => scalar (.int number) rfl
  | .float number => scalar (.float number) rfl
  | .instant time => scalar (.instant time) rfl
  | .string text => scalar (.string text) rfl

private theorem inductionAll {P : Value → Prop} (scalar : ∀ v, v.isList = false → P v)
    (list : ∀ items, (∀ item ∈ items, P item) → P (.list items)) :
    (items : List Value) → ∀ item ∈ items, P item
  | [] => fun _ mem => absurd mem List.not_mem_nil
  | first :: others => List.forall_mem_cons.mpr
      ⟨inductionOne scalar list first, inductionAll scalar list others⟩

end

/-- What holds of every scalar, and of a list if it holds of its items, holds of every
value. -/
theorem induction {P : Value → Prop} (scalar : ∀ v, v.isList = false → P v)
    (list : ∀ items, (∀ item ∈ items, P item) → P (.list items)) (v : Value) : P v :=
  inductionOne scalar list v

mutual

/-- The values that stand in a value and are no lists. -/
def scalars : Value → List Value
  | list items => scalarsOf items
  | v => [v]

/-- The scalars of several values, in order. -/
def scalarsOf : List Value → List Value
  | [] => []
  | item :: items => scalars item ++ scalarsOf items

end

mutual

/-- The levels of nesting that a written value takes up. A list takes up one more than
its deepest item. -/
def levels : Value → Nat
  | list items => levelsOf items + 1
  | _ => 0

/-- The most levels that one of several values takes up. -/
def levelsOf : List Value → Nat
  | [] => 0
  | item :: items => max (levels item) (levelsOf items)

end

mutual

/-- A value with its instants shown in an offset. -/
def shownIn (offset : Offset) : Value → Value
  | instant time => instant (time.withOffset offset)
  | list items => list (shownAllIn offset items)
  | v => v

/-- Several values with their instants shown in an offset. -/
def shownAllIn (offset : Offset) : List Value → List Value
  | [] => []
  | item :: items => shownIn offset item :: shownAllIn offset items

end

@[simp] theorem scalars_list (items : List Value) :
    (list items).scalars = items.flatMap scalars :=
  eq_flatMap_of_cons (f := scalarsOf) rfl fun _ _ => rfl

theorem scalars_of_isList {v : Value} (h : v.isList = false) : v.scalars = [v] := by
  cases v with
  | list items => cases h
  | _ => rfl

@[simp] theorem shownIn_list (offset : Offset) (items : List Value) :
    (list items).shownIn offset = list (items.map (shownIn offset)) :=
  congrArg list (eq_map_of_cons (f := shownAllIn offset) rfl fun _ _ => rfl)

@[simp] theorem isList_shownIn (offset : Offset) (v : Value) :
    (v.shownIn offset).isList = v.isList := by
  cases v <;> rfl

/-- A value whose instants are in an offset is shown in it. -/
theorem shownIn_eq_self {offset : Offset} {v : Value}
    (h : ∀ time, .instant time ∈ v.scalars → time.offset = offset) : v.shownIn offset = v := by
  induction v using Value.induction with
  | scalar v noList =>
    cases v with
    | instant time =>
      have same := h time (by simp [scalars])
      rw [shownIn, Instant.withOffset, ← same]
    | list items => cases noList
    | _ => rfl
  | list items ih =>
    rw [shownIn_list, List.map_congr_left (g := id), List.map_id]
    intro item mem
    refine ih item mem fun time found => h time ?_
    rw [scalars_list]
    exact List.mem_flatMap.mpr ⟨item, mem, found⟩

end Value

namespace Trigger

mutual

private theorem inductionOne {P : Trigger → Prop} (condition : ∀ c, P (.condition c))
    (group : ∀ connective children, (∀ child ∈ children, P child) →
      P (.group connective children)) :
    (trigger : Trigger) → P trigger
  | .condition c => condition c
  | .group connective children => group connective children (inductionAll condition group children)

private theorem inductionAll {P : Trigger → Prop} (condition : ∀ c, P (.condition c))
    (group : ∀ connective children, (∀ child ∈ children, P child) →
      P (.group connective children)) :
    (children : List Trigger) → ∀ child ∈ children, P child
  | [] => fun _ mem => absurd mem List.not_mem_nil
  | first :: others => List.forall_mem_cons.mpr
      ⟨inductionOne condition group first, inductionAll condition group others⟩

end

/-- What holds of every condition, and of a group if it holds of its children, holds of
every trigger. -/
theorem induction {P : Trigger → Prop} (condition : ∀ c, P (.condition c))
    (group : ∀ connective children, (∀ child ∈ children, P child) → P (.group connective children))
    (trigger : Trigger) : P trigger :=
  inductionOne condition group trigger

mutual

/-- The groups of a trigger, each as its connective and the number of its children. -/
def groups : Trigger → List (Connective × Nat)
  | condition _ => []
  | group connective children => (connective, children.length) :: groupsOf children

/-- The groups of several triggers. -/
def groupsOf : List Trigger → List (Connective × Nat)
  | [] => []
  | child :: rest => groups child ++ groupsOf rest

end

mutual

/-- A trigger without groups of one child, but for negations: the child stands in the
place of its group. -/
def collapse : Trigger → Trigger
  | condition c => condition c
  | group connective [] => group connective []
  | group connective [child] =>
    if connective.isUnary then group connective [collapse child] else collapse child
  | group connective (first :: second :: others) =>
    group connective (collapse first :: collapse second :: collapseAll others)

/-- Several triggers, each of them collapsed. -/
def collapseAll : List Trigger → List Trigger
  | [] => []
  | child :: rest => collapse child :: collapseAll rest

end

mutual

/-- The levels of nesting that a written trigger takes up, if it has no groups of one
child but negations. A negation takes up one for `NOT` and one for the parentheses
behind it; any other group takes up one if it is `nested`, a child of such a group. -/
def levels (nested : Bool) : Trigger → Nat
  | condition c => c.value.levels
  | group connective children =>
    if connective.isUnary then levelsOf false children + 2
    else levelsOf true children + if nested then 1 else 0

/-- The most levels that one of several triggers takes up. -/
def levelsOf (nested : Bool) : List Trigger → Nat
  | [] => 0
  | child :: rest => max (levels nested child) (levelsOf nested rest)

end

mutual

/-- A trigger with its instants shown in an offset. -/
def shownIn (offset : Offset) : Trigger → Trigger
  | condition c => condition { c with value := c.value.shownIn offset }
  | group connective children => group connective (shownAllIn offset children)

/-- Several triggers with their instants shown in an offset. -/
def shownAllIn (offset : Offset) : List Trigger → List Trigger
  | [] => []
  | child :: rest => shownIn offset child :: shownAllIn offset rest

end

variable {connective : Connective} {children : List Trigger}

@[simp] theorem conditions_group :
    (group connective children).conditions = children.flatMap conditions :=
  eq_flatMap_of_cons (f := conditionsOf) rfl fun _ _ => rfl

@[simp] theorem groups_group : (group connective children).groups
    = (connective, children.length) :: children.flatMap groups :=
  congrArg (List.cons _) (eq_flatMap_of_cons (f := groupsOf) rfl fun _ _ => rfl)

@[simp] theorem shownIn_group (offset : Offset) : (group connective children).shownIn offset
    = group connective (children.map (shownIn offset)) :=
  congrArg (group connective) (eq_map_of_cons (f := shownAllIn offset) rfl fun _ _ => rfl)

theorem collapseAll_eq_map (children : List Trigger) :
    collapseAll children = children.map collapse :=
  eq_map_of_cons rfl fun _ _ => rfl

/-- The groups of a child are groups of the trigger. -/
theorem mem_groups_of_child {child : Trigger} (mem : child ∈ children) {g : Connective × Nat}
    (h : g ∈ child.groups) : g ∈ (group connective children).groups := by
  rw [groups_group]
  exact List.mem_cons_of_mem _ (List.mem_flatMap.mpr ⟨child, mem, h⟩)

/-- The conditions of a child are conditions of the trigger. -/
theorem mem_conditions_of_child {child : Trigger} (mem : child ∈ children) {c : Condition}
    (h : c ∈ child.conditions) : c ∈ (group connective children).conditions := by
  rw [conditions_group]
  exact List.mem_flatMap.mpr ⟨child, mem, h⟩

/-! ### Collapsing -/

/-- A trigger of two children or more keeps its connective and collapses them. -/
theorem collapse_group (h : children.length ≠ 1) :
    (group connective children).collapse = group connective (children.map collapse) := by
  cases children with
  | nil => rfl
  | cons first others =>
    cases others with
    | nil => exact absurd rfl h
    | cons second others => rw [collapse, collapseAll_eq_map, List.map_cons, List.map_cons]

/-- Collapsing keeps the conditions in their order. -/
theorem conditions_collapse (trigger : Trigger) :
    trigger.collapse.conditions = trigger.conditions := by
  induction trigger using Trigger.induction with
  | condition c => rfl
  | group connective children ih =>
    by_cases single : children.length = 1
    · obtain ⟨child, rfl⟩ := List.length_eq_one_iff.mp single
      have same := ih child (by simp)
      rw [collapse]
      split <;> simp [same]
    · rw [collapse_group single, conditions_group, conditions_group, List.flatMap_map]
      exact List.flatMap_congr ih

/-- In a trigger that can be written all groups are well formed after collapsing. -/
theorem acceptsArity_collapse {trigger : Trigger}
    (h : ∀ g ∈ trigger.groups, if g.1 = .not then g.2 = 1 else 1 ≤ g.2) :
    ∀ g ∈ trigger.collapse.groups, g.1.acceptsArity g.2 = true := by
  induction trigger using Trigger.induction with
  | condition c =>
    intro g mem
    cases mem
  | group connective children ih =>
    have inner : ∀ child ∈ children, ∀ g ∈ child.collapse.groups, g.1.acceptsArity g.2 = true :=
      fun child mem => ih child mem fun g found => h g (mem_groups_of_child mem found)
    have own := h (connective, children.length) (by simp)
    -- A group of one child is gone unless it is a negation; any other keeps its children.
    by_cases single : children.length = 1
    · obtain ⟨child, rfl⟩ := List.length_eq_one_iff.mp single
      rw [collapse]
      split
      · rename_i unary
        rw [groups_group, List.forall_mem_cons]
        refine ⟨?_, ?_⟩
        · rw [Connective.acceptsArity, if_pos unary]
          rfl
        · simpa using inner child (by simp)
      · exact inner child (by simp)
    · rw [collapse_group single, groups_group, List.forall_mem_cons]
      refine ⟨?_, ?_⟩
      · rw [Connective.acceptsArity_iff, List.length_map]
        by_cases negation : connective = .not
        · rw [if_pos negation] at own ⊢
          exact own
        · rw [if_neg negation] at own ⊢
          have some : 1 ≤ children.length := own
          omega
      · intro g found
        obtain ⟨child', mem', found⟩ := List.mem_flatMap.mp found
        obtain ⟨child, mem, rfl⟩ := List.mem_map.mp mem'
        exact inner child mem g found

/-- A trigger whose instants are in an offset is shown in it. -/
theorem shownIn_eq_self {offset : Offset} {trigger : Trigger}
    (h : ∀ c ∈ trigger.conditions, ∀ time, .instant time ∈ c.value.scalars → time.offset = offset) :
    trigger.shownIn offset = trigger := by
  induction trigger using Trigger.induction with
  | condition c => rw [shownIn, Value.shownIn_eq_self (h c (by simp [conditions]))]
  | group connective children ih =>
    rw [shownIn_group, List.map_congr_left (g := id), List.map_id]
    exact fun child mem => ih child mem fun c found => h c (mem_conditions_of_child mem found)

end Trigger

end ForumModeration
