import ForumModeration.Action
import ForumModeration.Proofs.Trees

/-!
# `ForumModeration.Proofs.Actions`: the parameters of actions

Parameters are set one after another, and a name that is used again keeps its place. So
parameters come out as they were if they are set from their own entries
(`Params.ofList_entries`), and nothing comes out that was not set
(`Params.mem_of_mem_ofList`).

Like values and triggers, actions are shown in the offset of an editor
(`Action.shownIn`).
-/

set_option autoImplicit false

namespace ForumModeration

namespace Params

/-- Setting a name that is not in use adds it at the end. -/
private theorem setParam_of_notMem {name : String} {value : Value} {entries : List (String × Value)}
    (h : name ∉ entries.map Prod.fst) :
    setParam name value entries = entries ++ [(name, value)] := by
  induction entries with
  | nil => rfl
  | cons entry entries ih =>
    rw [List.map_cons, List.mem_cons, not_or] at h
    rw [setParam, if_neg (Ne.symm h.1), ih h.2, List.cons_append]

/-- Parameters set one after another are the parameters, as their names are distinct. -/
theorem ofList_entries (params : Params) : ofList params.entries = params := by
  -- Parameters that are inserted into others, whose names differ, come after them.
  have entries : ∀ (more : List (String × Value)) (start : Params),
      ((start.entries ++ more).map Prod.fst).Nodup →
        (start.insertAll more).entries = start.entries ++ more := by
    intro more
    induction more with
    | nil => exact fun start _ => (List.append_nil _).symm
    | cons entry more ih =>
      intro start distinct
      have fresh : entry.1 ∉ start.entries.map Prod.fst := by
        rw [List.map_append, List.map_cons, List.nodup_append] at distinct
        exact fun mem => distinct.2.2 _ mem _ List.mem_cons_self rfl
      have inserted : (start.insert entry.1 entry.2).entries = start.entries ++ [entry] :=
        setParam_of_notMem fresh
      have rest := ih (start.insert entry.1 entry.2) (by
        rw [inserted, List.append_assoc]
        exact distinct)
      rw [inserted, List.append_assoc] at rest
      exact rest
  have same := entries params.entries empty params.distinct
  obtain ⟨own, distinct⟩ := params
  cases h : ofList own with
  | mk found distinct' =>
    have : found = own := (congrArg Params.entries h).symm.trans same
    subst this
    rfl

/-- What stands in parameters in which one is set is this one, or stood there before. -/
private theorem mem_of_mem_setParam {name : String} {value : Value}
    {entries : List (String × Value)} {entry : String × Value}
    (mem : entry ∈ setParam name value entries) : entry = (name, value) ∨ entry ∈ entries := by
  induction entries with
  | nil => exact .inl (List.mem_singleton.mp mem)
  | cons first entries ih =>
    rw [setParam] at mem
    split at mem
    · rcases List.mem_cons.mp mem with rfl | mem
      · exact .inl rfl
      · exact .inr (List.mem_cons_of_mem _ mem)
    · rcases List.mem_cons.mp mem with rfl | mem
      · exact .inr List.mem_cons_self
      · exact (ih mem).imp_right (List.mem_cons_of_mem _)

/-- Every parameter is one that was set. -/
theorem mem_of_mem_ofList {set : List (String × Value)} {entry : String × Value}
    (mem : entry ∈ (ofList set).entries) : entry ∈ set := by
  have inserted : ∀ (set : List (String × Value)) (start : Params),
      entry ∈ (start.insertAll set).entries → entry ∈ set ∨ entry ∈ start.entries := by
    intro set
    induction set with
    | nil => exact fun _ mem => .inr mem
    | cons first set ih =>
      intro start mem
      rcases ih (start.insert first.1 first.2) mem with listed | before
      · exact .inl (List.mem_cons_of_mem _ listed)
      · exact (mem_of_mem_setParam before).imp_left fun same => List.mem_cons.mpr (.inl same)
  exact (inserted set empty mem).resolve_right List.not_mem_nil

/-- Parameters with their instants shown in an offset. -/
def shownIn (offset : Offset) (params : Params) : Params where
  entries := params.entries.map fun entry => (entry.1, entry.2.shownIn offset)
  distinct := by
    rw [List.map_map]
    exact params.distinct

end Params

/-- An action with its instants shown in an offset. -/
def Action.shownIn (offset : Offset) (action : Action) : Action :=
  { action with params := action.params.shownIn offset }

end ForumModeration
