import ForumModeration.Proofs.Actions

/-!
# `ForumModeration.Proofs.Parameters`: parameters that are set more than once

A list of pairs may have a name any number of times. `Params.Collects` says what parameters
come of it without going through the list one by one: each name once, in the order in which
the names first come, and with its last value. There is one such set of parameters, and it is
what setting them one after another comes to (`Params.collects_iff`).

Values can be changed before or after that (`Params.entries_ofList_map`). So instants can be shown
in an offset before or after, and the parameters still denote the same
(`Params.sameParams_shownIn`).
-/

set_option autoImplicit false

namespace ForumModeration.Params

variable {params : Params} {pairs : List (String × Value)}

theorem eq_of_entries {a b : Params} (same : a.entries = b.entries) : a = b := by
  cases a
  cases b
  cases same
  rfl

/-- Parameters are known by their names in order and what each reads as. -/
theorem eq_of_get? {a b : Params} (names : a.entries.map Prod.fst = b.entries.map Prod.fst)
    (values : ∀ name, a.get? name = b.get? name) : a = b := by
  have entries (params : Params) : params.entries
      = (params.entries.map Prod.fst).filterMap fun name => (params.get? name).map (name, ·) := by
    rw [List.filterMap_map]
    symm
    calc params.entries.filterMap ((fun name => (params.get? name).map (name, ·)) ∘ Prod.fst)
        = params.entries.filterMap some := by
          refine List.filterMap_congr fun entry mem => ?_
          rw [Function.comp_apply, get?_of_mem mem]
          rfl
      _ = params.entries := List.filterMap_some
  refine eq_of_entries ?_
  rw [entries a, entries b, names]
  simp only [values]

/-! ### What a list of pairs comes to -/

/-- Parameters have each name of some pairs once, in the order in which the names first come
in the pairs, with the value of the last pair of the name. -/
structure Collects (params : Params) (pairs : List (String × Value)) : Prop where
  names : params.entries.map Prod.fst = (pairs.map Prod.fst).eraseDups
  values : ∀ name, params.get? name = (pairs.reverse.find? (·.1 = name)).map Prod.snd

theorem ofList_concat (pairs : List (String × Value)) (pair : String × Value) :
    ofList (pairs ++ [pair]) = (ofList pairs).insert pair.1 pair.2 := by
  rw [ofList, insertAll, List.foldl_concat]
  rfl

/-- One pair more adds its name at the end if the name is new, and then it is the last. -/
theorem Collects.insert (h : params.Collects pairs) (pair : String × Value) :
    (params.insert pair.1 pair.2).Collects (pairs ++ [pair]) where
  names := by
    have mem : pair.1 ∈ params.entries.map Prod.fst ↔ pair.1 ∈ pairs.map Prod.fst := by
      rw [h.names, List.mem_eraseDups]
    have last : ([pair.1].removeAll (pairs.map Prod.fst)).eraseDups
        = if pair.1 ∈ pairs.map Prod.fst then [] else [pair.1] := by
      by_cases used : pair.1 ∈ pairs.map Prod.fst
      · rw [if_pos used, List.removeAll, List.filter_singleton]
        simp only [List.elem_eq_mem, used, decide_true, Bool.not_true]
        rfl
      · rw [if_neg used, List.removeAll, List.filter_singleton]
        simp only [List.elem_eq_mem, used, decide_false, Bool.not_false]
        rfl
    rw [List.map_append, List.map_singleton, List.eraseDups_append, last, ← h.names]
    refine (names_setParam pair.1 pair.2 params.entries).trans ?_
    simp only [mem]
    split
    · exact (List.append_nil _).symm
    · rfl
  values name := by
    rw [get?_insert, List.reverse_concat, List.find?_cons, h.values]
    by_cases same : pair.1 = name
    · simp [same]
    · simp [same]

/-- Setting parameters one after another collects them. -/
theorem collects_ofList (pairs : List (String × Value)) : (ofList pairs).Collects pairs := by
  induction pairs using List.reverseRecOn with
  | nil => exact ⟨rfl, fun _ => rfl⟩
  | append_singleton pairs pair ih =>
    rw [ofList_concat]
    exact ih.insert pair

theorem collects_iff : params.Collects pairs ↔ params = ofList pairs := by
  constructor
  · intro h
    have own := collects_ofList pairs
    exact eq_of_get? (h.names.trans own.names.symm) fun name =>
      (h.values name).trans (own.values name).symm
  · rintro rfl
    exact collects_ofList pairs

/-! ### Changed values -/

private theorem setParam_map (f : Value → Value) (name : String) (value : Value)
    (entries : List (String × Value)) :
    setParam name (f value) (entries.map fun entry => (entry.1, f entry.2))
      = (setParam name value entries).map fun entry => (entry.1, f entry.2) := by
  induction entries with
  | nil => rfl
  | cons entry entries ih =>
    rw [List.map_cons, setParam, setParam]
    by_cases same : entry.1 = name
    · rw [if_pos same, if_pos same]
      rfl
    · rw [if_neg same, if_neg same, ih]
      rfl

/-- It does not matter whether values are changed before the parameters are set or after that. -/
theorem entries_ofList_map (f : Value → Value) (pairs : List (String × Value)) :
    (ofList (pairs.map fun pair => (pair.1, f pair.2))).entries
      = (ofList pairs).entries.map fun entry => (entry.1, f entry.2) := by
  induction pairs using List.reverseRecOn with
  | nil => rfl
  | append_singleton pairs pair ih =>
    rw [List.map_append, List.map_singleton, ofList_concat, ofList_concat]
    show setParam pair.1 (f pair.2) (ofList _).entries = _
    rw [ih]
    exact setParam_map f pair.1 pair.2 _

theorem ofList_shownIn (offset : Offset) (pairs : List (String × Value)) :
    ofList (pairs.map fun pair => (pair.1, pair.2.shownIn offset))
      = (ofList pairs).shownIn offset :=
  eq_of_entries (entries_ofList_map (Value.shownIn offset) pairs)

/-- Parameters denote the same in any offset, if each value does. -/
theorem sameParams_shownIn {offset : Offset}
    (same : ∀ entry ∈ params.entries, (entry.2.shownIn offset).sameValue entry.2 = true) :
    (params.shownIn offset).sameParams params = true := by
  unfold sameParams shownIn
  rw [Bool.and_eq_true, decide_eq_true_eq, List.length_map, List.all_map, List.all_eq_true]
  refine ⟨rfl, fun entry mem => ?_⟩
  rw [Function.comp_apply, get?_of_mem mem]
  exact same entry mem

end ForumModeration.Params
