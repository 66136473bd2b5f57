import ForumModeration.Proofs.Editor.RoundTrip
import ForumModeration.Proofs.Rendering.Calls

/-!
# `ForumModeration.Proofs.Editor.Calls`: action lists that are written are read back

An editor writes the names of parameters without quotes and without looking at them. If they
are names in the sense of the grammar, an action list comes back as it was
(`renderActions_recovers`). If they are not, what was written may still be read, but never as
what it was written for (`parseActions_rendered_iff_names`): a name that holds an assignment
and a comma is read as two parameters.
-/

set_option autoImplicit false

namespace ForumModeration.Editor

open Text

/-- The tables of both languages tell calls apart. -/
theorem callable_table (offset : Offset) (mode : Mode) :
    (({ offset } : Editor).table mode).Callable := by
  cases mode
  · exact TokenTable.callable_dsl
  · exact TokenTable.callable_cnl

/-- What parsing says of an action list, at the first reading of a clock. -/
theorem parseActions_eq_ok_iff {editor : Editor} {clock : Clock} {text : String} {mode : Mode}
    {actions : List Action} :
    ((editor.parseActions text mode).run clock).1 = .ok actions ↔
      (editor.grammar mode (clock.readings 0)).calls.complete text.toList = .ok actions :=
  show editor.parseActionsAt (clock.readings 0) text mode = _ ↔ _ from readWith_eq_ok_iff

/-- An action list whose parameters have names is written as a text that is read as the
actions, if all values can be arguments, and not read at all otherwise. -/
theorem parseActions_rendered (offset : Offset) (clock : Clock) (mode : Mode)
    {actions : List Action} (nonempty : actions ≠ [])
    (names : ∀ action ∈ actions, ∀ entry ∈ action.params.entries, IsName entry.1)
    (instants : ∀ action ∈ actions, ∀ entry ∈ action.params.entries, ∀ time,
      entry.2 = .instant time →
        time.isLeap = false ∧ Grammar.hasShortYear (time.withOffset offset) = true)
    {text : String} (rendered : ({ offset } : Editor).renderActions actions mode = .ok text)
    (found : List Action) :
    ((({ offset } : Editor).parseActions text mode).run clock).1 = .ok found ↔
      found = actions.map (Action.shownIn offset) ∧
        ∀ action ∈ actions, ∀ entry ∈ action.params.entries, entry.2.IsArgument := by
  unfold renderActions at rendered
  cases written : (({ offset } : Editor).renderer mode).actions actions with
  | error e =>
    rw [written] at rendered
    cases rendered
  | ok characters =>
    rw [written] at rendered
    obtain rfl : String.ofList characters = text := Except.ok.inj rendered
    have reads : Parser.ReadsIf
        (∀ action ∈ actions, ∀ entry ∈ action.params.entries, entry.2.IsArgument)
        (({ offset } : Editor).grammar mode (clock.readings 0)).calls characters
        (actions.map (Action.shownIn offset)) [] :=
      Renderer.actions_readsIf (({ offset } : Editor).renderer mode)
        ((clock.readings 0).withOffset offset) (legible_table offset mode)
        (writable_table offset mode) (callable_table offset mode) rfl nonempty names instants
        written
    rw [parseActions_eq_ok_iff, String.toList_ofList, Parser.complete_eq_ok]
    by_cases arguments : ∀ action ∈ actions, ∀ entry ∈ action.params.entries, entry.2.IsArgument
    · rw [and_iff_left arguments, reads.reads arguments, Except.ok.injEq, Prod.mk.injEq,
        and_iff_left rfl, eq_comm]
    · obtain ⟨failure, failed, _⟩ := reads.refuses arguments
      rw [failed]
      exact ⟨nofun, fun both => absurd both.2 arguments⟩

/-- An action list is written in either language and read back in order, with its instants in
the editor's offset. The list may be any but the empty one, if

- the names of all parameters are runs of letters and digits of any script and underscores, and
- no value is a list, and all values can be recovered. -/
theorem renderActions_recovers (offset : Offset) (clock : Clock) (mode : Mode)
    (actions : List Action) (nonempty : actions ≠ [])
    (names : ∀ action ∈ actions, ∀ entry ∈ action.params.entries, IsName entry.1)
    (values : ∀ action ∈ actions, ∀ entry ∈ action.params.entries,
      entry.2.isList = false ∧ entry.2.Recoverable offset false) :
    ∃ text, ({ offset } : Editor).renderActions actions mode = .ok text ∧
      ((({ offset } : Editor).parseActions text mode).run clock).1
        = .ok (actions.map (Action.shownIn offset)) := by
  obtain ⟨characters, written⟩ :=
    Renderer.actions_ok (r := ({ offset } : Editor).renderer mode)
      (writable_table offset mode).hasToken actions
  have rendered : ({ offset } : Editor).renderActions actions mode
      = .ok (String.ofList characters) := by
    unfold renderActions
    rw [written]
    rfl
  refine ⟨_, rendered, ?_⟩
  rw [parseActions_rendered offset clock mode nonempty names ?_ rendered]
  · refine ⟨rfl, ?_⟩
    intro action mem entry listed
    obtain ⟨noList, recoverable⟩ := values action mem entry listed
    cases value : entry.2 with
    | float number =>
      rw [value] at recoverable
      exact recoverable
    | list items =>
      rw [value] at noList
      cases noList
    | _ => trivial
  · intro action mem entry listed time same
    have recoverable := (values action mem entry listed).2
    rw [same] at recoverable
    exact recoverable

/-- At the start of 1970, two actions with parameters of four kinds, one of them named in
Chinese, are written and read back with the instant shown eight hours east. -/
theorem renderActions_recovers_notify :
    ∃ text, ({} : Editor).renderActions
        [⟨.ban, .ofList [("天数", .int 3), ("since", .instant ⟨0, 0, .utc, by decide⟩)]⟩,
          ⟨.notify, .ofList [("text", .string "a, b=1"), ("loud", .bool true)]⟩] .cnl = .ok text ∧
      ((({} : Editor).parseActions text .cnl).run (.fixed ⟨0, 0, .utc, by decide⟩)).1
        = .ok [⟨.ban, .ofList [("天数", .int 3), ("since", .instant ⟨0, 0, .china, by decide⟩)]⟩,
          ⟨.notify, .ofList [("text", .string "a, b=1"), ("loud", .bool true)]⟩] := by
  let ban : Action :=
    ⟨.ban, .ofList [("天数", .int 3), ("since", .instant ⟨0, 0, .utc, by decide⟩)]⟩
  let notify : Action := ⟨.notify, .ofList [("text", .string "a, b=1"), ("loud", .bool true)]⟩
  have names : ∀ action ∈ [ban, notify], ∀ entry ∈ action.params.entries, IsName entry.1 := by
    decide +kernel
  have values : ∀ action ∈ [ban, notify], ∀ entry ∈ action.params.entries,
      entry.2.isList = false ∧ entry.2.Recoverable .china false := by
    refine List.forall_mem_cons.mpr ⟨List.forall_mem_cons.mpr ⟨⟨rfl, trivial⟩, ?_⟩, ?_⟩
    · exact List.forall_mem_singleton.mpr ⟨rfl, rfl, by decide⟩
    · exact List.forall_mem_singleton.mpr (List.forall_mem_cons.mpr
        ⟨⟨rfl, nofun⟩, List.forall_mem_singleton.mpr ⟨rfl, trivial⟩⟩)
  exact renderActions_recovers .china (.fixed ⟨0, 0, .utc, by decide⟩) .cnl [ban, notify]
    (by simp) names values

/-! ### Names that are none -/

/-- Where an action list is written and what was written is read, it is read as the action
list exactly if its parameters have names: runs of letters and digits of any script and
underscores. -/
theorem parseActions_rendered_iff_names (offset : Offset) (clock : Clock) (mode : Mode)
    (actions : List Action) (nonempty : actions ≠ [])
    (instants : ∀ action ∈ actions, ∀ entry ∈ action.params.entries, ∀ time,
      entry.2 = .instant time →
        time.isLeap = false ∧ Grammar.hasShortYear (time.withOffset offset) = true)
    (text : String) (rendered : ({ offset } : Editor).renderActions actions mode = .ok text)
    (found : List Action)
    (read : ((({ offset } : Editor).parseActions text mode).run clock).1 = .ok found) :
    found = actions.map (Action.shownIn offset) ↔
      ∀ action ∈ actions, ∀ entry ∈ action.params.entries, IsName entry.1 := by
  constructor
  · rintro rfl
    have names := Grammar.isName_of_calls
      (Parser.complete_eq_ok.mp (parseActions_eq_ok_iff.mp read))
    intro action mem entry listed
    -- The actions that were read have the names of the actions that were written.
    have shown : (entry.1, entry.2.shownIn offset) ∈ (action.shownIn offset).params.entries :=
      List.mem_map.mpr ⟨entry, listed, rfl⟩
    exact names _ (List.mem_map_of_mem mem) (entry.1, entry.2.shownIn offset) shown
  · intro names
    exact ((parseActions_rendered offset clock mode nonempty names instants rendered found).mp
      read).1

/-- A name of letters is read back with its value. -/
theorem parseActions_rendered_iff_names_delete :
    ({} : Editor).renderActions [⟨.delete, .ofList [("reason", .int 2)]⟩] .dsl
        = .ok "DO: delete(reason=2)" ∧
      IsName "reason" := by
  have rendered : ({} : Editor).renderActions [⟨.delete, .ofList [("reason", .int 2)]⟩] .dsl
      = .ok "DO: delete(reason=2)" := by decide +kernel
  refine ⟨rendered, ?_⟩
  have names := (parseActions_rendered_iff_names .china (.fixed ⟨0, 0, .utc, by decide⟩) .dsl
    [⟨.delete, .ofList [("reason", .int 2)]⟩] (by decide) ?_ "DO: delete(reason=2)" rendered
    [⟨.delete, .ofList [("reason", .int 2)]⟩] (parseActions_eq_ok_iff.mpr (by decide +kernel))).mp
    rfl
  · exact names _ (List.mem_singleton_self _) _ (List.mem_singleton_self _)
  · refine List.forall_mem_singleton.mpr (List.forall_mem_singleton.mpr ?_)
    exact fun _ same => nomatch same

/-- A name that holds an assignment and a comma is written as it is, and read as two
parameters. -/
theorem parseActions_misread :
    ({} : Editor).renderActions [⟨.delete, .ofList [("a=1, b", .int 2)]⟩] .dsl
        = .ok "DO: delete(a=1, b=2)" ∧
      ((({} : Editor).parseActions "DO: delete(a=1, b=2)" .dsl).run
          (.fixed ⟨0, 0, .utc, by decide⟩)).1
        = .ok [⟨.delete, .ofList [("a", .int 1), ("b", .int 2)]⟩] ∧
      (⟨.delete, .ofList [("a", .int 1), ("b", .int 2)]⟩ : Action)
        ≠ ⟨.delete, .ofList [("a=1, b", .int 2)]⟩ :=
  ⟨by decide +kernel, parseActions_eq_ok_iff.mpr (by decide +kernel), by decide +kernel⟩

end ForumModeration.Editor
