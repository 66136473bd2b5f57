import ForumModeration.Proofs.Blob.Loading
import ForumModeration.Proofs.Editor.Calls
import ForumModeration.Proofs.Json.RoundTrip
import ForumModeration.Proofs.Parameters

/-!
# `ForumModeration.Proofs.Editor.Parameters`: parameters that are given more than once

An action gets its parameters by setting them one by one, from the text of a call, from a JSON
text or from a blob. In each of these a name may be given more than once. The four ways are
programs of their own, and they come to the same: each name once, in the order in which the
names first come, and with its last value (`repeated_parameters_agree`). Only floating-point
numbers in a JSON text are what their digits are read as, which may be other numbers
(`repeated_parameters_differ`).

What is given are names and values in order. `Renderer.listing`, `Action.listedJson` and
`Blob.Call.listing` are what is written for them, with all repetitions. The values are such
that they come back from each of these (`Value.KeptByAll`).
-/

set_option autoImplicit false

namespace ForumModeration

/-! ### Values -/

namespace Value

/-- A value comes back from a call, where instants are shown in an offset, and can be told from
JSON: it is no list, numbers are finite, and no string is a timestamp. Instants lie outside of leap
seconds and in years of four digits, in the offset as in their own, which is one of whole
minutes. -/
def KeptByAll (offset : Offset) : Value → Prop
  | float number => number.isFinite = true
  | instant time => time.Portable ∧ Grammar.hasShortYear (time.withOffset offset) = true
  | string text => Timestamp.read? text.toList = none
  | list _ => False
  | _ => True

namespace KeptByAll

variable {offset : Offset} {v : Value}

theorem isList (h : v.KeptByAll offset) : v.isList = false := by
  cases v with
  | list items => cases h
  | _ => rfl

theorem isArgument (h : v.KeptByAll offset) : v.IsArgument := by
  cases v with
  | float number => exact h
  | list items => cases h
  | _ => trivial

theorem portable (h : v.KeptByAll offset) : ∀ s ∈ v.scalars, s.Portable := by
  rw [scalars_of_isList h.isList, List.forall_mem_singleton]
  cases v with
  | float number => exact h
  | instant time => exact h.1
  | _ => trivial

/-- A value comes back from JSON as it was unless it is a number that is read as another. -/
theorem reloaded_eq_self_iff (h : v.KeptByAll offset) :
    v.reloaded = v ↔ ∀ number, v = float number → number.reread = number := by
  rw [Value.reloaded_eq_self_iff, scalars_of_isList h.isList, List.forall_mem_singleton]
  cases v with
  | float number => exact ⟨fun stays _ same => float.inj same ▸ stays, fun all => all number rfl⟩
  | string text => exact ⟨fun _ _ same => (nomatch same), fun _ => h⟩
  | _ => exact ⟨fun _ _ same => (nomatch same), fun _ => trivial⟩

theorem nesting (h : v.KeptByAll offset) : v.nesting = 0 := by
  cases v with
  | list items => cases h
  | _ => rfl

theorem sameValue_shownIn (h : v.KeptByAll offset) :
    (v.shownIn offset).sameValue v = true := by
  cases v with
  | float number => exact Binary64.sameNumber_self (Binary64.isNaN_eq_false_of_isFinite h)
  | instant time => exact time.sameTime_withOffset offset
  | list items => cases h
  | _ => exact decide_eq_true rfl

end KeptByAll

end Value

/-! ### Calls -/

/-- Setting parameters of an action one after another sets them in order. -/
theorem Action.foldl_setParam (action : Action) (pairs : List (String × Value)) :
    pairs.foldl (fun (action : Action) pair => action.setParam pair.1 pair.2) action
      = { action with params := action.params.insertAll pairs } := by
  induction pairs generalizing action with
  | nil => rfl
  | cons pair pairs ih => exact ih (action.setParam pair.1 pair.2)

namespace Editor

/-- The tables of both languages let action lists start with a call. -/
theorem unintroduced_table (offset : Offset) (mode : Mode) :
    (({ offset } : Editor).table mode).Unintroduced := by
  cases mode
  · exact TokenTable.unintroduced_dsl
  · exact TokenTable.unintroduced_cnl

/-- A call is read with the parameters that are listed in it, set in order. -/
theorem parseActions_listing (offset : Offset) (clock : Clock) (mode : Mode) (kind : ActionKind)
    {pairs : List (String × Value)} (names : ∀ pair ∈ pairs, IsName pair.1)
    (values : ∀ pair ∈ pairs, pair.2.KeptByAll offset) :
    ∃ text, (({ offset } : Editor).renderer mode).listing kind pairs = .ok text ∧
      ((({ offset } : Editor).parseActions (String.ofList text) mode).run clock).1
        = .ok [⟨kind, (Params.ofList pairs).shownIn offset⟩] := by
  obtain ⟨text, written⟩ := Renderer.listing_ok (r := ({ offset } : Editor).renderer mode)
    (writable_table offset mode).hasToken kind pairs
  have instants : ∀ pair ∈ pairs, ∀ time, pair.2 = .instant time →
      time.isLeap = false ∧ Grammar.hasShortYear (time.withOffset offset) = true := by
    intro pair mem time same
    have kept := values pair mem
    rw [same] at kept
    exact ⟨kept.1.noLeap, kept.2⟩
  have read : (({ offset } : Editor).grammar mode (clock.readings 0)).calls text = .ok
      ([⟨kind, .ofList (pairs.map fun pair => (pair.1, pair.2.shownIn offset))⟩], []) :=
    Renderer.calls_of_listing (r := ({ offset } : Editor).renderer mode)
      (legible_table offset mode) (writable_table offset mode) (callable_table offset mode) rfl
      (unintroduced_table offset mode) names instants
      (fun pair mem => (values pair mem).isArgument) written
  refine ⟨text, written, ?_⟩
  rw [parseActions_eq_ok_iff, String.toList_ofList, Parser.complete_eq_ok,
    ← Params.ofList_shownIn]
  exact read

end Editor

/-! ### JSON -/

/-- The JSON text of an action with parameters as they are listed. -/
def Action.listedJson (kind : ActionKind) (pairs : List (String × Value)) : String :=
  String.ofList (Json.writeObject [("type", Json.writeString kind.tag),
    ("params", Json.writeObject (pairs.map fun pair => (pair.1, Json.writeValue pair.2)))])

namespace Json

open Document

variable {kind : ActionKind} {pairs : List (String × Value)}

/-- A JSON text is an object with a kind of action and with an object of parameters, whose
members have these names and values in this order. -/
def Lists (text : String) (kind : ActionKind) (pairs : List (String × Value)) : Prop :=
  ∃ json tag members, ofText? text = some json ∧
    json.fields? ["type", "params"] = some [some tag, some (.object members)] ∧
    tag.tagged? ActionKind.ofTag? = some kind ∧
    List.Forall₂ (fun member pair => member.1 = some pair.1 ∧
      member.2.soundValue? (maxDepth - 2) = some pair.2) members pairs

/-- The members of an object are read as parameters that are set in order. -/
theorem toParams?_of_forall₂ {members : List (Option String × Json)} {depth : Nat}
    (each : List.Forall₂ (fun member pair => member.1 = some pair.1 ∧
      member.2.soundValue? (depth - 1) = some pair.2) members pairs) :
    (object members).toParams? depth = some (.ofList pairs) := by
  obtain ⟨named, named_, read⟩ : ∃ named : List (String × Json),
      members.mapM (fun member => member.1.map (·, member.2)) = some named ∧
      named.mapM (fun entry => do return (entry.1, ← entry.2.soundValue? (depth - 1)))
        = some pairs := by
    induction each with
    | nil => exact ⟨[], rfl, rfl⟩
    | @cons member pair members pairs first _ ih =>
      obtain ⟨named, named_, read⟩ := ih
      refine ⟨(pair.1, member.2) :: named, ?_, ?_⟩
      · rw [List.mapM_cons, first.1, named_]
        rfl
      · rw [List.mapM_cons, read]
        dsimp only
        rw [first.2]
        rfl
  unfold toParams?
  rw [show (object members).members? = some named from named_]
  exact (congrArg (Option.bind · _) read).trans rfl

/-- An action is read with the parameters that are listed in a text, set in order. -/
theorem Lists.ofJson?_eq {text : String} (lists : Lists text kind pairs) :
    Action.ofJson? text = some ⟨kind, .ofList pairs⟩ := by
  obtain ⟨json, tag, members, whole, fields, tagged, each⟩ := lists
  unfold Action.ofJson?
  rw [whole]
  show json.toAction? maxDepth = _
  unfold toAction?
  rw [fields]
  refine (congrArg (Option.bind · _) tagged).trans ?_
  exact (congrArg (Option.bind · _) (toParams?_of_forall₂ each)).trans rfl

/-- What is written lists the parameters with the values that come back. -/
theorem lists_listedJson {offset : Offset} (kind : ActionKind)
    (values : ∀ pair ∈ pairs, pair.2.KeptByAll offset) :
    Lists (Action.listedJson kind pairs) kind
      (pairs.map fun pair => (pair.1, pair.2.reloaded)) := by
  obtain ⟨document, written, each⟩ := listed_written fun pair mem => (values pair mem).portable
  have whole := written_object
    (.cons (written_string kind.tag) (.cons written .nil) : List.Forall₂ _
      [("type", writeString kind.tag),
        ("params", writeObject (pairs.map fun pair => (pair.1, writeValue pair.2)))] _)
  refine ⟨_, .string (some kind.tag), _, (ofText?_of_written whole).1, rfl,
    ActionKind.ofTag?_tag kind, ?_⟩
  rw [List.forall₂_map_left_iff, List.forall₂_map_right_iff, List.forall₂_same]
  intro pair mem
  obtain ⟨usable, nests, read⟩ := each pair mem
  refine ⟨rfl, ?_⟩
  rw [soundValue?_eq usable read, nests, (values pair mem).nesting, if_pos (Nat.zero_le _)]

/-- Parameters are read from what is written as they come back. -/
theorem ofJson?_listedJson {offset : Offset} (kind : ActionKind)
    (values : ∀ pair ∈ pairs, pair.2.KeptByAll offset) :
    Action.ofJson? (Action.listedJson kind pairs)
      = some ⟨kind, (Params.ofList pairs).reloaded⟩ := by
  rw [(lists_listedJson kind values).ofJson?_eq]
  exact congrArg (fun params => some (Action.mk kind params))
    (Params.eq_of_entries (Params.entries_ofList_map Value.reloaded pairs))

end Json

/-- Parameters come back from JSON as they were if and only if each number is read as itself. -/
theorem Params.reloaded_eq_self_iff_reread {params : Params} {offset : Offset}
    (values : ∀ entry ∈ params.entries, entry.2.KeptByAll offset) : params.reloaded = params ↔
      ∀ name number, (name, .float number) ∈ params.entries → number.reread = number := by
  have each : params.reloaded = params ↔
      ∀ entry ∈ params.entries, entry.2.reloaded = entry.2 := by
    obtain ⟨entries, distinct⟩ := params
    rw [reloaded, mk.injEq, map_eq_self_iff]
    exact forall₂_congr fun entry _ => ⟨congrArg Prod.snd, fun same => by rw [same]⟩
  rw [each]
  constructor
  · intro same name number mem
    exact (values _ mem).reloaded_eq_self_iff.mp (same _ mem) number rfl
  · intro read entry mem
    exact (values entry mem).reloaded_eq_self_iff.mpr fun number same =>
      read entry.1 number (same ▸ mem)

/-! ### Blobs -/

namespace Blob

/-- A stored call with parameters as they are listed. -/
def Call.listing (kind : ActionKind) (pairs : List (String × Value)) : Call :=
  ⟨kind.tag, pairs.map fun pair => (pair.1, .ofValue pair.2)⟩

/-- The actions of a rule in a blob are those of the calls in its record. -/
theorem getElem?_actions_of_ofBlob {blob : List UInt8} {record : Record} {rule : ReviewRule}
    {i : Nat} {call : Call} {action : Action} (found : Blob.record blob = .ok record)
    (loaded : ReviewRule.ofBlob blob = .ok rule) (stored : record.actions[i]? = some call)
    (read : call.toAction = .ok action) : rule.actions[i]? = some action := by
  obtain ⟨own, own_, passed⟩ := ofBlob_eq_ok.mp loaded
  obtain rfl : own = record := Except.ok.inj (own_.symm.trans found)
  obtain ⟨length, each⟩ := List.forall₂_iff_get.mp (forall₂_of_mapM (toRule_eq_ok passed).2.1)
  obtain ⟨inside, call_⟩ := List.getElem?_eq_some_iff.mp stored
  have one := each i inside (length ▸ inside)
  rw [List.get_eq_getElem, List.get_eq_getElem, call_, read] at one
  exact List.getElem?_eq_some_iff.mpr ⟨length ▸ inside, (Except.ok.inj one).symm⟩

end Blob

/-! ### Every way to an action -/

/-- Parameters that are given in order, with names any number of times, come to the same
parameters, in which each name stands once, in the order in which the names first come, and
has its last value. It does not matter whether

- they are set one after another,
- they are read from the text of a call in either language, where all instants come to be shown
  in the offset of the editor,
- they are read from a JSON text that lists them, or
- they are stored in a call, which may be any of those in the blob of a rule.

The JSON text that is written for them lists what the digits of floating-point numbers are read
as. So what is read from it is the same exactly if each number that is left is read as itself. -/
theorem repeated_parameters_agree (offset : Offset) (clock : Clock) (kind : ActionKind)
    (pairs : List (String × Value)) (names : ∀ pair ∈ pairs, IsName pair.1)
    (values : ∀ pair ∈ pairs, pair.2.KeptByAll offset) :
    ∃ params : Params, params.Collects pairs ∧
      pairs.foldl (fun (action : Action) pair => action.setParam pair.1 pair.2) { kind }
        = ⟨kind, params⟩ ∧
      ((∀ mode, ∃ text, (({ offset } : Editor).renderer mode).listing kind pairs = .ok text ∧
          ((({ offset } : Editor).parseActions (String.ofList text) mode).run clock).1
            = .ok [⟨kind, params.shownIn offset⟩]) ∧
        (params.shownIn offset).sameParams params = true) ∧
      ((∀ text, Json.Lists text kind pairs → Action.ofJson? text = some ⟨kind, params⟩) ∧
        Action.ofJson? (Action.listedJson kind pairs) = some ⟨kind, params.reloaded⟩ ∧
        (params.reloaded = params ↔
          ∀ name number, (name, .float number) ∈ params.entries → number.reread = number)) ∧
      (Blob.Call.listing kind pairs).toAction = .ok ⟨kind, params⟩ ∧
      ∀ (blob : List UInt8) (record : Blob.Record) (rule : ReviewRule) (i : Nat),
        Blob.record blob = .ok record → record.actions[i]? = some (.listing kind pairs) →
          ReviewRule.ofBlob blob = .ok rule → rule.actions[i]? = some ⟨kind, params⟩ := by
  have stored := Blob.toAction_listed kind pairs
  have kept : ∀ entry ∈ (Params.ofList pairs).entries, entry.2.KeptByAll offset :=
    fun entry mem => values entry (Params.mem_of_mem_ofList mem)
  have same : ((Params.ofList pairs).shownIn offset).sameParams (.ofList pairs) = true :=
    Params.sameParams_shownIn fun entry mem => (kept entry mem).sameValue_shownIn
  exact ⟨.ofList pairs, Params.collects_ofList pairs, Action.foldl_setParam { kind } pairs,
    ⟨fun mode => Editor.parseActions_listing offset clock mode kind names values, same⟩,
    ⟨fun _ lists => lists.ofJson?_eq, Json.ofJson?_listedJson kind values,
      Params.reloaded_eq_self_iff_reread kept⟩, stored,
    fun _ _ _ _ found listed loaded =>
      Blob.getElem?_actions_of_ofBlob found loaded listed stored⟩

/-- A day is given twice, with a reason and an instant between. It stays in front, and the
second day counts. -/
theorem repeated_parameters_agree_day :
    let midnight : Value := .instant ⟨1672502400, 0, .china, by decide⟩
    let days : Value := .float (.nearest false ⟨25, -1⟩)
    let pairs : List (String × Value) :=
      [("day", .int 1), ("reason", .string "x"), ("since", midnight), ("day", days)]
    let ban : Action :=
      ⟨.ban, .ofList [("day", days), ("reason", .string "x"), ("since", midnight)]⟩
    (∀ pair ∈ pairs, IsName pair.1) ∧ (∀ pair ∈ pairs, pair.2.KeptByAll .china) ∧
      pairs.foldl (fun (action : Action) pair => action.setParam pair.1 pair.2) { kind := .ban }
        = ban ∧
      ((({} : Editor).parseActions
        "ban(day=1, reason='x', since=2023-01-01 00:00:00, day=2.5)" .dsl).run
          (.fixed ⟨0, 0, .utc, by decide⟩)).1 = .ok [ban] ∧
      Action.ofJson? ("\x7b\"type\":\"ban\",\"params\":\x7b\"day\":1," ++
        "\"reason\":\"x\",\"since\":\"2023-01-01T00:00:00+08:00\",\"day\":2.5\x7d\x7d") = some ban ∧
      (Blob.Call.mk "ban" [("day", .int 1), ("reason", .string "x"),
        ("since", .ofValue midnight), ("day", .ofValue days)]).toAction = .ok ban := by
  intro midnight days pairs ban
  have names : ∀ pair ∈ pairs, IsName pair.1 := by decide +kernel
  have kept : ∀ pair ∈ pairs, pair.2.KeptByAll .china := by
    have reason : Timestamp.read? "x".toList = none := by decide +kernel
    have since : midnight.KeptByAll .china :=
      ⟨⟨by decide, by decide +kernel, by decide⟩, by decide +kernel⟩
    have finite : (Binary64.nearest false ⟨25, -1⟩).isFinite = true := by decide +kernel
    simp only [pairs, List.forall_mem_cons]
    exact ⟨trivial, reason, since, finite, List.forall_mem_nil _⟩
  obtain ⟨params, collects, chained, ⟨texts, -⟩, ⟨-, json, unchanged⟩, stored, -⟩ :=
    repeated_parameters_agree .china (.fixed ⟨0, 0, .utc, by decide⟩) .ban pairs names kept
  obtain rfl : params = ban.params := (Params.collects_iff.mp collects).trans (by decide +kernel)
  obtain ⟨text, written, read⟩ := texts .dsl
  have shown : ban.params.shownIn .china = ban.params := by decide +kernel
  have spelled : text = "ban(day=1, reason='x', since=2023-01-01 00:00:00, day=2.5)".toList :=
    Except.ok.inj (written.symm.trans (by decide +kernel))
  rw [spelled, String.ofList_toList, shown] at read
  have object : Action.listedJson .ban pairs = "\x7b\"type\":\"ban\",\"params\":\x7b\"day\":1," ++
      "\"reason\":\"x\",\"since\":\"2023-01-01T00:00:00+08:00\",\"day\":2.5\x7d\x7d" := by
    decide +kernel
  have same : ban.params.reloaded = ban.params := by
    refine unchanged.mpr fun name number mem => ?_
    rw [show ban.params.entries = [("day", days), ("reason", .string "x"), ("since", midnight)] by
      decide +kernel] at mem
    obtain ⟨-, rfl⟩ : name = "day" ∧ number = .nearest false ⟨25, -1⟩ := by
      simpa [days, midnight] using mem
    decide +kernel
  rw [object, same] at json
  exact ⟨names, kept, chained, read, json, stored⟩

/-- Setting a number, reading it from a call and storing it keep it. From the digits in a JSON text
another number is read. -/
theorem repeated_parameters_differ :
    let number : Binary64 := .nearest false ⟨31245270191439438, -15⟩
    let other : Binary64 := .nearest false ⟨3124527019143944, -14⟩
    let ban : Action := ⟨.ban, .ofList [("x", .float number)]⟩
    IsName "x" ∧ (Value.float number).KeptByAll .china ∧
      ({ kind := .ban } : Action).setParam "x" (.float number) = ban ∧
      ((({} : Editor).parseActions "ban(x=31.245270191439438)" .dsl).run
        (.fixed ⟨0, 0, .utc, by decide⟩)).1 = .ok [ban] ∧
      (Blob.Call.mk "ban" [("x", .ofValue (.float number))]).toAction = .ok ban ∧
      number ≠ other ∧
      Action.ofJson? "\x7b\"type\":\"ban\",\"params\":\x7b\"x\":31.245270191439438\x7d\x7d"
        = some ⟨.ban, .ofList [("x", .float other)]⟩ := by
  intro number other ban
  have finite : number.isFinite = true := by decide +kernel
  have kept : ∀ pair ∈ [("x", Value.float number)], pair.2.KeptByAll .china :=
    List.forall_mem_singleton.mpr finite
  have json := Json.ofJson?_listedJson .ban kept
  rw [show Action.listedJson .ban [("x", .float number)]
      = "\x7b\"type\":\"ban\",\"params\":\x7b\"x\":31.245270191439438\x7d\x7d" by decide +kernel,
    show (Params.ofList [("x", .float number)]).reloaded = .ofList [("x", .float other)] by
      decide +kernel] at json
  exact ⟨by decide +kernel, finite, rfl, Editor.parseActions_eq_ok_iff.mpr (by decide +kernel),
    Blob.toAction_listed .ban [("x", .float number)], by decide +kernel, json⟩

end ForumModeration
