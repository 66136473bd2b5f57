import ForumModeration.Value

/-!
# `ForumModeration.Action`: what a rule asks for

An action is a kind and parameters. Parameters have a name and a value. Their
names are distinct, and they stay in the order in which the names were first
used: using a name again replaces the value in its place.

* `Params.get?_insert`: a parameter reads as it was last set.
-/

set_option autoImplicit false

namespace ForumModeration

/-- The kinds of action. -/
inductive ActionKind where
  | delete
  | ban
  | notify
deriving DecidableEq, Repr

namespace ActionKind

/-- The stored spelling of a kind of action. -/
def tag : ActionKind → String
  | delete => "delete"
  | ban => "ban"
  | notify => "notify"

/-- The kind of action with the given tag. -/
def ofTag? : String → Option ActionKind
  | "delete" => some delete
  | "ban" => some ban
  | "notify" => some notify
  | _ => none

theorem ofTag?_tag (kind : ActionKind) : ofTag? kind.tag = some kind := by
  cases kind <;> rfl

/-- A tag that is known is the kind of action's. -/
theorem tag_of_ofTag? {text : String} {kind : ActionKind} (h : ofTag? text = some kind) :
    kind.tag = text := by
  unfold ofTag? at h
  split at h <;> cases h <;> rfl

end ActionKind

/-- Sets a parameter in a list of parameters. -/
def setParam (name : String) (value : Value) : List (String × Value) → List (String × Value)
  | [] => [(name, value)]
  | entry :: rest =>
    if entry.1 = name then (name, value) :: rest else entry :: setParam name value rest

theorem names_setParam (name : String) (value : Value) (entries : List (String × Value)) :
    (setParam name value entries).map Prod.fst
      = if name ∈ entries.map Prod.fst then entries.map Prod.fst
        else entries.map Prod.fst ++ [name] := by
  induction entries with
  | nil => rfl
  | cons entry rest ih =>
    by_cases h : entry.1 = name
    · simp [setParam, h]
    · have h' : ¬ name = entry.1 := fun e => h e.symm
      simp only [setParam, h, if_false, List.map_cons, ih, List.mem_cons, h', false_or]
      split <;> rfl

/-- Where keys are distinct, an entry is found by its key. -/
theorem find?_of_mem {α β : Type} [DecidableEq α] {entries : List (α × β)}
    (distinct : (entries.map Prod.fst).Nodup) {entry : α × β} (mem : entry ∈ entries) :
    entries.find? (·.1 = entry.1) = some entry := by
  induction entries with
  | nil => cases mem
  | cons first rest ih =>
    obtain ⟨fresh, distinct⟩ := List.nodup_cons.mp distinct
    rcases List.mem_cons.mp mem with rfl | mem
    · exact List.find?_cons_of_pos (by simp)
    · have ne : first.1 ≠ entry.1 := fun same =>
        fresh (same ▸ List.mem_map_of_mem mem)
      rw [List.find?_cons_of_neg (by simpa using ne), ih distinct mem]

/-- Parameters in order, each name once. -/
structure Params where
  entries : List (String × Value)
  distinct : (entries.map Prod.fst).Nodup
deriving DecidableEq, Repr

namespace Params

/-- No parameters. -/
def empty : Params := ⟨[], by simp⟩

instance : EmptyCollection Params := ⟨empty⟩

/-- Sets a parameter: in its place if the name is in use, at the end otherwise. -/
def insert (params : Params) (name : String) (value : Value) : Params where
  entries := setParam name value params.entries
  distinct := by
    -- The names stay as they are, or a new one is added at the end.
    rw [names_setParam]
    split
    · exact params.distinct
    · rename_i h
      exact List.nodup_append.2 ⟨params.distinct, by simp, by
        intro a ha b hb
        rw [List.mem_singleton.1 hb]
        exact fun e => h (e ▸ ha)⟩

/-- Sets parameters one after another. -/
def insertAll (params : Params) (entries : List (String × Value)) : Params :=
  entries.foldl (fun params entry => params.insert entry.1 entry.2) params

/-- Parameters set one after another. -/
def ofList (entries : List (String × Value)) : Params :=
  empty.insertAll entries

/-- The value of a parameter. -/
def get? (params : Params) (name : String) : Option Value :=
  (params.entries.find? (·.1 = name)).map Prod.snd

/-- A parameter that stands in its place reads as it is. -/
theorem get?_of_mem {params : Params} {entry : String × Value} (mem : entry ∈ params.entries) :
    params.get? entry.1 = some entry.2 := by
  rw [get?, find?_of_mem params.distinct mem]
  rfl

private theorem find?_setParam (name other : String) (value : Value)
    (entries : List (String × Value)) :
    ((setParam name value entries).find? (·.1 = other)).map Prod.snd
      = if name = other then some value else (entries.find? (·.1 = other)).map Prod.snd := by
  induction entries with
  | nil => by_cases h : name = other <;> simp [setParam, h]
  | cons entry rest ih =>
    by_cases h : entry.1 = name
    · by_cases ho : name = other <;> simp [setParam, h, ho]
    · by_cases ho : entry.1 = other
      · have hn : ¬ name = other := fun e => h (ho.trans e.symm)
        have hn' : ¬ other = name := fun e => hn e.symm
        simp [setParam, ho, hn, hn']
      · simp [setParam, h, ho, ih]

/-- A parameter reads as it was last set. -/
theorem get?_insert (params : Params) (name other : String) (value : Value) :
    (params.insert name value).get? other
      = if name = other then some value else params.get? other :=
  find?_setParam name other value params.entries

/-- Whether two sets of parameters have the same names, in any order, and denote
the same under each. -/
def sameParams (a b : Params) : Bool :=
  a.entries.length = b.entries.length &&
    a.entries.all fun entry => (b.get? entry.1).any entry.2.sameValue

end Params

/-- A kind of action with its parameters. -/
structure Action where
  kind : ActionKind
  params : Params := ∅
deriving DecidableEq, Repr

namespace Action

/-- The action with a parameter set. -/
def setParam (action : Action) (name : String) (value : Value) : Action :=
  { action with params := action.params.insert name value }

/-- Whether two actions denote the same. -/
def sameAction (a b : Action) : Bool :=
  a.kind = b.kind && a.params.sameParams b.params

/-- Whether two lists of actions denote the same at each place. -/
def sameActions : List Action → List Action → Bool
  | [], [] => true
  | a :: as, b :: bs => sameAction a b && sameActions as bs
  | _, _ => false

end Action

end ForumModeration
