import ForumModeration.Proofs.Rendering.Totality
import ForumModeration.Proofs.TokenTable

/-!
# `ForumModeration.Proofs.Rendering.Primary`: what writing depends on

A renderer reads three things off its table: the token that is written for a symbol, the
language in which instants are spelled and whether spaces are put between tokens. Two
renderers that agree on these (`Agree`) write everything alike, and fail alike. Other tokens
of a table are for readers only.
-/

set_option autoImplicit false

namespace ForumModeration.Renderer

/-- Both renderers write the same tokens, and instants in the same offset. -/
structure Agree (r r' : Renderer) : Prop where
  primary : ∀ symbol, r'.table.primary symbol = r.table.primary symbol
  mode : r'.table.mode = r.table.mode
  spaced : r'.table.spaced = r.table.spaced
  offset : r'.offset = r.offset

namespace Agree

variable {r r' : Renderer}

theorem token (agree : Agree r r') (symbol : Symbol) : r'.token symbol = r.token symbol := by
  unfold Renderer.token
  rw [agree.primary]

theorem sign (agree : Agree r r') (p : Punctuation) : r'.sign p = r.sign p :=
  agree.token _

theorem space (agree : Agree r r') : r'.space = r.space := by
  unfold Renderer.space
  rw [agree.spaced]

theorem comma (agree : Agree r r') : r'.comma = r.comma := by
  unfold Renderer.comma
  rw [agree.sign, agree.space]

/-! ### Values -/

private theorem furtherValues (agree : Agree r r') {items : List Value}
    (each : ∀ item ∈ items, r'.value item = r.value item) :
    r'.furtherValues items = r.furtherValues items := by
  induction items with
  | nil => rfl
  | cons item items ih =>
    rw [Renderer.furtherValues, Renderer.furtherValues, agree.comma, each item (by simp),
      ih fun item mem => each item (List.mem_cons_of_mem _ mem)]

theorem value (agree : Agree r r') (v : Value) : r'.value v = r.value v := by
  induction v using Value.induction with
  | scalar v scalar =>
    cases v with
    | bool truth => exact agree.token _
    | instant time =>
      rw [Renderer.value, Renderer.value, agree.mode, agree.offset]
    | list items => cases scalar
    | _ => rfl
  | list items ih =>
    cases items with
    | nil => rw [Renderer.value, Renderer.value, agree.sign, agree.sign]
    | cons item items =>
      rw [Renderer.value, Renderer.value, agree.sign, agree.sign, ih item (by simp),
        agree.furtherValues fun item mem => ih item (List.mem_cons_of_mem _ mem)]

/-! ### Triggers -/

theorem condition (agree : Agree r r') (c : Condition) : r'.condition c = r.condition c := by
  unfold Renderer.condition
  rw [agree.primary, agree.token, agree.space, agree.value]

theorem parenthesize (agree : Agree r r') (needed : Bool) (text : Result) :
    r'.parenthesize needed text = r.parenthesize needed text := by
  unfold Renderer.parenthesize
  rw [agree.sign, agree.sign]

private theorem operands (agree : Agree r r') (connective : List Char) {children : List Trigger}
    (each : ∀ child ∈ children, r'.trigger true child = r.trigger true child) :
    r'.operands connective children = r.operands connective children := by
  induction children with
  | nil => rfl
  | cons child children ih =>
    rw [Renderer.operands, Renderer.operands, agree.space, each child (by simp),
      ih fun child mem => each child (List.mem_cons_of_mem _ mem)]

theorem trigger (agree : Agree r r') (t : Trigger) (nested : Bool) :
    r'.trigger nested t = r.trigger nested t := by
  induction t using Trigger.induction generalizing nested with
  | condition c => exact agree.condition c
  | group connective children ih =>
    cases unary : connective.isUnary with
    | true =>
      obtain rfl := Connective.isUnary_iff.mp unary
      cases children with
      | nil => rfl
      | cons child others =>
        cases others with
        | nil =>
          rw [Renderer.trigger, Renderer.trigger, agree.token, agree.space, agree.parenthesize,
            ih child (by simp)]
        | cons _ _ => rfl
    | false =>
      cases children with
      | nil => cases connective <;> rfl
      | cons first others =>
        cases others with
        | nil =>
          rw [trigger_single unary, trigger_single unary]
          exact ih first (by simp) nested
        | cons second others =>
          have others_ : ∀ token, r'.operands token (second :: others)
              = r.operands token (second :: others) :=
            fun token => agree.operands token fun child mem =>
              ih child (List.mem_cons_of_mem _ mem) true
          rw [trigger_many unary, trigger_many unary, agree.token, ih first (by simp)]
          simp only [agree.parenthesize, others_]

theorem rule (agree : Agree r r') (t : Trigger) : r'.rule t = r.rule t :=
  agree.trigger t false

/-! ### Action lists -/

private theorem parameter (agree : Agree r r') (entry : String × Value) :
    r'.parameter entry = r.parameter entry := by
  unfold Renderer.parameter
  rw [agree.sign, agree.value]

theorem parameters (agree : Agree r r') (entries : List (String × Value)) :
    r'.parameters entries = r.parameters entries := by
  induction entries with
  | nil => rfl
  | cons entry rest ih =>
    cases rest with
    | nil => exact agree.parameter entry
    | cons next rest =>
      show (do
        let first ← r'.parameter entry
        let comma ← r'.comma
        return first ++ comma ++ (← r'.parameters (next :: rest))) = _
      rw [agree.parameter, agree.comma, ih]
      rfl

theorem call (agree : Agree r r') (action : Action) : r'.call action = r.call action := by
  unfold Renderer.call
  rw [agree.token, agree.sign, agree.sign, agree.parameters]

theorem calls (agree : Agree r r') (actions : List Action) :
    r'.calls actions = r.calls actions := by
  induction actions with
  | nil => rfl
  | cons action rest ih =>
    cases rest with
    | nil => exact agree.call action
    | cons next rest =>
      show (do
        let first ← r'.call action
        let comma ← r'.comma
        return first ++ comma ++ (← r'.calls (next :: rest))) = _
      rw [agree.call, agree.comma, ih]
      rfl

theorem actions (agree : Agree r r') (actions : List Action) :
    r'.actions actions = r.actions actions := by
  cases actions with
  | nil => rfl
  | cons action rest =>
    rw [Renderer.actions, Renderer.actions, agree.token, agree.sign, agree.space, agree.calls]

end Agree

/-- A synonym changes nothing that is written, if the first entry of its symbol has a
token. -/
theorem agree_withSynonym {table : TokenTable} (offset : Offset) {symbol : Symbol} {token : String}
    {tokens : List String} (first : table.alternatives symbol = .ok tokens)
    (nonempty : tokens ≠ []) : Agree ⟨table, offset⟩ ⟨table.withSynonym symbol token, offset⟩ where
  primary := TokenTable.primary_withSynonym first nonempty
  mode := rfl
  spaced := rfl
  offset := rfl

end ForumModeration.Renderer
