import ForumModeration.Proofs.Rendering.Triggers

/-!
# `ForumModeration.Proofs.Rendering.Totality`: what can be written

A renderer whose table has a token for every symbol writes every value, every condition
and every list of actions (`actions_ok`). Of triggers it writes those in which `NOT` has one
child and no other connective is without any (`trigger_ok`), and no others
(`arities_of_trigger_ok`). Nothing is said here of what is written; it need not be read back.
-/

set_option autoImplicit false

namespace ForumModeration.Renderer

variable {r : Renderer}

/-- A text is written in steps, and each of them succeeds. -/
theorem bind_eq_ok {text : List Char} {step : Result} {next : List Char → Result} :
    (step >>= next) = .ok text ↔ ∃ first, step = .ok first ∧ next first = .ok text := by
  cases step with
  | error e => exact ⟨nofun, nofun⟩
  | ok first =>
    constructor
    · exact fun h => ⟨first, rfl, h⟩
    · rintro ⟨second, same, h⟩
      rw [Except.ok.inj same]
      exact h

theorem pure_eq_ok {text first : List Char} : (pure first : Result) = .ok text ↔ first = text :=
  ⟨Except.ok.inj, congrArg Except.ok⟩

variable (hasToken : ∀ symbol, (r.table.primary symbol).isOk = true)

include hasToken

theorem token_ok (symbol : Symbol) : ∃ token, r.token symbol = .ok token := by
  have found := hasToken symbol
  unfold token
  cases hp : r.table.primary symbol with
  | ok token => exact ⟨token.toList, rfl⟩
  | error missing =>
    rw [hp] at found
    cases found

/-! ### Values -/

private theorem furtherValues_ok {items : List Value}
    (each : ∀ item ∈ items, ∃ text, r.value item = .ok text) :
    ∃ text, r.furtherValues items = .ok text := by
  induction items with
  | nil => exact ⟨[], rfl⟩
  | cons item items ih =>
    obtain ⟨comma, comma_⟩ := token_ok hasToken (.punctuation .comma)
    obtain ⟨text, text_⟩ := each item (by simp)
    obtain ⟨more, more_⟩ := ih fun item mem => each item (List.mem_cons_of_mem _ mem)
    rw [furtherValues, Renderer.comma, sign, comma_, text_, more_]
    exact ⟨_, rfl⟩

/-- Every value is written. -/
theorem value_ok (v : Value) : ∃ text, r.value v = .ok text := by
  obtain ⟨opening, opening_⟩ := token_ok hasToken (.punctuation .leftBracket)
  obtain ⟨closing, closing_⟩ := token_ok hasToken (.punctuation .rightBracket)
  induction v using Value.induction with
  | scalar v scalar =>
    cases v with
    | bool truth => exact token_ok hasToken (.truth truth)
    | list items => cases scalar
    | _ => exact ⟨_, rfl⟩
  | list items ih =>
    cases items with
    | nil =>
      rw [value, sign, sign, opening_, closing_]
      exact ⟨_, rfl⟩
    | cons item items =>
      obtain ⟨text, text_⟩ := ih item (by simp)
      obtain ⟨more, more_⟩ :=
        furtherValues_ok hasToken fun item mem => ih item (List.mem_cons_of_mem _ mem)
      rw [value, sign, sign, opening_, closing_, text_, more_]
      exact ⟨_, rfl⟩

/-! ### Triggers -/

theorem condition_ok (c : Condition) : ∃ text, r.condition c = .ok text := by
  obtain ⟨operator, operator_⟩ := token_ok hasToken (.operator c.operator)
  obtain ⟨text, text_⟩ := value_ok hasToken c.value
  rw [condition, operator_, text_]
  exact ⟨_, rfl⟩

theorem parenthesize_ok (needed : Bool) (text : List Char) :
    ∃ written, r.parenthesize needed (.ok text) = .ok written := by
  obtain ⟨opening, opening_⟩ := token_ok hasToken (.punctuation .leftParen)
  obtain ⟨closing, closing_⟩ := token_ok hasToken (.punctuation .rightParen)
  rw [parenthesize, sign, sign, opening_, closing_]
  cases needed <;> exact ⟨_, rfl⟩

omit hasToken in
private theorem operands_ok (connective : List Char) {children : List Trigger}
    (each : ∀ child ∈ children, ∃ text, r.trigger true child = .ok text) :
    ∃ text, r.operands connective children = .ok text := by
  induction children with
  | nil => exact ⟨[], rfl⟩
  | cons child children ih =>
    obtain ⟨text, text_⟩ := each child (by simp)
    obtain ⟨more, more_⟩ := ih fun child mem => each child (List.mem_cons_of_mem _ mem)
    rw [operands, text_, more_]
    exact ⟨_, rfl⟩

/-- A trigger is written if each negation in it has one child and no other group is empty. -/
theorem trigger_ok {t : Trigger}
    (arities : ∀ g ∈ t.groups, if g.1 = .not then g.2 = 1 else 1 ≤ g.2) (nested : Bool) :
    ∃ text, r.trigger nested t = .ok text := by
  induction t using Trigger.induction generalizing nested with
  | condition c => exact condition_ok hasToken c
  | group connective children ih =>
    have here := arities (connective, children.length) (by simp)
    have each : ∀ child ∈ children, ∀ nested, ∃ text, r.trigger nested child = .ok text :=
      fun child mem => ih child mem fun g found => arities g (Trigger.mem_groups_of_child mem found)
    obtain ⟨token, token_⟩ := token_ok hasToken (.connective connective)
    cases binary : connective.isUnary with
    | true =>
      obtain rfl := Connective.isUnary_iff.mp binary
      obtain ⟨child, rfl⟩ := List.length_eq_one_iff.mp here
      obtain ⟨text, text_⟩ := each child (by simp) false
      obtain ⟨inner, inner_⟩ := parenthesize_ok hasToken true text
      rw [trigger, token_, text_, inner_]
      exact ⟨_, rfl⟩
    | false =>
      cases children with
      | nil =>
        rw [if_neg (by rintro rfl; cases binary)] at here
        cases here
      | cons first others =>
        cases others with
        | nil =>
          rw [trigger_single binary]
          exact each first (by simp) nested
        | cons second others =>
          obtain ⟨text, text_⟩ := each first (by simp) true
          obtain ⟨more, more_⟩ :=
            operands_ok token fun child mem => each child (List.mem_cons_of_mem _ mem) true
          rw [trigger_many binary, token_, text_]
          show ∃ written, r.parenthesize nested
            (do return text ++ (← r.operands token (second :: others))) = .ok written
          rw [more_]
          exact parenthesize_ok hasToken nested (text ++ more)

omit hasToken in
private theorem of_operands_ok {connective text : List Char} {children : List Trigger}
    (written : r.operands connective children = .ok text) :
    ∀ child ∈ children, ∃ text, r.trigger true child = .ok text := by
  induction children generalizing text with
  | nil => exact fun child mem => absurd mem List.not_mem_nil
  | cons child children ih =>
    rw [operands] at written
    obtain ⟨first, first_, rest⟩ := bind_eq_ok.mp written
    obtain ⟨others, others_, _⟩ := bind_eq_ok.mp rest
    exact List.forall_mem_cons.mpr ⟨⟨first, first_⟩, ih others_⟩

omit hasToken in
private theorem of_parenthesize_ok {needed : Bool} {inner : Result} {text : List Char}
    (written : r.parenthesize needed inner = .ok text) : ∃ text, inner = .ok text := by
  unfold parenthesize at written
  cases needed with
  | false => exact ⟨text, written⟩
  | true =>
    obtain ⟨_, _, rest⟩ := bind_eq_ok.mp written
    obtain ⟨text, text_, _⟩ := bind_eq_ok.mp rest
    exact ⟨text, text_⟩

omit hasToken in
/-- No other triggers are written, whatever the table is. -/
theorem arities_of_trigger_ok {t : Trigger} {nested : Bool} {text : List Char}
    (written : r.trigger nested t = .ok text) :
    ∀ g ∈ t.groups, if g.1 = .not then g.2 = 1 else 1 ≤ g.2 := by
  induction t using Trigger.induction generalizing nested text with
  | condition c => exact List.forall_mem_nil _
  | group connective children ih =>
    -- The group itself has as many children as it needs, and each of them is written.
    obtain ⟨here, each⟩ : (if connective = .not then children.length = 1 else 1 ≤ children.length) ∧
        ∀ child ∈ children, ∃ nested text, r.trigger nested child = .ok text := by
      by_cases negation : connective = .not
      · subst negation
        rcases children with _ | ⟨child, _ | ⟨_, _⟩⟩
        · cases written
        · rw [trigger] at written
          obtain ⟨_, _, rest⟩ := bind_eq_ok.mp written
          obtain ⟨_, inner, _⟩ := bind_eq_ok.mp rest
          obtain ⟨text, text_⟩ := of_parenthesize_ok inner
          exact ⟨rfl, List.forall_mem_singleton.mpr ⟨false, text, text_⟩⟩
        · cases written
      · have binary : connective.isUnary = false := by
          simpa using mt Connective.isUnary_iff.mp negation
        rw [if_neg negation]
        rcases children with _ | ⟨first, _ | ⟨second, others⟩⟩
        · rw [trigger] at written
          · cases written
          · exact negation
        · rw [trigger_single binary] at written
          exact ⟨Nat.le_refl 1, List.forall_mem_singleton.mpr ⟨nested, text, written⟩⟩
        · rw [trigger_many binary] at written
          obtain ⟨_, _, rest⟩ := bind_eq_ok.mp written
          obtain ⟨_, inner⟩ := of_parenthesize_ok rest
          obtain ⟨text, text_, rest⟩ := bind_eq_ok.mp inner
          obtain ⟨_, others_, _⟩ := bind_eq_ok.mp rest
          exact ⟨by simp, List.forall_mem_cons.mpr ⟨⟨true, text, text_⟩,
            fun child mem => ⟨true, of_operands_ok others_ child mem⟩⟩⟩
    rw [Trigger.groups_group, List.forall_mem_cons]
    refine ⟨here, fun g mem => ?_⟩
    obtain ⟨child, listed, found⟩ := List.mem_flatMap.mp mem
    obtain ⟨nested, text, written⟩ := each child listed
    exact ih child listed written g found

/-! ### Actions -/

theorem parameter_ok (entry : String × Value) : ∃ text, r.parameter entry = .ok text := by
  obtain ⟨assign, assign_⟩ := token_ok hasToken (.punctuation .assign)
  obtain ⟨value, value_⟩ := value_ok hasToken entry.2
  rw [parameter, sign, assign_, value_]
  exact ⟨_, rfl⟩

private theorem parameters_ok (entries : List (String × Value)) :
    ∃ text, r.parameters entries = .ok text := by
  obtain ⟨comma, comma_⟩ := token_ok hasToken (.punctuation .comma)
  induction entries with
  | nil => exact ⟨[], rfl⟩
  | cons entry rest ih =>
    obtain ⟨first, first_⟩ := parameter_ok hasToken entry
    obtain ⟨more, more_⟩ := ih
    cases rest with
    | nil => exact ⟨first, first_⟩
    | cons next rest =>
      rw [parameters, Renderer.comma, sign, first_, comma_, more_]
      · exact ⟨_, rfl⟩
      · exact nofun

/-- A call with parameters as they are listed, among which a name may come more than once. -/
def listing (r : Renderer) (kind : ActionKind) (entries : List (String × Value)) : Result := do
  let kind ← r.token (.action kind)
  let opening ← r.sign .leftParen
  let params ← r.parameters entries
  return kind ++ opening ++ params ++ (← r.sign .rightParen)

theorem listing_ok (kind : ActionKind) (entries : List (String × Value)) :
    ∃ text, r.listing kind entries = .ok text := by
  obtain ⟨kind, kind_⟩ := token_ok hasToken (.action kind)
  obtain ⟨opening, opening_⟩ := token_ok hasToken (.punctuation .leftParen)
  obtain ⟨closing, closing_⟩ := token_ok hasToken (.punctuation .rightParen)
  obtain ⟨params, params_⟩ := parameters_ok hasToken entries
  rw [listing, sign, sign, kind_, opening_, closing_, params_]
  exact ⟨_, rfl⟩

theorem call_ok (action : Action) : ∃ text, r.call action = .ok text :=
  listing_ok hasToken action.kind action.params.entries

private theorem calls_ok (actions : List Action) : ∃ text, r.calls actions = .ok text := by
  obtain ⟨comma, comma_⟩ := token_ok hasToken (.punctuation .comma)
  induction actions with
  | nil => exact ⟨[], rfl⟩
  | cons action rest ih =>
    obtain ⟨first, first_⟩ := call_ok hasToken action
    obtain ⟨more, more_⟩ := ih
    cases rest with
    | nil => exact ⟨first, first_⟩
    | cons next rest =>
      rw [calls, Renderer.comma, sign, first_, comma_, more_]
      · exact ⟨_, rfl⟩
      · exact nofun

/-- Every list of actions is written. -/
theorem actions_ok (actions : List Action) : ∃ text, r.actions actions = .ok text := by
  obtain ⟨introduction, introduction_⟩ := token_ok hasToken .actionPrefix
  obtain ⟨colon, colon_⟩ := token_ok hasToken (.punctuation .colon)
  cases actions with
  | nil => exact ⟨[], rfl⟩
  | cons action rest =>
    obtain ⟨calls, calls_⟩ := calls_ok hasToken (action :: rest)
    rw [Renderer.actions, sign, introduction_, colon_, calls_]
    exact ⟨_, rfl⟩

end ForumModeration.Renderer
