import ForumModeration.Proofs.Grammar.Calls
import ForumModeration.Proofs.Rendering.Totality

/-!
# `ForumModeration.Proofs.Rendering.Calls`: actions that are written are read back

A renderer writes the names of parameters as they are. Where all of them are names in the
sense of the grammar (`IsName`), a written list of actions is read in one of two ways: as the
actions if all values can be arguments (`Value.IsArgument`), and not at all if one of them is
a list or no number. It is never read as anything else.

Values come first (`argument_readsIf`), then parameters and calls, which are written with the
same commas between them (`Further`), and then whole texts (`actions_readsIf`). A call is read
with whatever parameters are listed in it (`listing_readsIf`), also if names are repeated, which
no action is written with.
-/

set_option autoImplicit false

namespace ForumModeration

open Text ForumModeration.Grammar ForumModeration.Parser

/-- A value that can stand as the argument of an action: no list, and no floating-point
number that is none. -/
def Value.IsArgument : Value → Prop
  | .list _ => False
  | .float number => number.isFinite = true
  | _ => True

/-- What is written for a floating-point number that is none. -/
theorem NumberStyle.write_of_not_isFinite (style : NumberStyle) {number : Binary64}
    (h : number.isFinite = false) :
    ∃ word, (word = ['N', 'a', 'N'] ∨ word = ['i', 'n', 'f']) ∧
      (style.write number = word ∨ style.write number = '-' :: word) := by
  have large : ¬number.magnitudeBits < Binary64.infinityBits := of_decide_eq_false h
  have notZero : number.isZero = false := by
    refine decide_eq_false fun zero => large ?_
    rw [zero]
    decide
  have magnitude : style.magnitude number = ['i', 'n', 'f'] := by
    rw [NumberStyle.magnitude, notZero, h]
    rfl
  rw [NumberStyle.write, magnitude]
  cases number.isNaN with
  | true => exact ⟨_, .inl rfl, .inl rfl⟩
  | false =>
    refine ⟨_, .inr rfl, ?_⟩
    cases number.isNegative with
    | true => exact .inr rfl
    | false => exact .inl rfl

namespace Renderer

variable {r : Renderer} {now : Instant} {text rest blanks : List Char}

/-- What is written for a symbol. -/
theorem written_of_token (writable : r.table.Writable) {symbol : Symbol} {token : List Char}
    (h : r.token symbol = .ok token) (notUnit : TokenTable.isUnit symbol = false) :
    r.table.Written symbol token := by
  obtain ⟨token', written⟩ := writable.written symbol notUnit
  obtain rfl : token' = token := Except.ok.inj ((token_eq written).symm.trans h)
  exact written

/-! ### Arguments -/

section

variable (legible : r.table.Legible) (writable : r.table.Writable) (callable : r.table.Callable)
  (offset : now.offset = r.offset)

include legible writable callable in
/-- A value that cannot be an argument is not taken for one. -/
theorem scalar_declines_of_not_isArgument {v : Value} (written : r.value v = .ok text)
    (fails : ¬v.IsArgument) (boundary : Ahead (fun c => isIdent c = false ∧ c ≠ '.') rest) :
    (ofTable r.table now).scalar.Declines (text ++ rest) := by
  cases v with
  | float number =>
    obtain ⟨word, word_, spelled⟩ := NumberStyle.ruleText.write_of_not_isFinite
      (by simpa [Value.IsArgument] using fails)
    obtain rfl : NumberStyle.ruleText.write number = text := Except.ok.inj written
    rcases spelled with plain | negative
    · rw [plain]
      exact scalar_declines_noNumber rfl callable word_ fun _ => boundary
    · rw [negative]
      refine scalar_declines_minus rfl legible ?_
      rcases word_ with rfl | rfl <;> exact ahead_cons.mpr (by decide)
  | list items =>
    -- What is written starts with a bracket, whether there are items or not.
    obtain ⟨opening, inner, hopening, rfl⟩ : ∃ opening inner,
        r.sign .leftBracket = .ok opening ∧ opening ++ inner = text := by
      cases items with
      | nil =>
        rw [value] at written
        obtain ⟨opening, hopening, written⟩ := bind_eq_ok.mp written
        obtain ⟨closing, _, written⟩ := bind_eq_ok.mp written
        exact ⟨opening, closing, hopening, pure_eq_ok.mp written⟩
      | cons item items =>
        rw [value] at written
        obtain ⟨opening, hopening, written⟩ := bind_eq_ok.mp written
        obtain ⟨first, _, written⟩ := bind_eq_ok.mp written
        obtain ⟨others, _, written⟩ := bind_eq_ok.mp written
        obtain ⟨closing, _, written⟩ := bind_eq_ok.mp written
        refine ⟨opening, first ++ (others ++ closing), hopening, ?_⟩
        rw [← pure_eq_ok.mp written, List.append_assoc, List.append_assoc]
    have opening_ := written_of_token writable hopening rfl
    rw [List.append_assoc]
    exact scalar_declines_leftBracket rfl legible (opening_.sign_stands _)
      (opening_.sign_read legible _)
  | _ => exact absurd trivial fails

include legible writable callable offset

/-- A value is read where an argument has to stand, or the text is refused. -/
theorem argument_readsIf {v : Value} (written : r.value v = .ok text)
    (instant : ∀ time, v = .instant time →
      time.isLeap = false ∧ hasShortYear (time.withOffset r.offset) = true)
    (ends : Ends r.table rest) (loose : Ahead (isIdent · = false) rest) :
    ReadsIf v.IsArgument (commit (ofTable r.table now).scalar) (text ++ rest)
      (v.shownIn r.offset) rest where
  reads := by
    intro holds
    have noList : v.isList = false := by
      cases v with
      | list items => cases holds
      | _ => rfl
    have recoverable : v.Recoverable r.offset false := by
      cases v with
      | float number => exact holds
      | instant time => exact instant time rfl
      | string text => exact nofun
      | _ => trivial
    obtain ⟨text', written', recovers⟩ := scalar_recovers legible writable offset noList recoverable
    obtain rfl : text' = text := Except.ok.inj (written'.symm.trans written)
    have costs := recovers.costs [] rest (fun _ mem => absurd mem List.not_mem_nil) ends loose
    have none : v.levels = 0 := by
      cases v with
      | list items => cases noList
      | _ => rfl
    exact commit_eq_ok.mpr (scalar_of_literal (costs.reads 0 (Nat.le_of_eq none)))
  refuses := by
    intro fails
    have boundary : Ahead (fun c => isIdent c = false ∧ c ≠ '.') rest :=
      fun c first => ⟨loose c first,
        ne_of_startsNoToken ((ends.detached legible).ahead c first).1 (by decide)⟩
    have declines : (ofTable r.table now).scalar.Declines (text ++ rest) :=
      scalar_declines_of_not_isArgument legible writable callable written fails boundary
    obtain ⟨failure, failed, _⟩ := declines
    exact ⟨{ failure with committed := true }, by rw [commit, failed], rfl⟩

/-- A parameter is read back, if its value can be an argument. -/
theorem parameter_readsIf {entry : String × Value} (name : IsName entry.1)
    (instant : ∀ time, entry.2 = .instant time →
      time.isLeap = false ∧ hasShortYear (time.withOffset r.offset) = true)
    (written : r.parameter entry = .ok text) (blank : ∀ c ∈ blanks, isBlank c = true)
    (ends : Ends r.table rest) (loose : Ahead (isIdent · = false) rest) :
    ReadsIf entry.2.IsArgument (ofTable r.table now).parameter (blanks ++ (text ++ rest))
      (entry.1, entry.2.shownIn r.offset) rest := by
  rw [parameter] at written
  obtain ⟨assign, hassign, written⟩ := bind_eq_ok.mp written
  obtain ⟨value, hvalue, written⟩ := bind_eq_ok.mp written
  obtain rfl := pure_eq_ok.mp written
  have assign_ := written_of_token writable hassign rfl
  rw [List.append_assoc, List.append_assoc]
  obtain ⟨skipped, run⟩ :=
    name.read blank (callable.ends_name assign_.mem (.inl rfl) (value ++ rest))
  refine ReadsIf.after (show Grammar.blanks _ = .ok ((), _) from rfl) ?_
  rw [skipped]
  refine ReadsIf.after run (ReadsIf.after (required_eq_ok.mpr (assign_.sign_read legible _)) ?_)
  have argument := argument_readsIf legible writable callable offset hvalue instant ends loose
  refine (argument.expecting (.word .literal)).before ?_
  rw [String.ofList_toList]
  rfl

end

/-! ### Lists with commas -/

/-- Items with a comma in front of each. -/
inductive Further {ι : Type} (r : Renderer) (writes : ι → Result) :
    List ι → List Char → Prop where
  | nil : Further r writes [] []
  | cons {item : ι} {items : List ι} {comma text more : List Char}
      (comma_ : r.sign .comma = .ok comma) (written : writes item = .ok text)
      (others : Further r writes items more) :
      Further r writes (item :: items) (comma ++ (r.space ++ (text ++ more)))

/-- The first item is read, and then those with a comma in front of them. -/
theorem separated_readsIf {ι α : Type} {writes : ι → Result} {p : Parser α} (now : Instant)
    (good : ι → Prop) (shown : ι → α) (legible : r.table.Legible) (writable : r.table.Writable)
    {first : ι} {others : List ι}
    (each : ∀ item ∈ first :: others, ∀ {text blanks rest : List Char}, writes item = .ok text →
      (∀ c ∈ blanks, isBlank c = true) → Ends r.table rest → Ahead (isIdent · = false) rest →
      ReadsIf (good item) p (blanks ++ (text ++ rest)) (shown item) rest)
    {more : List Char} (written : writes first = .ok text) (further : Further r writes others more)
    (blank : ∀ c ∈ blanks, isBlank c = true) (ends : Ends r.table rest)
    (loose : Ahead (isIdent · = false) rest)
    (stop : ((ofTable r.table now).sign .comma).Declines rest) :
    ReadsIf (∀ item ∈ first :: others, good item)
      (separated p ((ofTable r.table now).sign .comma)) (blanks ++ (text ++ (more ++ rest)))
      ((first :: others).map shown) rest := by
  have many : Ends r.table (more ++ rest) ∧ Ahead (isIdent · = false) (more ++ rest) ∧
      ReadsIf (∀ item ∈ others, good item)
        (Parser.many (do let _ ← (ofTable r.table now).sign .comma; p)) (more ++ rest)
        (others.map shown) rest := by
    -- By induction on the items: behind each stands the next comma or what ends the list.
    induction further with
    | nil =>
      obtain ⟨failure, failed, soft⟩ := Declines.bind (f := fun _ => p) stop
      refine ⟨ends, loose, ⟨fun _ => many_of_error failed soft, fun fails => ?_⟩⟩
      exact absurd (fun _ mem => absurd mem List.not_mem_nil) fails
    | @cons item items comma text more hcomma hitem _ ih =>
      obtain ⟨ends', loose', more_⟩ := ih fun item mem => each item (by
        rcases List.mem_cons.mp mem with rfl | mem
        · exact List.mem_cons_self
        · exact List.mem_cons_of_mem _ (List.mem_cons_of_mem _ mem))
      have comma_ := written_of_token writable hcomma rfl
      have item_ := each item (by simp) hitem r.blank_space ends' loose'
      have token := comma_.sign_stands (r.space ++ (text ++ (more ++ rest)))
      have same : comma ++ (r.space ++ (text ++ more)) ++ rest
          = comma ++ (r.space ++ (text ++ (more ++ rest))) := by
        simp only [List.append_assoc]
      rw [same]
      have shorter : (more ++ rest).length
          < (comma ++ (r.space ++ (text ++ (more ++ rest)))).length := by
        refine Nat.lt_of_le_of_lt ?_ token.length_lt
        simp only [List.length_append]
        omega
      refine ⟨.inr ⟨_, _, rfl, token⟩, comma_.ahead_ident rfl, ?_⟩
      have read : (ofTable r.table now).sign .comma (comma ++ (r.space ++ (text ++ (more ++ rest))))
          = .ok ((), r.space ++ (text ++ (more ++ rest))) := comma_.sign_read legible _
      have one := item_.after (f := fun _ => p) read
      exact (one.many_cons shorter more_).congr List.forall_mem_cons.symm
  obtain ⟨ends', loose', others_⟩ := many
  have first_ := each first (by simp) written blank ends' loose'
  refine (first_.bind (others_.before ?_)).congr List.forall_mem_cons.symm
  rfl

/-- What is written with commas between every two items is a first item and those behind
it. -/
theorem further_of_join {ι : Type} (writes : ι → Result) (join : List ι → Result)
    (single : ∀ item, join [item] = writes item)
    (several : ∀ item next others, join (item :: next :: others) = (do
      let first ← writes item
      let comma ← r.comma
      return first ++ comma ++ (← join (next :: others))))
    {item : ι} {others : List ι} (written : join (item :: others) = .ok text) :
    ∃ first more, writes item = .ok first ∧ Further r writes others more ∧
      text = first ++ more := by
  induction others generalizing item text with
  | nil =>
    rw [single] at written
    exact ⟨text, [], written, .nil, (List.append_nil _).symm⟩
  | cons next others ih =>
    rw [several] at written
    obtain ⟨first, hfirst, written⟩ := bind_eq_ok.mp written
    obtain ⟨separator, hseparator, written⟩ := bind_eq_ok.mp written
    obtain ⟨comma, hcomma, hspace⟩ := bind_eq_ok.mp hseparator
    obtain rfl := pure_eq_ok.mp hspace
    obtain ⟨rest, hrest, written⟩ := bind_eq_ok.mp written
    obtain rfl := pure_eq_ok.mp written
    obtain ⟨second, more, hsecond, further, rfl⟩ := ih hrest
    refine ⟨first, _, hfirst, .cons hcomma hsecond further, ?_⟩
    simp only [List.append_assoc]

/-! ### Calls -/

section

variable (legible : r.table.Legible) (writable : r.table.Writable) (callable : r.table.Callable)
  (offset : now.offset = r.offset)

include legible writable callable offset

/-- The parameters of an action are read, up to what closes the call. -/
private theorem parameters_readsIf {entries : List (String × Value)} {closing : List Char}
    (names : ∀ entry ∈ entries, IsName entry.1)
    (instants : ∀ entry ∈ entries, ∀ time, entry.2 = .instant time →
      time.isLeap = false ∧ hasShortYear (time.withOffset r.offset) = true)
    (written : r.parameters entries = .ok text)
    (closing_ : r.table.Written (.punctuation .rightParen) closing) (rest : List Char) :
    ReadsIf (∀ entry ∈ entries, entry.2.IsArgument)
      (separatedOrNone (ofTable r.table now).parameter ((ofTable r.table now).sign .comma))
      (text ++ (closing ++ rest)) (entries.map fun entry => (entry.1, entry.2.shownIn r.offset))
      (closing ++ rest) := by
  have token := closing_.sign_stands rest
  cases entries with
  | nil =>
    obtain rfl := pure_eq_ok.mp written
    have declines : (ofTable r.table now).parameter.Declines (closing ++ rest) := by
      have skipped : skipBlanks (closing ++ rest) = closing ++ rest := by
        obtain ⟨c, tail, rfl, notBlank, _⟩ := legible.first closing_.mem
        exact skipBlanks_eq_of_not_blank notBlank
      refine Declines.after (show Grammar.blanks _ = .ok ((), skipBlanks _) from rfl) ?_
      rw [skipped]
      exact Declines.bind (run_declines (callable.ends_name closing_.mem (.inr rfl) rest))
    refine ⟨fun _ => bind_of_ok declines.optional, fun fails => ?_⟩
    exact absurd (fun _ mem => absurd mem List.not_mem_nil) fails
  | cons entry others =>
    obtain ⟨first, more, hfirst, further, rfl⟩ :=
      further_of_join r.parameter r.parameters (fun _ => rfl) (fun _ _ _ => rfl) written
    have reads := separated_readsIf now (fun entry : String × Value => entry.2.IsArgument)
      (fun entry => (entry.1, entry.2.shownIn r.offset)) legible writable
      (fun item mem => parameter_readsIf legible writable callable offset
        (names item mem) (instants item mem)) hfirst further
      (fun _ mem => absurd mem List.not_mem_nil) (.inr ⟨_, _, rfl, token⟩)
      (closing_.ahead_ident rfl) (comma_declines_rightParen rfl legible callable token)
    rw [List.append_assoc]
    exact reads.congr_at (separatedOrNone_eq fun declines => reads.not_declines declines.bind)

/-- A call is read with the parameters that are listed in it, if their values can be
arguments. -/
theorem listing_readsIf {kind : ActionKind} {entries : List (String × Value)}
    (names : ∀ entry ∈ entries, IsName entry.1)
    (instants : ∀ entry ∈ entries, ∀ time, entry.2 = .instant time →
      time.isLeap = false ∧ hasShortYear (time.withOffset r.offset) = true)
    (written : r.listing kind entries = .ok text) (blank : ∀ c ∈ blanks, isBlank c = true)
    (rest : List Char) :
    ReadsIf (∀ entry ∈ entries, entry.2.IsArgument) (ofTable r.table now).call
      (blanks ++ (text ++ rest))
      ⟨kind, .ofList (entries.map fun entry => (entry.1, entry.2.shownIn r.offset))⟩ rest := by
  rw [listing] at written
  obtain ⟨word, hword, written⟩ := bind_eq_ok.mp written
  obtain ⟨opening, hopening, written⟩ := bind_eq_ok.mp written
  obtain ⟨params, hparams, written⟩ := bind_eq_ok.mp written
  obtain ⟨closing, hclosing, written⟩ := bind_eq_ok.mp written
  obtain rfl := pure_eq_ok.mp written
  have word_ := written_of_token writable hword rfl
  have opening_ := written_of_token writable hopening rfl
  have closing_ := written_of_token writable hclosing rfl
  have same : word ++ opening ++ params ++ closing ++ rest
      = word ++ (opening ++ (params ++ (closing ++ rest))) := by
    simp only [List.append_assoc]
  rw [same]
  have boundary : RespectsBoundary word (opening ++ (params ++ (closing ++ rest))) :=
    fun _ c first => ⟨opening_.ahead_ident rfl c first, opening_.ahead_point legible c first⟩
  have readKind : (ofTable r.table now).actionKind
      (blanks ++ (word ++ (opening ++ (params ++ (closing ++ rest)))))
        = .ok (kind, opening ++ (params ++ (closing ++ rest))) :=
    actionKind_of_token legible callable ((word_.stands boundary).prepend blank)
  refine ReadsIf.after (expecting_eq_ok.mpr readKind) ?_
  refine ReadsIf.after (required_eq_ok.mpr (opening_.sign_read legible _)) ?_
  have params_ := parameters_readsIf legible writable callable offset names instants hparams
    closing_ rest
  refine params_.before ?_
  rw [bind_of_ok (required_eq_ok.mpr (closing_.sign_read legible rest))]
  rfl

/-- A call is read back, if its values can be arguments. -/
theorem call_readsIf {action : Action} (names : ∀ entry ∈ action.params.entries, IsName entry.1)
    (instants : ∀ entry ∈ action.params.entries, ∀ time, entry.2 = .instant time →
      time.isLeap = false ∧ hasShortYear (time.withOffset r.offset) = true)
    (written : r.call action = .ok text) (blank : ∀ c ∈ blanks, isBlank c = true)
    (rest : List Char) :
    ReadsIf (∀ entry ∈ action.params.entries, entry.2.IsArgument) (ofTable r.table now).call
      (blanks ++ (text ++ rest)) (action.shownIn r.offset) rest := by
  rw [Action.shownIn, ← Params.ofList_entries (action.params.shownIn r.offset)]
  exact listing_readsIf legible writable callable offset names instants written blank rest

/-- An action list that is one call is read without the word that introduces it. -/
theorem calls_of_listing
    (unintroduced : r.table.Unintroduced) {kind : ActionKind} {entries : List (String × Value)}
    (names : ∀ entry ∈ entries, IsName entry.1)
    (instants : ∀ entry ∈ entries, ∀ time, entry.2 = .instant time →
      time.isLeap = false ∧ hasShortYear (time.withOffset r.offset) = true)
    (arguments : ∀ entry ∈ entries, entry.2.IsArgument)
    (written : r.listing kind entries = .ok text) :
    (ofTable r.table now).calls text = .ok
      ([⟨kind, .ofList (entries.map fun entry => (entry.1, entry.2.shownIn r.offset))⟩], []) := by
  have read : (ofTable r.table now).call text = .ok
      (⟨kind, .ofList (entries.map fun entry => (entry.1, entry.2.shownIn r.offset))⟩, []) := by
    have reads := (listing_readsIf legible writable callable offset names instants written
      (fun _ mem => absurd mem List.not_mem_nil) []).reads arguments
    rwa [List.nil_append, List.append_nil] at reads
  have none : (ofTable r.table now).introduction.Declines text := by
    rw [listing] at written
    obtain ⟨word, hword, written⟩ := bind_eq_ok.mp written
    obtain ⟨opening, hopening, written⟩ := bind_eq_ok.mp written
    obtain ⟨params, -, written⟩ := bind_eq_ok.mp written
    obtain ⟨closing, -, written⟩ := bind_eq_ok.mp written
    obtain rfl := pure_eq_ok.mp written
    have word_ := written_of_token writable hword rfl
    have opening_ := written_of_token writable hopening rfl
    rw [List.append_assoc, List.append_assoc]
    have boundary : RespectsBoundary word (opening ++ (params ++ closing)) :=
      fun _ c first => ⟨opening_.ahead_ident rfl c first, opening_.ahead_point legible c first⟩
    refine Declines.bind ?_
    rw [symbol_eq]
    refine pick_declines_of_apart rfl legible (word_.stands boundary) ?_
    intro entry hentry other hother named want
    exact unintroduced entry hentry other hother (by rw [named]; rfl) (eq_of_exactly want)
  have stop : ((ofTable r.table now).sign .comma).Declines [] := by
    rw [sign_eq]
    exact pick_declines_ahead rfl legible (ahead_nil _)
  obtain ⟨failure, failed, soft⟩ := Declines.bind (f := fun _ => (ofTable r.table now).call) stop
  have one : separated (ofTable r.table now).call ((ofTable r.table now).sign .comma) text = .ok
      ([⟨kind, .ofList (entries.map fun entry => (entry.1, entry.2.shownIn r.offset))⟩], []) :=
    (bind_of_ok read).trans ((bind_of_ok (many_of_error failed soft)).trans rfl)
  exact (bind_of_ok none.optional).trans ((bind_of_ok one).trans rfl)

end

/-- A list of actions is read back, if its values can be arguments, and else it is refused. -/
theorem actions_readsIf (r : Renderer) (now : Instant) (legible : r.table.Legible)
    (writable : r.table.Writable) (callable : r.table.Callable) (offset : now.offset = r.offset)
    {actions : List Action} (nonempty : actions ≠ [])
    (names : ∀ action ∈ actions, ∀ entry ∈ action.params.entries, IsName entry.1)
    (instants : ∀ action ∈ actions, ∀ entry ∈ action.params.entries, ∀ time,
      entry.2 = .instant time →
        time.isLeap = false ∧ hasShortYear (time.withOffset r.offset) = true) {text : List Char}
    (written : r.actions actions = .ok text) :
    ReadsIf (∀ action ∈ actions, ∀ entry ∈ action.params.entries, entry.2.IsArgument)
      (ofTable r.table now).calls text (actions.map (Action.shownIn r.offset)) [] := by
  cases actions with
  | nil => exact absurd rfl nonempty
  | cons action others =>
    rw [Renderer.actions] at written
    obtain ⟨introduction, hintroduction, written⟩ := bind_eq_ok.mp written
    obtain ⟨colon, hcolon, written⟩ := bind_eq_ok.mp written
    obtain ⟨calls, hcalls, written⟩ := bind_eq_ok.mp written
    obtain rfl := pure_eq_ok.mp written
    have introduction_ := written_of_token writable hintroduction rfl
    have colon_ := written_of_token writable hcolon rfl
    obtain ⟨first, more, hfirst, further, rfl⟩ :=
      further_of_join r.call r.calls (fun _ => rfl) (fun _ _ _ => rfl) hcalls
    have boundary : RespectsBoundary introduction (colon ++ (r.space ++ (first ++ more))) :=
      fun _ c ahead => ⟨colon_.ahead_ident rfl c ahead, colon_.ahead_point legible c ahead⟩
    have readPrefix : (ofTable r.table now).symbol .actionPrefix
        (introduction ++ (colon ++ (r.space ++ (first ++ more))))
          = .ok ((), colon ++ (r.space ++ (first ++ more))) :=
      introduction_.pick_exactly legible rfl (fun _ mem => absurd mem List.not_mem_nil) boundary
    have readColon : optional ((ofTable r.table now).sign .colon)
        (colon ++ (r.space ++ (first ++ more))) = .ok (some (), r.space ++ (first ++ more)) :=
      optional_of_ok (colon_.sign_read legible _)
    have intro_ : optional (ofTable r.table now).introduction
        (introduction ++ (colon ++ (r.space ++ (first ++ more))))
          = .ok (some (), r.space ++ (first ++ more)) :=
      optional_of_ok ((bind_of_ok readPrefix).trans ((bind_of_ok readColon).trans rfl))
    have stop : ((ofTable r.table now).sign .comma).Declines [] := by
      rw [sign_eq]
      exact pick_declines_ahead rfl legible (ahead_nil _)
    have reads := separated_readsIf now
      (fun action : Action => ∀ entry ∈ action.params.entries, entry.2.IsArgument)
      (Action.shownIn r.offset) legible writable
      (fun item mem _ _ rest written blank _ _ => call_readsIf legible writable callable offset
        (names item mem) (instants item mem) written blank rest)
      hfirst further r.blank_space (.inl rfl) (ahead_nil _) stop
    have same : introduction ++ colon ++ r.space ++ (first ++ more)
        = introduction ++ (colon ++ (r.space ++ (first ++ more))) := by
      simp only [List.append_assoc]
    rw [same]
    refine ReadsIf.after intro_ ?_
    rw [List.append_nil] at reads
    exact reads.before rfl

end Renderer

end ForumModeration
