import ForumModeration.Grammar.Calls
import ForumModeration.Proofs.Grammar.Extension

/-!
# `ForumModeration.Proofs.Grammar.Shifts`: one text read at two instants

The present stands behind relative times and the word for it, and nowhere else. So two runs
over one text, at two instants, go the same way: they read the same tokens, fail at the same
places for the same reasons, and what they read differs only in instants, all of them by the
span from one present to the other (`Value.Shifted`, `Trigger.Shifted`, `Action.Shifted`).
There is one exception. Counting back may leave the range of dates in one of the runs, which
then fails for good (`Failure.outOfRange`), whatever the other run does.

`Alike` says this of two results and `Parallel` of two readers on every text. There is one
rule for each way to put readers together, and one lemma for each production of the grammar.

* `Instant.Later.backFromNow?`: counting back keeps the span between two presents.
* `Apart.rule`, `Apart.calls`: rules and action lists.
-/

set_option autoImplicit false

namespace ForumModeration

/-! ### Trees that differ in instants only -/

/-- Nanoseconds from the start of 1970 in UTC. -/
def Instant.nanoseconds (instant : Instant) : Int :=
  instant.seconds * 1000000000 + instant.nanos

/-- The second instant is a span of nanoseconds later, shown in the same offset. -/
structure Instant.Later (span : Int) (a b : Instant) : Prop where
  difference : b.nanoseconds - a.nanoseconds = span
  offset : b.offset = a.offset

/-- Values of the same shape, with leaves that are equal or instants a span apart. -/
inductive Value.Shifted (span : Int) : Value → Value → Prop
  | same (value : Value) : Shifted span value value
  | instant {a b : Instant} (later : Instant.Later span a b) :
    Shifted span (.instant a) (.instant b)
  | list {as bs : List Value} (items : List.Forall₂ (Shifted span) as bs) :
    Shifted span (.list as) (.list bs)

/-- Triggers with the same connectives, fields and operators, and with shifted values. -/
inductive Trigger.Shifted (span : Int) : Trigger → Trigger → Prop
  | condition {a b : Value} (field : Field) (operator : Operator) (value : Value.Shifted span a b) :
    Shifted span (.condition ⟨field, operator, a⟩) (.condition ⟨field, operator, b⟩)
  | group {as bs : List Trigger} (connective : Connective)
    (children : List.Forall₂ (Shifted span) as bs) :
    Shifted span (.group connective as) (.group connective bs)

/-- A parameter of the same name with a shifted value. -/
structure ShiftedEntry (span : Int) (a b : String × Value) : Prop where
  name : b.1 = a.1
  value : Value.Shifted span a.2 b.2

/-- Actions of the same kind with the same parameters in the same order, and with shifted
values. -/
structure Action.Shifted (span : Int) (a b : Action) : Prop where
  kind : b.kind = a.kind
  params : List.Forall₂ (ShiftedEntry span) a.params.entries b.params.entries

theorem Value.Shifted.isList {span : Int} {a b : Value} (shifted : Value.Shifted span a b) :
    a.isList = b.isList := by
  cases shifted <;> rfl

theorem Trigger.Shifted.negate {span : Int} {a b : Trigger} (shifted : Trigger.Shifted span a b) :
    Trigger.Shifted span a.negate b.negate :=
  .group .not (.cons shifted .nil)

/-- Setting a parameter in shifted parameters. -/
theorem ShiftedEntry.setParam {span : Int} {a b : String × Value} (entry : ShiftedEntry span a b)
    {as bs : List (String × Value)} (entries : List.Forall₂ (ShiftedEntry span) as bs) :
    List.Forall₂ (ShiftedEntry span) (setParam a.1 a.2 as)
      (ForumModeration.setParam b.1 b.2 bs) := by
  induction entries with
  | nil => exact .cons ⟨entry.name, entry.value⟩ .nil
  | cons first rest ih =>
    rw [entry.name] at ih ⊢
    unfold ForumModeration.setParam
    rw [first.name]
    split
    · exact .cons ⟨rfl, entry.value⟩ rest
    · exact .cons first ih

theorem Params.shifted_insertAll {span : Int} {as bs : List (String × Value)}
    (entries : List.Forall₂ (ShiftedEntry span) as bs) {p q : Params}
    (params : List.Forall₂ (ShiftedEntry span) p.entries q.entries) :
    List.Forall₂ (ShiftedEntry span) (p.insertAll as).entries (q.insertAll bs).entries := by
  induction entries generalizing p q with
  | nil => exact params
  | cons first rest ih => exact ih (first.setParam params)

/-! ### Two runs over one text -/

/-- The failure of a relative time that leaves the range of dates, in front of a text. -/
def Failure.outOfRange (stop : List Char) : Failure :=
  ⟨stop, some (.requirement .timeInRange), true⟩

namespace Parser

variable {α β : Type}

/-- How two results of reading one text go together: both are readings that leave the same
text, or both are the same failure, or one of them is a time out of range. -/
inductive Alike (R : α → α → Prop) :
    Except Failure (α × List Char) → Except Failure (α × List Char) → Prop
  | read {a b : α} (rest : List Char) (related : R a b) : Alike R (.ok (a, rest)) (.ok (b, rest))
  | failed (failure : Failure) : Alike R (.error failure) (.error failure)
  | left (stop : List Char) (result : Except Failure (α × List Char)) :
    Alike R (.error (.outOfRange stop)) result
  | right (stop : List Char) (result : Except Failure (α × List Char)) :
    Alike R result (.error (.outOfRange stop))

/-- Two readers that go the same way over every text. -/
def Parallel (R : α → α → Prop) (p q : Parser α) : Prop :=
  ∀ text, Alike R (p text) (q text)

namespace Parallel

variable {R : α → α → Prop} {S : β → β → Prop} {p q p' q' : Parser α} {f h : α → Parser β}

theorem refl (reflexive : ∀ a, R a a) (p : Parser α) : Parallel R p p := by
  intro text
  cases p text with
  | ok result => exact .read result.2 (reflexive result.1)
  | error failure => exact .failed failure

theorem pure {a b : α} (related : R a b) : Parallel R (Pure.pure a) (Pure.pure b) :=
  fun text => .read text related

theorem reject (what : Requirement) : Parallel R (reject what) (Parser.reject what) :=
  fun _ => .failed _

theorem bind (first : Parallel R p q) (second : ∀ a b, R a b → Parallel S (f a) (h b)) :
    Parallel S (p >>= f) (q >>= h) := by
  intro text
  have alike := first text
  generalize hp : p text = r, hq : q text = s at alike
  cases alike with
  | read rest related =>
    rw [bind_of_ok hp, bind_of_ok hq]
    exact second _ _ related rest
  | failed failure =>
    rw [bind_of_error hp, bind_of_error hq]
    exact .failed failure
  | left stop =>
    rw [bind_of_error hp]
    exact .left stop _
  | right stop =>
    rw [bind_of_error hq]
    exact .right stop _

/-- What follows a reading that both runs share. -/
theorem after (p : Parser α) (second : ∀ a, Parallel S (f a) (h a)) :
    Parallel S (p >>= f) (p >>= h) :=
  (refl (R := Eq) (fun _ => rfl) p).bind fun a _ same => same ▸ second a

theorem map {g k : α → β} (both : Parallel R p q) (results : ∀ a b, R a b → S (g a) (k b)) :
    Parallel S (g <$> p) (k <$> q) :=
  both.bind fun a b related => .pure (results a b related)

theorem orElse (first : Parallel R p q) (second : Parallel R p' q') :
    Parallel R (p.orElse p') (q.orElse q') := by
  intro text
  have alike := first text
  unfold Parser.orElse
  generalize p text = r, q text = s at alike
  cases alike with
  | read rest related => exact .read rest related
  | failed failure =>
    show Alike R (if failure.committed then _ else _) (if failure.committed then _ else _)
    split
    · exact .failed failure
    · exact second text
  | left stop => exact .left stop _
  | right stop => exact .right stop _

theorem optional (both : Parallel R p q) : Parallel (Option.Rel R) p.optional q.optional := by
  intro text
  have alike := both text
  unfold Parser.optional
  generalize p text = r, q text = s at alike
  cases alike with
  | read rest related => exact .read rest (.some related)
  | failed failure =>
    show Alike _ (if failure.committed then _ else _) (if failure.committed then _ else _)
    split
    · exact .failed failure
    · exact .read text .none
  | left stop => exact .left stop _
  | right stop => exact .right stop _

theorem commit (both : Parallel R p q) : Parallel R (Parser.commit p) (Parser.commit q) := by
  intro text
  have alike := both text
  unfold Parser.commit
  generalize p text = r, q text = s at alike
  cases alike with
  | read rest related => exact .read rest related
  | failed failure => exact .failed _
  | left stop => exact .left stop _
  | right stop => exact .right stop _

theorem expecting (both : Parallel R p q) (what : Expectation) :
    Parallel R (p.expecting what) (q.expecting what) := by
  intro text
  have alike := both text
  unfold Parser.expecting
  generalize p text = r, q text = s at alike
  cases alike with
  | read rest related => exact .read rest related
  | failed failure => exact .failed _
  | left stop => exact .left stop _
  | right stop => exact .right stop _

theorem many (both : Parallel R p q) :
    Parallel (List.Forall₂ R) (Parser.many p) (Parser.many q) := by
  intro text
  -- By induction on the length of the text, which every reading that counts shortens.
  induction length : text.length using Nat.strong_induction_on generalizing text with
  | _ n ih =>
    subst length
    have alike := both text
    rw [Parser.many, Parser.many]
    generalize p text = r, q text = s at alike
    cases alike with
    | read rest related =>
      show Alike _ (if rest.length < text.length then _ else _)
        (if rest.length < text.length then _ else _)
      split
      · rename_i shorter
        have more := ih rest.length shorter rest rfl
        generalize Parser.many p rest = r, Parser.many q rest = s at more
        cases more with
        | read after others => exact .read after (.cons related others)
        | failed failure => exact .failed failure
        | left stop => exact .left stop _
        | right stop => exact .right stop _
      · exact .read text .nil
    | failed failure =>
      show Alike _ (if failure.committed then _ else _) (if failure.committed then _ else _)
      split
      · exact .failed failure
      · exact .read text .nil
    | left stop => exact .left stop _
    | right stop => exact .right stop _

theorem separated (item : Parallel R p q) (separator : Parser β) :
    Parallel (List.Forall₂ R) (Parser.separated p separator) (Parser.separated q separator) :=
  item.bind fun _ _ related =>
    (after separator fun _ => item).many.bind fun _ _ others => .pure (.cons related others)

theorem separatedOrNone (item : Parallel R p q) (separator : Parser β) :
    Parallel (List.Forall₂ R) (Parser.separatedOrNone p separator)
      (Parser.separatedOrNone q separator) := by
  refine item.optional.bind fun first first' found => ?_
  cases found with
  | none => exact .pure .nil
  | some related =>
    exact (after separator fun _ => item).many.bind fun _ _ others => .pure (.cons related others)

theorem checked {bad bad' : α → Prop} [DecidablePred bad] [DecidablePred bad'] {make make' : α → β}
    {what : Requirement} (both : Parallel R p q) (same : ∀ a b, R a b → (bad a ↔ bad' b))
    (made : ∀ a b, R a b → S (make a) (make' b)) :
    Parallel S (checked p bad what make) (Parser.checked q bad' what make') := by
  intro text
  have alike := both text
  unfold Parser.checked
  generalize p text = r, q text = s at alike
  cases alike with
  | @read a b rest related =>
    show Alike S (if bad a then _ else _) (if bad' b then _ else _)
    by_cases refused : bad a
    · rw [if_pos refused, if_pos ((same a b related).mp refused)]
      exact .failed _
    · rw [if_neg refused, if_neg (mt (same a b related).mpr refused)]
      exact .read rest (made a b related)
  | failed failure => exact .failed failure
  | left stop => exact .left stop _
  | right stop => exact .right stop _

end Parallel

end Parser

/-! ### Counting back from two presents -/

namespace Instant.Later

variable {span : Int} {a b a' b' : Instant}

/-- The same number of seconds before two instants. -/
theorem before? (later : Later span a b) (noLeap : a.isLeap = false) (noLeap' : b.isLeap = false)
    {seconds : Nat} (hback : a.before? seconds = some a') (hback' : b.before? seconds = some b') :
    Later span a' b' := by
  unfold Instant.before? at hback hback'
  split at hback
  · rename_i zero
    rw [if_pos zero] at hback'
    cases hback
    cases hback'
    exact later
  · rename_i positive
    rw [if_neg positive, noLeap', if_neg Bool.false_ne_true] at hback'
    rw [noLeap, if_neg Bool.false_ne_true] at hback
    unfold ofUnix? at hback hback'
    split at hback <;> cases hback
    split at hback' <;> cases hback'
    refine ⟨?_, later.offset⟩
    have difference := later.difference
    simp only [nanoseconds] at difference ⊢
    omega

end Instant.Later

namespace Grammar

open Text ForumModeration.Parser

/-- Two strict grammars that differ in the present only, which is no leap second and a span
later in the second one. -/
structure Apart (span : Int) (g g' : Grammar) : Prop where
  lexicon : g'.lexicon = g.lexicon
  strict : g.lenient = false
  strict' : g'.lenient = false
  noLeap : g.now.isLeap = false
  noLeap' : g'.now.isLeap = false
  later : Instant.Later span g.now g'.now

namespace Apart

variable {span : Int} {g g' : Grammar}

/-! ### Literals -/

/-- Tokens do not depend on the present. -/
theorem pick_eq {α : Type} (apart : Apart span g g') (wanted : Symbol → Option α) :
    g'.pick wanted = g.pick wanted := by
  unfold pick
  rw [apart.lexicon]

theorem sign_eq (apart : Apart span g g') (wanted : Punctuation) :
    g'.sign wanted = g.sign wanted := by
  unfold sign symbol
  rw [apart.pick_eq]

/-- Dates do not depend on the present. -/
theorem date_eq (apart : Apart span g g') : g'.date = g.date := by
  unfold date
  rw [apart.later.offset]

theorem quotedLiteral_eq (apart : Apart span g g') (wantsDate : Bool) :
    g'.quotedLiteral wantsDate = g.quotedLiteral wantsDate := by
  unfold quotedLiteral stringValue
  rw [apart.date_eq]

/-- Counting back from both presents keeps the span between them. -/
theorem backFromNow? (apart : Apart span g g') {unit : TimeUnit} {amount : Nat} {a b : Instant}
    (counted : g.backFromNow? unit amount = some a)
    (counted' : g'.backFromNow? unit amount = some b) : Instant.Later span a b := by
  unfold Grammar.backFromNow? at counted counted'
  obtain ⟨seconds, hseconds, counted⟩ := Option.bind_eq_some_iff.mp counted
  obtain ⟨seconds', hseconds', counted'⟩ := Option.bind_eq_some_iff.mp counted'
  obtain rfl := Option.some.inj (hseconds.symm.trans hseconds')
  obtain ⟨back, hback, counted⟩ := Option.bind_eq_some_iff.mp counted
  obtain ⟨back', hback', counted'⟩ := Option.bind_eq_some_iff.mp counted'
  have later := apart.later.before? apart.noLeap apart.noLeap' hback hback'
  split at counted <;> cases counted
  split at counted' <;> cases counted'
  exact later

/-- A relative time is the only reading that may fail in one run alone. -/
theorem relative (apart : Apart span g g') :
    Parallel (Instant.Later span) g.relative g'.relative := by
  unfold Grammar.relative timeUnit symbol
  rw [apart.pick_eq, apart.pick_eq]
  refine .after _ fun run => ?_
  split
  · exact fun _ => .failed _
  · refine .after _ fun unit => .after _ fun _ => ?_
    cases counted : g.backFromNow? unit (numberOf run) with
    | none => exact fun text => .left text _
    | some a =>
      cases counted' : g'.backFromNow? unit (numberOf run) with
      | none => exact fun text => .right text _
      | some b => exact .pure (apart.backFromNow? counted counted')

theorem bareLiteral (apart : Apart span g g') :
    Parallel (Value.Shifted span) g.bareLiteral g'.bareLiteral := by
  have date : Parallel (Value.Shifted span) (Value.instant <$> g.date) (Value.instant <$> g.date) :=
    .refl .same _
  have truth : Parallel (Value.Shifted span) (Value.bool <$> g.truth) (Value.bool <$> g.truth) :=
    .refl .same _
  unfold Grammar.bareLiteral Grammar.truth symbol
  rw [apart.date_eq, apart.pick_eq, apart.pick_eq]
  exact date.orElse <| (apart.relative.map fun _ _ => .instant).orElse <|
    (Parallel.refl .same number).orElse <| truth.orElse <|
      .after _ fun _ => .pure (.instant apart.later)

theorem scalar (apart : Apart span g g') :
    Parallel (Value.Shifted span) g.scalar g'.scalar := by
  unfold Grammar.scalar
  rw [apart.quotedLiteral_eq]
  exact .after _ fun _ => (Parallel.refl .same _).orElse apart.bareLiteral

theorem literalWith (apart : Apart span g g') (wantsDate : Bool) {p q : Parser (List Value)}
    (items : Parallel (List.Forall₂ (Value.Shifted span)) p q) :
    Parallel (Value.Shifted span) (g.literalWith wantsDate p) (g'.literalWith wantsDate q) := by
  have list : Parallel (Value.Shifted span) (g.listOf p) (g'.listOf q) := by
    unfold listOf
    rw [apart.sign_eq, apart.sign_eq]
    exact .after _ fun _ => items.bind fun _ _ shifted => .after _ fun _ => .pure (.list shifted)
  unfold Grammar.literalWith
  rw [apart.quotedLiteral_eq]
  exact .after _ fun _ => (Parallel.refl .same _).orElse (list.orElse apart.bareLiteral)

theorem literal (apart : Apart span g g') (wantsDate : Bool) (depth : Nat) :
    Parallel (Value.Shifted span) (g.literal wantsDate depth) (g'.literal wantsDate depth) := by
  induction depth with
  | zero => exact apart.literalWith wantsDate (.reject _)
  | succ depth ih =>
    unfold Grammar.literal
    rw [apart.sign_eq]
    exact apart.literalWith wantsDate (ih.separatedOrNone _)

/-! ### Rules -/

theorem condition (apart : Apart span g g') (depth : Nat) :
    Parallel (Trigger.Shifted span) (g.condition depth) (g'.condition depth) := by
  rw [condition_eq, condition_eq]
  unfold field operator
  rw [apart.pick_eq, apart.pick_eq]
  refine .after _ fun f => .after _ fun o => .after _ fun _ => ?_
  refine ((apart.literal f.isTime depth).commit.expecting _).checked ?_ ?_
  · intro a b shifted
    rw [shifted.isList]
  · intro a b shifted
    exact .condition f o shifted

/-- Chains of shifted triggers that were built by the same connectives. -/
structure ShiftedChain (span : Int) (a b : Chain) : Prop where
  trigger : Trigger.Shifted span a.trigger b.trigger
  last : b.last = a.last

/-- An operand with its connective, shifted. -/
structure ShiftedOperand (span : Int) (a b : Connective × Trigger) : Prop where
  connective : b.1 = a.1
  trigger : Trigger.Shifted span a.2 b.2

/-- Operands are added at the same place of both chains. -/
theorem ShiftedChain.add {a b : Chain} (chains : ShiftedChain span a b)
    {x y : Connective × Trigger} (operands : ShiftedOperand span x y) :
    ShiftedChain span (a.add x) (b.add y) := by
  obtain ⟨trigger, last⟩ := a
  obtain ⟨trigger', last'⟩ := b
  obtain ⟨connective, operand⟩ := x
  obtain ⟨connective', operand'⟩ := y
  obtain ⟨rfl, shifted⟩ := operands
  obtain ⟨chained, rfl⟩ := chains
  have pair : List.Forall₂ (Trigger.Shifted span) [trigger, operand] [trigger', operand'] :=
    .cons chained (.cons shifted .nil)
  cases chained with
  | condition => exact ⟨.group _ pair, rfl⟩
  | group c children =>
    unfold Chain.add
    by_cases same : last' = some connective'
    · simp only [same, if_true]
      exact ⟨.group c (List.rel_append children (.cons shifted .nil)), rfl⟩
    · simp only [same, if_false]
      exact ⟨.group _ pair, rfl⟩

theorem shifted_chain {first first' : Trigger} (shifted : Trigger.Shifted span first first')
    {others others' : List (Connective × Trigger)}
    (operands : List.Forall₂ (ShiftedOperand span) others others') :
    Trigger.Shifted span (chain first others) (chain first' others') := by
  have run : ∀ a b, ShiftedChain span a b →
      ShiftedChain span (others.foldl Chain.add a) (others'.foldl Chain.add b) := by
    induction operands with
    | nil => exact fun _ _ chains => chains
    | cons operand _ ih => exact fun _ _ chains => ih _ _ (chains.add operand)
  exact (run ⟨first, none⟩ ⟨first', none⟩ ⟨shifted, rfl⟩).trigger

section

variable {p q : Parser Trigger}

theorem tier (apart : Apart span g g') (accepts : Connective → Bool)
    (operand : Parallel (Trigger.Shifted span) p q) :
    Parallel (Trigger.Shifted span) (g.tier accepts p) (g'.tier accepts q) := by
  have further : Parallel (ShiftedOperand span) (g.continuation accepts p)
      (g'.continuation accepts q) := by
    unfold continuation connective rightOperand
    rw [apart.pick_eq, apart.strict, apart.strict', if_neg Bool.false_ne_true,
      if_neg Bool.false_ne_true]
    exact .after _ fun _ => operand.commit.bind fun _ _ shifted => .pure ⟨rfl, shifted⟩
  exact operand.bind fun _ _ shifted =>
    further.many.bind fun _ _ others => .pure (shifted_chain shifted others)

theorem tiers (apart : Apart span g g') (operand : Parallel (Trigger.Shifted span) p q) :
    Parallel (Trigger.Shifted span) (g.tiers p) (g'.tiers q) :=
  apart.tier _ (apart.tier _ operand)

theorem operandWith (apart : Apart span g g') (depth : Nat) {negated negated' : Parser Trigger}
    (hnegated : Parallel (Trigger.Shifted span) negated negated')
    (hinner : Parallel (Trigger.Shifted span) p q) :
    Parallel (Trigger.Shifted span) (g.operandWith depth negated p)
      (g'.operandWith depth negated' q) := by
  have group : Parallel (Trigger.Shifted span) (g.parenthesized p) (g'.parenthesized q) := by
    unfold parenthesized
    rw [apart.sign_eq, apart.sign_eq]
    exact .after _ fun _ => hinner.bind fun _ _ shifted => .after _ fun _ => .pure shifted
  unfold Grammar.operandWith connective
  rw [apart.pick_eq]
  refine .after _ fun found => ?_
  cases found with
  | none => exact group.orElse (apart.condition depth)
  | some _ => exact hnegated.map fun _ _ shifted => shifted.negate

end

theorem operand (apart : Apart span g g') (depth : Nat) :
    Parallel (Trigger.Shifted span) (g.operand depth) (g'.operand depth) := by
  induction depth with
  | zero => exact apart.operandWith 0 (.reject _) (.reject _)
  | succ depth ih => exact apart.operandWith (depth + 1) ih.commit (apart.tiers ih).commit

theorem rule (apart : Apart span g g') :
    Parallel (Trigger.Shifted span) g.rule g'.rule :=
  (apart.tiers (apart.operand maxDepth)).bind fun _ _ shifted => .after _ fun _ => .pure shifted

/-! ### Action lists -/

theorem parameter (apart : Apart span g g') :
    Parallel (ShiftedEntry span) g.parameter g'.parameter := by
  unfold Grammar.parameter
  rw [apart.sign_eq]
  exact .after _ fun _ => .after _ fun _ => .after _ fun _ =>
    (apart.scalar.commit.expecting _).bind fun _ _ shifted => .pure ⟨rfl, shifted⟩

theorem call (apart : Apart span g g') :
    Parallel (Action.Shifted span) g.call g'.call := by
  unfold Grammar.call actionKind
  rw [apart.pick_eq, apart.sign_eq, apart.sign_eq, apart.sign_eq]
  exact .after _ fun _ => .after _ fun _ => (apart.parameter.separatedOrNone _).bind
    fun _ _ entries => .after _ fun _ => .pure ⟨rfl, Params.shifted_insertAll entries .nil⟩

theorem calls (apart : Apart span g g') :
    Parallel (List.Forall₂ (Action.Shifted span)) g.calls g'.calls := by
  have introduction : g'.introduction = g.introduction := by
    unfold introduction symbol
    rw [apart.pick_eq, apart.sign_eq]
  unfold Grammar.calls
  rw [introduction, apart.sign_eq]
  exact .after _ fun _ => (apart.call.separated _).bind fun _ _ actions =>
    .after _ fun _ => .pure actions

end Apart

end Grammar

end ForumModeration
