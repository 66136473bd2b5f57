import ForumModeration.Proofs.Grammar.Failures

/-!
# `ForumModeration.Proofs.Grammar.Counter`: one counter for all that nests

The readers of the grammar are handed how many levels of nesting are left. A reader may as
well keep one counter of the levels that are open, for parentheses, negations and lists
together: it goes up where a level is opened, unless `maxDepth` levels are open already, and
back to where it was once the reader of what the level holds is done, whether it has read or
failed. The readers here do that and note the most levels that have been open. How deep they
call themselves is bounded by `calls`, as the counter alone is no ground to recurse on.

Both ways to count come to the same: a counting reader at `opened` levels does what the
reader of the grammar does with `maxDepth - opened` of them left (`Agrees`). There is a rule
for each way to put readers together, so a counter that some reader failed to set back would
break the rules of all the readers around it.

* `nested_restores`: the counter is back where it was, whatever is read one level deeper.
* `counts_literal`, `counts_operand`: the counting readers agree with those of the grammar.
* `rule_agrees`: so does that of rules, if it may call itself often enough.
-/

set_option autoImplicit false

namespace ForumModeration

open ForumModeration.Parser
open Grammar (maxDepth deeper blanks)

/-! ### Readers that count -/

/-- How many levels are open, and the most that have been. -/
structure Levels where
  opened : Nat := 0
  highest : Nat := 0

namespace Levels

/-- What is open has been noted, and there never were more levels than there may be. -/
structure Sound (levels : Levels) : Prop where
  noted : levels.opened ≤ levels.highest
  bounded : levels.highest ≤ maxDepth

/-- One more level is open. -/
def down (levels : Levels) : Levels :=
  ⟨levels.opened + 1, max levels.highest (levels.opened + 1)⟩

theorem Sound.down {levels : Levels} (sound : levels.Sound) (room : levels.opened < maxDepth) :
    levels.down.Sound where
  noted := Nat.le_max_right _ _
  bounded := Nat.max_le.mpr ⟨sound.bounded, room⟩

end Levels

/-- A reader that counts the levels that are open. -/
def Counting (α : Type) : Type :=
  List Char → Levels → Except Failure (α × List Char) × Levels

namespace Counting

variable {α β γ : Type}

/-- A reader that opens no levels. -/
def lift (p : Parser α) : Counting α := fun text levels =>
  (p text, levels)

instance : Monad Counting where
  pure a := lift (pure a)
  bind q f := fun text levels =>
    match q text levels with
    | (.ok (a, rest), after) => f a rest after
    | (.error failure, after) => (.error failure, after)

/-- The second reading if the first fails and is not committed. -/
def orElse (q r : Counting α) : Counting α := fun text levels =>
  match q text levels with
  | (.ok result, after) => (.ok result, after)
  | (.error failure, after) =>
    if failure.committed then (.error failure, after) else r text after

/-- Reads nothing where the reader fails and is not committed. -/
def optional (q : Counting α) : Counting (Option α) := fun text levels =>
  match q text levels with
  | (.ok (a, rest), after) => (.ok (some a, rest), after)
  | (.error failure, after) =>
    if failure.committed then (.error failure, after) else (.ok (none, text), after)

/-- Changes failures, such as by making them final. -/
def mapFailure (change : Failure → Failure) (q : Counting α) : Counting α := fun text levels =>
  match q text levels with
  | (.ok result, after) => (.ok result, after)
  | (.error failure, after) => (.error (change failure), after)

def commit (q : Counting α) : Counting α :=
  q.mapFailure fun failure => { failure with committed := true }

def uncommit (q : Counting α) : Counting α :=
  q.mapFailure fun failure => { failure with committed := false }

def word (kind : WordKind) (q : Counting α) : Counting α :=
  q.mapFailure fun failure => { failure with expected := failure.expected <|> some (.word kind) }

/-- Refuses some of what is read, at the place where it starts. -/
def checked (q : Counting α) (bad : α → Prop) [DecidablePred bad] (what : Requirement)
    (make : α → γ) : Counting γ := fun text levels =>
  match q text levels with
  | (.ok (a, rest), after) =>
    (if bad a then Parser.reject what text else .ok (make a, rest), after)
  | (.error failure, after) => (.error failure, after)

/-- Reads as often as the reader succeeds and shortens the text. -/
def many (q : Counting α) (text : List Char) (levels : Levels) :
    Except Failure (List α × List Char) × Levels :=
  match q text levels with
  | (.ok (a, rest), after) =>
    if rest.length < text.length then
      match many q rest after with
      | (.ok (others, last), done) => (.ok (a :: others, last), done)
      | (.error failure, done) => (.error failure, done)
    else (.ok ([], text), after)
  | (.error failure, after) =>
    if failure.committed then (.error failure, after) else (.ok ([], text), after)
termination_by text.length

/-- Any number of readings with separators between them. -/
def separatedOrNone (q : Counting α) (separator : Counting β) : Counting (List α) := do
  match ← q.optional with
  | none => return []
  | some first =>
    let others ← many (do let _ ← separator; q)
    return first :: others

/-- Reads one level deeper, unless there are as many levels as there may be. -/
def nested (q : Counting α) : Counting α := fun text levels =>
  if maxDepth ≤ levels.opened then (Parser.reject .shallowerNesting text, levels)
  else
    let (result, after) := q text levels.down
    (result, { after with opened := levels.opened })

/-! ### The productions of the grammar -/

/-- A list in brackets, with the reader of its items. -/
def listOf (g : Grammar) (items : Counting (List Value)) : Counting Value := do
  lift (g.sign .leftBracket)
  let values ← items
  lift (required .closingBracket (g.sign .rightBracket))
  return .list values

/-- Any literal. -/
def literal (g : Grammar) (wantsDate : Bool) : Nat → Counting Value
  | 0 => lift fail
  | calls + 1 => do
    lift blanks
    orElse (lift (g.quotedLiteral wantsDate)) <|
      orElse (listOf g (nested (separatedOrNone (literal g wantsDate calls)
        (lift (g.sign .comma))))) (lift g.bareLiteral)

/-- A field, an operator and a value. -/
def condition (g : Grammar) (calls : Nat) : Counting Trigger := do
  let field ← lift (g.field.word .field)
  let operator ← lift ((Parser.commit g.operator).word .operator)
  lift blanks
  checked ((literal g field.isTime calls).commit.word .literal)
    (fun value => operator = .among ∧ ¬value.isList) .listAfterIn
    fun value => .condition ⟨field, operator, value⟩

/-- A trigger in parentheses, with the reader of what they hold. -/
def parenthesized (g : Grammar) (inner : Counting Trigger) : Counting Trigger := do
  lift (g.sign .leftParen)
  let trigger ← inner
  lift (required .closingParen (g.sign .rightParen))
  return trigger

/-- The operand after a connective. -/
def rightOperand (g : Grammar) (operand : Counting Trigger) : Counting Trigger :=
  if g.lenient then operand.uncommit else operand.commit

/-- Operands with connectives of one tier between them. -/
def tier (g : Grammar) (accepts : Connective → Bool) (operand : Counting Trigger) :
    Counting Trigger := do
  let first ← operand
  let others ← many do
    let connective ← lift (g.connective accepts)
    let trigger ← rightOperand g operand
    return (connective, trigger)
  return Grammar.chain first others

/-- Operands under both tiers. -/
def tiers (g : Grammar) (operand : Counting Trigger) : Counting Trigger :=
  tier g Connective.inOrTier (tier g Connective.inAndTier operand)

/-- A negation, a trigger in parentheses or a condition. -/
def operand (g : Grammar) : Nat → Counting Trigger
  | 0 => lift fail
  | calls + 1 => do
    match ← lift (g.connective Connective.isUnary).optional with
    | some _ => Trigger.negate <$> nested (operand g calls).commit
    | none =>
      orElse (parenthesized g (nested (tiers g (operand g calls)).commit))
        (condition g (calls + 1))

/-- A rule and the blanks after it. -/
def rule (g : Grammar) (calls : Nat) : Counting Trigger := do
  let trigger ← tiers g (operand g calls)
  lift blanks
  return trigger

/-- However the reading ends, the counter is back where it was before the level was opened. -/
theorem nested_restores (q : Counting α) (text : List Char) (levels : Levels) :
    (nested q text levels).2.opened = levels.opened := by
  unfold nested
  split <;> rfl

/-! ### Readers that agree -/

/-- A failure over a level too many. -/
def Refused (result : Except Failure β) : Prop :=
  ∃ failure, result = .error failure ∧
    failure.expected = some (.requirement .shallowerNesting)

/-- A run of a counting reader beside the result of a reader that is handed the levels that
are left. The counter ends where it started and never was too high, and it was as high as it
may be if there is a refusal. -/
structure Agrees (levels : Levels) (run : Except Failure β × Levels) (result : Except Failure β) :
    Prop where
  same : run.1 = result
  back : run.2.opened = levels.opened
  grown : levels.highest ≤ run.2.highest
  bounded : run.2.highest ≤ maxDepth
  tight : Refused result → run.2.highest = maxDepth

namespace Agrees

variable {levels : Levels} {run : Except Failure β × Levels} {result : Except Failure β}
  {run' : Except Failure γ × Levels} {result' : Except Failure γ}

theorem sound (h : Agrees levels run result) (start : levels.Sound) : run.2.Sound where
  noted := by
    rw [h.back]
    exact Nat.le_trans start.noted h.grown
  bounded := h.bounded

/-- One run after another. -/
theorem trans (first : Agrees levels run result) (second : Agrees run.2 run' result') :
    Agrees levels run' result' where
  same := second.same
  back := second.back.trans first.back
  grown := Nat.le_trans first.grown second.grown
  bounded := second.bounded
  tight := second.tight

/-- What is made of a run is no refusal. -/
theorem unrefused (h : Agrees levels run result) (read : ¬Refused result') :
    Agrees levels (result', run.2) result' where
  same := rfl
  back := h.back
  grown := h.grown
  bounded := h.bounded
  tight := fun refused => absurd refused read

/-- What is made of a failure is a refusal only if that was one. -/
theorem error {failure changed : Failure} (h : Agrees levels run result)
    (failed : result = .error failure)
    (named : changed.expected = some (.requirement .shallowerNesting) →
      failure.expected = some (.requirement .shallowerNesting)) :
    Agrees (β := γ) levels (.error changed, run.2) (.error changed) where
  same := rfl
  back := h.back
  grown := h.grown
  bounded := h.bounded
  tight := by
    rintro ⟨_, same, deep⟩
    cases same
    exact h.tight ⟨failure, failed, named deep⟩

/-- Either both read the same or both fail the same. -/
theorem cases (h : Agrees levels run result) :
    (∃ b after, run = (.ok b, after) ∧ result = .ok b ∧
      Agrees levels (.ok b, after) (.ok b)) ∨
    ∃ failure after, run = (.error failure, after) ∧ result = .error failure ∧
      Agrees (β := β) levels (.error failure, after) (.error failure) := by
  obtain ⟨own, after⟩ := run
  cases h.same
  cases own with
  | ok b => exact .inl ⟨b, after, rfl, rfl, h⟩
  | error failure => exact .inr ⟨failure, after, rfl, rfl, h⟩

end Agrees

theorem not_refused_ok (b : β) : ¬Refused (.ok b) := by
  rintro ⟨failure, failed, _⟩
  cases failed

/-- A counting reader does what a family of readers indexed by the levels that are left does,
where at least so many levels are open. -/
def Counts (least : Nat) (q : Counting α) (p : Nat → Parser α) : Prop :=
  ∀ text ⦃levels⦄, levels.Sound → least ≤ levels.opened →
    Agrees levels (q text levels) (p (maxDepth - levels.opened) text)

/-- A reader that does not fail over nesting. -/
def Flat (p : Parser α) : Prop :=
  ∀ text, ¬Refused (p text)

theorem Flat.of_demanding {p : Parser α} (h : Demanding (· ≠ .shallowerNesting) p) : Flat p := by
  rintro text ⟨failure, failed, named⟩
  rcases h failed with ⟨_, silent⟩ | ⟨what, other, missed⟩
  · rw [named] at silent
    cases silent
  · rw [named] at missed
    cases missed
    exact other rfl

/-- Words are missed by name. -/
theorem Flat.word {p : Parser α} {kind : WordKind} (h : Flat p) : Flat (p.word kind) := by
  rintro text ⟨failure, failed, named⟩
  obtain ⟨inner, failed', rfl⟩ := expecting_eq_error failed
  cases needed : inner.expected with
  | some what => exact h text ⟨inner, failed', by simpa [needed] using named⟩
  | none => simp [needed] at named

theorem Flat.commit {p : Parser α} (h : Flat p) : Flat (Parser.commit p) := by
  rintro text ⟨failure, failed, named⟩
  obtain ⟨inner, failed', rfl⟩ := commit_eq_error failed
  exact h text ⟨inner, failed', named⟩

namespace Counts

variable {least : Nat} {q r : Counting α} {p p' : Nat → Parser α} {text : List Char}
  {levels : Levels}

/-- Where fewer levels may be open, more of them may be left to open. -/
theorem mono {more : Nat} (h : Counts least q p) (le : least ≤ more) : Counts more q p :=
  fun text _ start enough => h text start (Nat.le_trans le enough)

/-- More levels cannot be open than there may be. -/
theorem beyond (q : Counting α) (p : Nat → Parser α) : Counts (maxDepth + 1) q p :=
  fun _ _ start enough =>
    absurd (Nat.le_trans enough (Nat.le_trans start.noted start.bounded)) (Nat.lt_irrefl _)

theorem lift {p : Parser α} (flat : Flat p) : Counts least (lift p) fun _ => p :=
  fun text _ start _ =>
    ⟨rfl, rfl, Nat.le_refl _, start.bounded, fun deep => absurd deep (flat text)⟩

theorem pure (a : α) : Counts least (Pure.pure a : Counting α) fun _ => Pure.pure a :=
  .lift fun _ => not_refused_ok _

/-- A reader agrees behind another run as well. -/
theorem after (h : Counts least q p) {run : Except Failure β × Levels} {result : Except Failure β}
    (first : Agrees levels run result) (start : levels.Sound) (enough : least ≤ levels.opened) :
    Agrees levels (q text run.2) (p (maxDepth - levels.opened) text) := by
  have second := h text (first.sound start) (by rw [first.back]; exact enough)
  rw [first.back] at second
  exact first.trans second

theorem bind {f : α → Counting β} {f' : Nat → α → Parser β} (first : Counts least q p)
    (second : ∀ a, Counts least (f a) fun d => f' d a) :
    Counts least (q >>= f) fun d => p d >>= f' d := by
  intro text levels start enough
  change Agrees levels (match q text levels with
    | (.ok (a, rest), after) => f a rest after
    | (.error failure, after) => (.error failure, after)) ((p _ >>= f' _) text)
  rcases (first text start enough).cases with
    ⟨⟨a, rest⟩, after, ran, read, agrees⟩ | ⟨failure, after, ran, failed, agrees⟩
  · rw [ran, bind_of_ok read]
    exact (second a).after agrees start enough
  · rw [ran, bind_of_error failed]
    exact agrees.error rfl id

theorem map (h : Counts least q p) (make : α → β) :
    Counts least (make <$> q) fun d => make <$> p d :=
  h.bind fun _ => .pure _

theorem orElse (first : Counts least q p) (second : Counts least r p') :
    Counts least (q.orElse r) fun d => (p d).orElse (p' d) := by
  intro text levels start enough
  rcases (first text start enough).cases with
    ⟨⟨a, rest⟩, after, ran, read, agrees⟩ | ⟨failure, after, ran, failed, agrees⟩
  · simp only [Counting.orElse, Parser.orElse, ran, read]
    exact agrees
  · simp only [Counting.orElse, Parser.orElse, ran, failed]
    split
    · exact agrees
    · exact second.after agrees start enough

theorem optional (h : Counts least q p) : Counts least q.optional fun d => (p d).optional := by
  intro text levels start enough
  rcases (h text start enough).cases with
    ⟨⟨a, rest⟩, after, ran, read, agrees⟩ | ⟨failure, after, ran, failed, agrees⟩
  · simp only [Counting.optional, Parser.optional, ran, read]
    exact agrees.unrefused (not_refused_ok _)
  · simp only [Counting.optional, Parser.optional, ran, failed]
    split
    · exact agrees.error rfl id
    · exact agrees.unrefused (not_refused_ok _)

/-- Changes of failures that do not bring up nesting. -/
theorem mapFailure {change : Failure → Failure} (h : Counts least q p)
    (named : ∀ failure, (change failure).expected = some (.requirement .shallowerNesting) →
      failure.expected = some (.requirement .shallowerNesting))
    (reads : ∀ d text a rest, p d text = .ok (a, rest) → p' d text = .ok (a, rest))
    (fails : ∀ d text failure, p d text = .error failure → p' d text = .error (change failure)) :
    Counts least (q.mapFailure change) p' := by
  intro text levels start enough
  rcases (h text start enough).cases with
    ⟨⟨a, rest⟩, after, ran, read, agrees⟩ | ⟨failure, after, ran, failed, agrees⟩
  · simp only [Counting.mapFailure, ran, reads _ _ _ _ read]
    exact agrees
  · simp only [Counting.mapFailure, ran, fails _ _ _ failed]
    exact agrees.error rfl (named failure)

theorem commit (h : Counts least q p) : Counts least q.commit fun d => Parser.commit (p d) :=
  h.mapFailure (fun _ deep => deep) (fun _ _ _ _ read => commit_eq_ok.mpr read)
    fun _ _ _ failed => commit_of_error failed

theorem uncommit (h : Counts least q p) : Counts least q.uncommit fun d => Parser.uncommit (p d) :=
  h.mapFailure (fun _ deep => deep) (fun _ _ _ _ read => by simp only [Parser.uncommit, read])
    fun _ _ _ failed => by simp only [Parser.uncommit, failed]

theorem word {kind : WordKind} (h : Counts least q p) :
    Counts least (q.word kind) fun d => (p d).word kind := by
  refine h.mapFailure ?_ (fun _ _ _ _ read => expecting_eq_ok.mpr read)
    fun _ _ _ failed => expecting_of_error failed
  intro failure deep
  cases needed : failure.expected with
  | some what => simpa [needed] using deep
  | none => simp [needed] at deep

theorem checked {bad : α → Prop} [DecidablePred bad] {what : Requirement} {make : α → γ}
    (h : Counts least q p) (other : what ≠ .shallowerNesting) :
    Counts least (q.checked bad what make) fun d => Parser.checked (p d) bad what make := by
  intro text levels start enough
  rcases (h text start enough).cases with
    ⟨⟨a, rest⟩, after, ran, read, agrees⟩ | ⟨failure, after, ran, failed, agrees⟩
  · simp only [Counting.checked, Parser.checked, ran, read]
    refine agrees.unrefused ?_
    rintro ⟨failure, failed, named⟩
    change (if bad a then Parser.reject what text else .ok (make a, rest)) = _ at failed
    split at failed <;> cases failed
    cases named
    exact absurd rfl other
  · simp only [Counting.checked, Parser.checked, ran, failed]
    exact agrees.error rfl id

/-- By induction on the text that is left: a reading comes before the others. -/
theorem many (h : Counts least q p) :
    Counts least (Counting.many q) fun d => Parser.many (p d) := by
  intro text levels start enough
  induction hlen : text.length using Nat.strong_induction_on generalizing text levels with
  | _ n ih =>
    subst hlen
    rw [Counting.many]
    change Agrees levels _ (Parser.many (p (maxDepth - levels.opened)) text)
    rw [Parser.many]
    rcases (h text start enough).cases with
      ⟨⟨a, rest⟩, after, ran, read, agrees⟩ | ⟨failure, after, ran, failed, agrees⟩
    · rw [ran, read]
      dsimp only
      split
      · rename_i shorter
        have others : Agrees after (Counting.many q rest after)
            (Parser.many (p (maxDepth - after.opened)) rest) :=
          ih rest.length shorter rest (agrees.sound start) (enough.trans_eq agrees.back.symm) rfl
        rw [show after.opened = levels.opened from agrees.back] at others
        rcases (agrees.trans others).cases with
          ⟨⟨others, last⟩, done, ran, read, agrees⟩ | ⟨failure, done, ran, failed, agrees⟩
        · rw [ran, read]
          exact agrees.unrefused (not_refused_ok _)
        · rw [ran, failed]
          exact agrees.error rfl id
      · exact agrees.unrefused (not_refused_ok _)
    · rw [ran, failed]
      dsimp only
      split
      · exact agrees.error rfl id
      · exact agrees.unrefused (not_refused_ok _)

theorem separatedOrNone {separator : Counting γ} {separator' : Nat → Parser γ}
    (h : Counts least q p) (between : Counts least separator separator') :
    Counts least (q.separatedOrNone separator) fun d =>
      (p d).separatedOrNone (separator' d) := by
  refine h.optional.bind ?_
  rintro (_ | first)
  · exact .pure _
  · exact (between.bind fun _ => h).many.bind fun _ => .pure _

/-- A level is opened where one is left. -/
theorem nested (h : Counts (least + 1) q p) : Counts least (Counting.nested q) (deeper p) := by
  intro text levels start enough
  unfold Counting.nested
  split
  · rename_i full
    -- Nothing is left, and so many levels have been open.
    have highest := Nat.le_trans full start.noted
    rw [Nat.sub_eq_zero_of_le full]
    exact ⟨rfl, rfl, Nat.le_refl _, start.bounded, fun _ => Nat.le_antisymm start.bounded highest⟩
  · rename_i room
    have left : maxDepth - levels.opened = maxDepth - levels.down.opened + 1 := by
      change _ = maxDepth - (levels.opened + 1) + 1
      omega
    have inner := h text (start.down (by omega)) (Nat.succ_le_succ enough)
    rw [left]
    exact ⟨inner.same, rfl, Nat.le_trans (Nat.le_max_left _ _) inner.grown, inner.bounded,
      inner.tight⟩

end Counts

/-! ### The readers of the grammar -/

variable {g : Grammar} {least : Nat}

private theorem flat_pick (wanted : Symbol → Option α) : Flat (g.pick wanted) :=
  .of_demanding (Grammar.pick_demanding wanted)

private theorem flat_sign (sign : Punctuation) : Flat (g.sign sign) :=
  .of_demanding (Grammar.sign_demanding g sign)

private theorem flat_blanks : Flat blanks :=
  .of_demanding Grammar.blanks_demanding

theorem counts_listOf {items : Counting (List Value)} {items' : Nat → Parser (List Value)}
    (h : Counts least items items') : Counts least (listOf g items) fun d => g.listOf (items' d) :=
  .bind (.lift (flat_sign _)) fun _ => h.bind fun _ =>
    .bind (.lift (.of_demanding (Grammar.sign_required nofun _))) fun _ => .pure _

/-- Any literal, by induction on the calls: what a list holds is read by one call less. -/
theorem counts_literal (g : Grammar) (wantsDate : Bool) (calls : Nat) :
    Counts (maxDepth + 1 - calls) (literal g wantsDate calls) (g.literal wantsDate) := by
  induction calls with
  | zero => exact .beyond _ _
  | succ calls ih =>
    have items : Counts (maxDepth + 1 - (calls + 1) + 1)
        (separatedOrNone (literal g wantsDate calls) (lift (g.sign .comma)))
        (Grammar.itemsOf g wantsDate) :=
      (ih.mono (by omega)).separatedOrNone (.lift (flat_sign _))
    have other : ∀ what : Requirement, what ≠ .shallowerNesting → what ≠ .shallowerNesting :=
      fun _ => id
    rw [funext (Grammar.literal_eq g wantsDate)]
    exact .bind (.lift flat_blanks) fun _ =>
      .orElse (.lift (.of_demanding (Grammar.quotedLiteral_demanding other g wantsDate)))
        ((counts_listOf items.nested).orElse
          (.lift (.of_demanding (Grammar.bareLiteral_demanding other g))))

theorem counts_condition (g : Grammar) (calls : Nat) :
    Counts (maxDepth + 1 - calls) (condition g calls) g.condition := by
  rw [funext (Grammar.condition_eq g)]
  exact .bind (.lift (flat_pick _).word) fun field =>
    .bind (.lift (flat_pick _).commit.word) fun operator =>
    .bind (.lift flat_blanks) fun _ =>
    (counts_literal g field.isTime calls).commit.word.checked nofun

theorem counts_parenthesized {inner : Counting Trigger} {inner' : Nat → Parser Trigger}
    (h : Counts least inner inner') :
    Counts least (parenthesized g inner) fun d => g.parenthesized (inner' d) :=
  .bind (.lift (flat_sign _)) fun _ => h.bind fun _ =>
    .bind (.lift (.of_demanding (Grammar.sign_required nofun _))) fun _ => .pure _

section

variable {p : Counting Trigger} {p' : Nat → Parser Trigger} (h : Counts least p p')
include h

theorem counts_rightOperand :
    Counts least (rightOperand g p) fun d => g.rightOperand (p' d) := by
  unfold rightOperand Grammar.rightOperand
  split
  · exact h.uncommit
  · exact h.commit

theorem counts_tier (accepts : Connective → Bool) :
    Counts least (tier g accepts p) fun d => g.tier accepts (p' d) :=
  h.bind fun _ => .bind
    (.many (.bind (.lift (flat_pick _)) fun _ => (counts_rightOperand h).bind fun _ => .pure _))
    fun _ => .pure _

theorem counts_tiers : Counts least (tiers g p) fun d => g.tiers (p' d) :=
  counts_tier (counts_tier h _) _

end

/-- Operands, by induction on the calls: what a negation negates and what parentheses hold
are read by one call less. -/
theorem counts_operand (g : Grammar) (calls : Nat) :
    Counts (maxDepth + 1 - calls) (operand g calls) g.operand := by
  induction calls with
  | zero => exact .beyond _ _
  | succ calls ih =>
    have inner : Counts (maxDepth + 1 - (calls + 1) + 1) (operand g calls) g.operand :=
      ih.mono (by omega)
    rw [funext (Grammar.operand_eq g)]
    refine .bind (.lift (Demanding.optional (Grammar.pick_demanding _) |> .of_demanding)) ?_
    rintro (_ | _)
    · exact (counts_parenthesized (counts_tiers inner).commit.nested).orElse
        (counts_condition g (calls + 1))
    · exact inner.commit.nested.map _

/-- A counting reader of rules that starts with no level open does what the reader of the
grammar does, however often the counter has been used before. -/
theorem rule_agrees (g : Grammar) {calls highest : Nat} (enough : maxDepth < calls)
    (sound : highest ≤ maxDepth) (text : List Char) :
    Agrees ⟨0, highest⟩ (rule g calls text ⟨0, highest⟩) (g.rule text) := by
  have counts : Counts 0 (rule g calls) fun d => (do
      let trigger ← g.tiers (g.operand d)
      blanks
      return trigger) :=
    (counts_tiers ((counts_operand g calls).mono (by omega))).bind fun _ =>
      .bind (.lift flat_blanks) fun _ => .pure _
  exact counts text ⟨Nat.zero_le _, sound⟩ (Nat.zero_le _)

end Counting

end ForumModeration
