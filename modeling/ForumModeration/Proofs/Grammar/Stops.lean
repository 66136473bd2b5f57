import ForumModeration.Grammar.Calls
import ForumModeration.Proofs.Grammar.Failures
import ForumModeration.Proofs.Grammar.Strings

/-!
# `ForumModeration.Proofs.Grammar.Stops`: where a reading stops

A reading that fails stops at some place: at the end of the text, where it misses a quote, or
where it has come to by going over blanks, tokens, strings and the letters of other literals
and of names. What holds between the text and such a place is a trail (`TrailOf`), and a reader
that goes along it follows it (`Walks`), whether it succeeds or fails.

`Walks` has one rule for each way to put readers together, so the readers of the grammar
follow every trail: `rule_walks`, `calls_walks`.
-/

set_option autoImplicit false

namespace ForumModeration.Grammar

open Text ForumModeration.Parser

/-- Characters of names, and of literals that are no strings. -/
def isLiteralChar (c : Char) : Bool :=
  isNameChar c || [' ', '-', '/', ':', '.'].contains c

theorem isLiteralChar_of_isDigit {c : Char} (digit : c.isDigit = true) :
    isLiteralChar c = true := by
  have alphanumeric : isAlphanumeric c = true :=
    isAlphanumeric_of_isAlphanum (by rw [Char.isAlphanum, digit, Bool.or_true])
  rw [isLiteralChar, isNameChar, alphanumeric, Bool.true_or, Bool.true_or]

/-- A trail over all that the readers of a table go over. -/
structure TrailOf (table : TokenTable) (R : List Char → List Char → Prop) : Prop
    extends Trail R where
  skip : ∀ text, R text (skipBlanks text)
  letter : ∀ {c rest}, isLiteralChar c = true → R (c :: rest) rest
  token : ∀ {symbol text rest}, table.Token symbol text rest → R text rest
  string : ∀ {mark body string rest}, mark = '\'' ∨ mark = '"' → QuotedBody mark body string →
    R (mark :: (body ++ mark :: rest)) rest

/-- What a reader leaves lies on the trail, and where it fails it has come along the trail or
to the end of the text. -/
structure Walks {α : Type} (R : List Char → List Char → Prop) (p : Parser α) : Prop where
  leaves : Leaves R p
  stops : ∀ ⦃text failure⦄, p text = .error failure → failure.rest = [] ∨ R text failure.rest

/-! ### Readers that are put together -/

namespace Walks

variable {α β : Type} {R : List Char → List Char → Prop} {p q : Parser α} {f : α → Parser β}

section

variable (trail : Trail R)
include trail

theorem pure (a : α) : Walks R (Pure.pure a : Parser α) where
  leaves := .pure trail a
  stops _ _ failed := nomatch failed

theorem fail : Walks R (fail : Parser α) where
  leaves _ _ _ read := nomatch read
  stops text _ failed := by
    cases failed
    exact .inr (trail.refl text)

theorem reject (what : Requirement) : Walks R (reject what : Parser α) where
  leaves _ _ _ read := nomatch read
  stops text _ failed := by
    cases failed
    exact .inr (trail.refl text)

theorem notBefore (accepts : Char → Bool) : Walks R (notBefore accepts) where
  leaves text _ rest read := by
    obtain ⟨rfl, _⟩ := notBefore_eq_ok.mp read
    exact trail.refl rest
  stops text failure failed := by
    unfold Parser.notBefore at failed
    split at failed
    · split at failed <;> cases failed
      exact .inr (trail.refl _)
    · cases failed

theorem bind (first : Walks R p) (second : ∀ a, Walks R (f a)) : Walks R (p >>= f) where
  leaves := .bind trail first.leaves fun a => (second a).leaves
  stops text failure failed := by
    rcases bind_eq_error.mp failed with failed | ⟨a, mid, read, failed⟩
    · exact first.stops failed
    · exact ((second a).stops failed).imp_right (trail.trans (first.leaves read))

theorem map (h : Walks R p) (g : α → β) : Walks R (g <$> p) :=
  h.bind trail fun a => .pure trail (g a)

theorem optional (h : Walks R p) : Walks R p.optional where
  leaves := h.leaves.optional trail
  stops _ _ failed := h.stops (optional_eq_error failed).1

theorem many (h : Walks R p) : Walks R (many p) where
  leaves := h.leaves.many trail
  stops text failure failed := by
    obtain ⟨mid, come, failed, _⟩ := exists_of_many_error (S := R text)
      (fun _ _ _ come read => trail.trans come (h.leaves read)) (trail.refl text) failed
    exact (h.stops failed).imp_right (trail.trans come)

theorem separated {separator : Parser β} (h : Walks R p) (s : Walks R separator) :
    Walks R (separated p separator) :=
  h.bind trail fun _ => (((s.bind trail fun _ => h).many trail).bind trail) fun _ =>
    .pure trail _

theorem separatedOrNone {separator : Parser β} (h : Walks R p) (s : Walks R separator) :
    Walks R (separatedOrNone p separator) := by
  refine (h.optional trail).bind trail ?_
  rintro (_ | first)
  · exact .pure trail []
  · exact ((s.bind trail fun _ => h).many trail).bind trail fun _ => .pure trail _

end

theorem ite {P : Prop} [Decidable P] (h : Walks R p) (h' : Walks R q) :
    Walks R (if P then p else q) := by
  split
  · exact h
  · exact h'

theorem orElse (first : Walks R p) (second : Walks R q) : Walks R (p.orElse q) where
  leaves _ _ _ read := by
    rcases orElse_eq_ok.mp read with read | ⟨_, read⟩
    · exact first.leaves read
    · exact second.leaves read
  stops _ _ failed := by
    rcases orElse_eq_error failed with ⟨failed, _⟩ | ⟨_, failed⟩
    · exact first.stops failed
    · exact second.stops failed

theorem commit (h : Walks R p) : Walks R (commit p) where
  leaves _ _ _ read := h.leaves (commit_eq_ok.mp read)
  stops text _ failed := by
    obtain ⟨inner, read, rfl⟩ := commit_eq_error failed
    show inner.rest = [] ∨ R text inner.rest
    exact h.stops read

theorem expecting (h : Walks R p) (what : Expectation) : Walks R (p.expecting what) where
  leaves _ _ _ read := h.leaves (expecting_eq_ok.mp read)
  stops text _ failed := by
    obtain ⟨inner, read, rfl⟩ := expecting_eq_error failed
    show inner.rest = [] ∨ R text inner.rest
    exact h.stops read

theorem word (h : Walks R p) (kind : WordKind) : Walks R (p.word kind) :=
  h.expecting _

theorem required (h : Walks R p) (what : Requirement) : Walks R (required what p) :=
  h.commit.expecting _

/-- A value that is refused is refused where it starts. -/
theorem checked {bad : α → Prop} [DecidablePred bad] (trail : Trail R) (h : Walks R p)
    (what : Requirement) (make : α → β) : Walks R (checked p bad what make) where
  leaves _ _ _ read := by
    obtain ⟨_, read, _, _⟩ := checked_eq_ok.mp read
    exact h.leaves read
  stops text failure failed := by
    unfold Parser.checked at failed
    cases read : p text with
    | error inner =>
      rw [read] at failed
      cases failed
      exact h.stops read
    | ok result =>
      rw [read] at failed
      change (if bad result.1 then Parser.reject what text else .ok (make result.1, result.2)) = _
        at failed
      split at failed <;> cases failed
      exact .inr (trail.refl text)

/-- Where a text is not read to its end, the reading stops on the trail or at the end. -/
theorem complete {text : List Char} {failure : Failure} (h : Walks R p)
    (failed : p.complete text = .error failure) : failure.rest = [] ∨ R text failure.rest := by
  unfold Parser.complete at failed
  split at failed <;> rename_i read <;> cases failed
  · exact .inr (h.leaves read)
  · exact h.stops read

end Walks

variable {table : TokenTable} {g : Grammar} {R : List Char → List Char → Prop}

/-! ### Characters and tokens -/

section

variable (trail : TrailOf table R) {accepts : Char → Bool}
include trail

/-- Characters of literals and of names, one after the other. -/
theorem TrailOf.letters {written : List Char}
    (letters : ∀ c ∈ written, isLiteralChar c = true)
    (rest : List Char) : R (written ++ rest) rest := by
  induction written with
  | nil => exact trail.refl rest
  | cons c written ih =>
    exact trail.trans (trail.letter (letters c List.mem_cons_self))
      (ih fun d mem => letters d (List.mem_cons_of_mem c mem))

variable (letters : ∀ c, accepts c = true → isLiteralChar c = true)

theorem blanks_walks : Walks R blanks where
  leaves text _ _ read := by
    cases read
    exact trail.skip text
  stops _ _ failed := nomatch failed

include letters

theorem satisfying_walks : Walks R (satisfying accepts) where
  leaves _ _ _ read := by
    obtain ⟨rfl, accepted⟩ := satisfying_eq_ok.mp read
    exact trail.letter (letters _ accepted)
  stops _ _ failed := by
    unfold Parser.satisfying at failed
    split at failed
    · split at failed <;> cases failed
      exact .inr (trail.refl _)
    · cases failed
      exact .inr (trail.refl _)

theorem run_walks : Walks R (run accepts) where
  leaves _ _ _ read := by
    obtain ⟨_, rfl, accepted, _⟩ := run_eq_ok.mp read
    exact trail.letters (fun c mem => letters c (accepted c mem)) _
  stops text _ failed := by
    unfold run at failed
    dsimp only at failed
    split at failed <;> cases failed
    exact .inr (trail.refl text)

theorem runBetween_walks (least most : Nat) : Walks R (runBetween least most accepts) where
  leaves _ _ _ read := by
    obtain ⟨_, _, rfl, accepted, _⟩ := runBetween_eq_ok.mp read
    exact trail.letters (fun c mem => letters c (accepted c mem)) _
  stops text _ failed := by
    unfold runBetween at failed
    dsimp only at failed
    split at failed <;> cases failed
    exact .inr (trail.refl text)

end

section

variable (trail : TrailOf table R)
include trail

theorem char_walks {c : Char} (letter : isLiteralChar c = true) :
    Walks R (char c) := by
  refine satisfying_walks trail fun d same => ?_
  rw [of_decide_eq_true same]
  exact letter

theorem pick_walks {α : Type} (hg : g.lexicon = table.lexicon) (wanted : Symbol → Option α) :
    Walks R (g.pick wanted) where
  leaves _ _ _ read := by
    obtain ⟨_, _, token⟩ := token_of_pick hg read
    exact trail.token token
  stops text _ failed := by
    rw [pick_eq_error failed]
    exact .inr (trail.skip text)

theorem sign_walks (hg : g.lexicon = table.lexicon) (sign : Punctuation) :
    Walks R (g.sign sign) :=
  pick_walks trail hg (exactly (.punctuation sign))

theorem symbol_walks (hg : g.lexicon = table.lexicon) (wanted : Symbol) :
    Walks R (g.symbol wanted) :=
  pick_walks trail hg (exactly wanted)

/-! ### Literals -/

theorem digits_walk : Walks R (run Char.isDigit) :=
  run_walks trail fun _ => isLiteralChar_of_isDigit

theorem shortNumber_walks (least most : Nat) : Walks R (shortNumber least most) :=
  (runBetween_walks trail (fun _ => isLiteralChar_of_isDigit) _ _).bind trail.toTrail fun _ =>
    .pure trail.toTrail _

private theorem fractionOfSecond_walks : Walks R fractionOfSecond :=
  have go := trail.toTrail
  (char_walks trail (by decide +kernel)).bind go fun _ => (digits_walk trail).bind go fun _ =>
    .pure go _

private theorem colonTime_walks : Walks R colonTime :=
  have go := trail.toTrail
  have colon : Walks R (char ':') := char_walks trail (by decide +kernel)
  have spaces : Walks R (run (· = ' ')) := run_walks trail fun c space => by
    rw [of_decide_eq_true space]
    decide +kernel
  have mark : Walks R (do let c ← char 'T'; return [c]) :=
    (char_walks trail (by decide +kernel)).bind go fun _ => .pure go _
  (spaces.orElse mark).bind go fun _ => (shortNumber_walks trail _ _).bind go fun _ =>
    colon.bind go fun _ => (shortNumber_walks trail _ _).bind go fun _ =>
    colon.bind go fun _ => (shortNumber_walks trail _ _).bind go fun _ =>
    ((fractionOfSecond_walks trail).optional go).bind go fun _ => .pure go _

private theorem chineseTime_walks : Walks R chineseTime :=
  have go := trail.toTrail
  have number := shortNumber_walks trail 1 2
  have seconds : Walks R chineseSeconds :=
    number.bind go fun _ => ((fractionOfSecond_walks trail).optional go).bind go fun _ =>
      (char_walks trail (by decide +kernel)).bind go fun _ => .pure go _
  (blanks_walks trail).bind go fun _ => number.bind go fun _ =>
    (char_walks trail (by decide +kernel)).bind go fun _ => number.bind go fun _ =>
    (char_walks trail (by decide +kernel)).bind go fun _ =>
    (seconds.optional go).bind go fun _ => .pure go _

/-- A date with its time, in either form. -/
private theorem dates_walk : Walks R (orElse dashedDate chineseDate) :=
  have go := trail.toTrail
  have year := shortNumber_walks trail 4 4
  have number := shortNumber_walks trail 1 2
  have separator : Walks R (satisfying fun c => c = '-' || c = '/') :=
    satisfying_walks trail fun c same => by
      rcases (by simpa using same : c = '-' ∨ c = '/') with rfl | rfl <;> decide +kernel
  .orElse
    (year.bind go fun _ => separator.bind go fun _ => number.bind go fun _ =>
      separator.bind go fun _ => number.bind go fun _ =>
      ((colonTime_walks trail).optional go).bind go fun _ => .pure go _)
    (year.bind go fun _ => (char_walks trail (by decide +kernel)).bind go fun _ =>
      number.bind go fun _ => (char_walks trail (by decide +kernel)).bind go fun _ =>
      number.bind go fun _ => (char_walks trail (by decide +kernel)).bind go fun _ =>
      ((chineseTime_walks trail).optional go).bind go fun _ => .pure go _)

theorem date_walks (g : Grammar) : Walks R g.date where
  leaves text instant rest read := by
    obtain ⟨time, read, -⟩ := date_eq_ok.mp read
    exact (dates_walk trail).leaves read
  stops text failure failed := by
    rcases date_eq_error failed with unread | unknown
    · exact (dates_walk trail).stops unread
    · cases unknown
      exact .inr (trail.refl text)

theorem relative_walks (hg : g.lexicon = table.lexicon) : Walks R g.relative := by
  have go := trail.toTrail
  refine (digits_walk trail).bind go fun run => .ite (.fail go) <|
    (pick_walks trail hg _).bind go fun unit =>
    ((symbol_walks trail hg .ago).optional go).bind go fun _ => ?_
  cases g.backFromNow? unit (numberOf run) with
  | some instant => exact .pure go instant
  | none => exact .reject go _

theorem number_walks : Walks R number := by
  have go := trail.toTrail
  have point : Walks R (do let _ ← char '.'; run Char.isDigit) :=
    (char_walks trail (by decide +kernel)).bind go fun _ => digits_walk trail
  refine ((char_walks trail (by decide +kernel)).optional go).bind go fun sign =>
    (digits_walk trail).bind go fun whole => (point.optional go).bind go fun places =>
    (Walks.notBefore go _).bind go fun _ => ?_
  cases places with
  | some places => exact .pure go _
  | none => exact .ite (.pure go _) (.reject go _)

/-- A string is gone over up to its closing quote, which is missed at the end of the text. -/
theorem quoted_walks : Walks R quoted where
  leaves text string rest read := by
    obtain ⟨mark, body, mark_, rfl, body_⟩ := quoted_eq_ok.mp read
    exact trail.string mark_ body_
  stops text failure failed := by
    rcases bind_eq_error.mp failed with failed | ⟨mark, mid, _, failed⟩
    · unfold Parser.satisfying at failed
      split at failed
      · split at failed <;> cases failed
        exact .inr (trail.refl _)
      · cases failed
        exact .inr (trail.refl _)
    · split at failed <;> cases failed
      exact .inl rfl

theorem quotedLiteral_walks (g : Grammar) (wantsDate : Bool) :
    Walks R (g.quotedLiteral wantsDate) :=
  (quoted_walks trail).bind trail.toTrail fun _ => .pure trail.toTrail _

theorem bareLiteral_walks (hg : g.lexicon = table.lexicon) : Walks R g.bareLiteral :=
  have go := trail.toTrail
  ((date_walks trail g).map go _).orElse <| ((relative_walks trail hg).map go _).orElse <|
    (number_walks trail).orElse <| ((pick_walks trail hg _).map go _).orElse <|
    (symbol_walks trail hg .now).bind go fun _ => .pure go _

theorem scalar_walks (hg : g.lexicon = table.lexicon) : Walks R g.scalar :=
  (blanks_walks trail).bind trail.toTrail fun _ =>
    (quotedLiteral_walks trail g _).orElse (bareLiteral_walks trail hg)

theorem literal_walks (hg : g.lexicon = table.lexicon) (wantsDate : Bool) (depth : Nat) :
    Walks R (g.literal wantsDate depth) := by
  have go := trail.toTrail
  -- By induction on the levels left: the items of a list have one less.
  have forms : ∀ items : Parser (List Value), Walks R items →
      Walks R (g.literalWith wantsDate items) := fun items inside =>
    (blanks_walks trail).bind go fun _ => (quotedLiteral_walks trail g wantsDate).orElse <|
      ((sign_walks trail hg _).bind go fun _ => inside.bind go fun _ =>
        ((sign_walks trail hg _).required _).bind go fun _ => .pure go _).orElse
        (bareLiteral_walks trail hg)
  induction depth with
  | zero => exact forms _ (.reject go _)
  | succ depth ih => exact forms _ (ih.separatedOrNone go (sign_walks trail hg _))

/-! ### Rules -/

theorem condition_walks (hg : g.lexicon = table.lexicon) (depth : Nat) :
    Walks R (g.condition depth) := by
  have go := trail.toTrail
  rw [condition_eq]
  exact ((pick_walks trail hg _).word _).bind go fun field =>
    ((pick_walks trail hg _).commit.word _).bind go fun _ => (blanks_walks trail).bind go fun _ =>
    ((literal_walks trail hg _ _).commit.word _).checked go _ _

omit trail in
theorem rightOperand_walks {operand : Parser Trigger} (h : Walks R operand) :
    Walks R (g.rightOperand operand) where
  leaves _ _ _ read := h.leaves (rightOperand_eq_ok.mp read)
  stops text _ failed := by
    obtain ⟨inner, read, rfl⟩ := rightOperand_eq_error failed
    show inner.rest = [] ∨ R text inner.rest
    exact h.stops read

theorem tier_walks (hg : g.lexicon = table.lexicon) (accepts : Connective → Bool)
    {operand : Parser Trigger} (h : Walks R operand) : Walks R (g.tier accepts operand) :=
  have go := trail.toTrail
  have continuation : Walks R (g.continuation accepts operand) :=
    (pick_walks trail hg _).bind go fun _ => (rightOperand_walks h).bind go fun _ => .pure go _
  h.bind go fun _ => (continuation.many go).bind go fun _ => .pure go _

theorem tiers_walks (hg : g.lexicon = table.lexicon) {operand : Parser Trigger}
    (h : Walks R operand) : Walks R (g.tiers operand) :=
  tier_walks trail hg _ (tier_walks trail hg _ h)

theorem operand_walks (hg : g.lexicon = table.lexicon) (depth : Nat) :
    Walks R (g.operand depth) := by
  have go := trail.toTrail
  -- By induction on the levels left: what an operand holds has one less.
  have forms : ∀ (depth : Nat) (negated inner : Parser Trigger), Walks R negated →
      Walks R inner → Walks R (g.operandWith depth negated inner) := by
    intro depth negated inner hnegated hinner
    refine ((pick_walks trail hg _).optional go).bind go ?_
    rintro (_ | negation)
    · exact ((sign_walks trail hg _).bind go fun _ => hinner.bind go fun _ =>
        ((sign_walks trail hg _).required _).bind go fun _ => .pure go _).orElse
        (condition_walks trail hg depth)
    · exact hnegated.map go _
  induction depth with
  | zero => exact forms _ _ _ (.reject go _) (.reject go _)
  | succ depth ih => exact forms _ _ _ ih.commit (tiers_walks trail hg ih).commit

theorem rule_walks (hg : g.lexicon = table.lexicon) : Walks R g.rule :=
  have go := trail.toTrail
  (tiers_walks trail hg (operand_walks trail hg maxDepth)).bind go fun _ =>
    (blanks_walks trail).bind go fun _ => .pure go _

/-! ### Action lists -/

theorem call_walks (hg : g.lexicon = table.lexicon) : Walks R g.call := by
  have go := trail.toTrail
  have parameter : Walks R g.parameter :=
    (blanks_walks trail).bind go fun _ => (run_walks trail fun c name => by
        rw [isLiteralChar, name, Bool.true_or]).bind go fun _ =>
      ((sign_walks trail hg _).required _).bind go fun _ =>
      ((scalar_walks trail hg).commit.word _).bind go fun _ => .pure go _
  exact ((pick_walks trail hg _).word _).bind go fun _ =>
    ((sign_walks trail hg _).required _).bind go fun _ =>
    (parameter.separatedOrNone go (sign_walks trail hg _)).bind go fun _ =>
    ((sign_walks trail hg _).required _).bind go fun _ => .pure go _

theorem calls_walks (hg : g.lexicon = table.lexicon) : Walks R g.calls :=
  have go := trail.toTrail
  have introduction : Walks R g.introduction :=
    (symbol_walks trail hg .actionPrefix).bind go fun _ =>
      ((sign_walks trail hg _).optional go).bind go fun _ => .pure go _
  (introduction.optional go).bind go fun _ =>
    ((call_walks trail hg).separated go (sign_walks trail hg _)).bind go fun _ =>
    (blanks_walks trail).bind go fun _ => .pure go _

end

end ForumModeration.Grammar
