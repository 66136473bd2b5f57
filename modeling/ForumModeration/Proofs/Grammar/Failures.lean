import ForumModeration.Proofs.Grammar.Extension
import ForumModeration.Proofs.Grammar.Spans

/-!
# `ForumModeration.Proofs.Grammar.Failures`: how readers fail

The lemmas `bind_eq_error`, `orElse_eq_error`, `optional_eq_error`, `exists_of_many_error`
and the like say where the failure of readers that are put together comes from, as those of
`Proofs.Grammar.Readers` do for what is read.

Readers of values have nothing to say where they decline, and the word that is missed is
named by the reader around them. `LiteralForm` lists what the start of a value looks like,
whether or not the value can be read to its end and has a meaning. A reader that has found
such a start does not decline.

* `Parser.Demanding`: a reader that fails says nothing unless it misses a requirement. There
  is a rule for each way to put readers together.
* `literal_eq_error`: literals are demanding, and where one is declined the failure stands
  behind the blanks.
* `not_stands_of_declines`: where no token is picked, none of those wanted stands.
* `not_literalForm_of_declines`: where a literal is declined, nothing has the form of one.
-/

set_option autoImplicit false

namespace ForumModeration

open Text

/-! ### Tokens and literals at the start of a text -/

namespace TokenTable

variable (table : TokenTable)

/-- A token of the symbol stands at the start of a text, after blanks. -/
def Stands (symbol : Symbol) (text : List Char) : Prop :=
  ∃ rest, table.Token symbol text rest

/-- The start of a text looks like a value. A string may lack its closing quote and a list
its closing bracket, the calendar need not have the date, and numbers and instants may be
out of range. Only the amount of a relative time is bounded. -/
inductive LiteralForm : List Char → Prop where
  | string {mark : Char} {rest : List Char} (mark_ : mark = '\'' ∨ mark = '"') :
      LiteralForm (mark :: rest)
  | list {text : List Char} (opening : table.Stands (.punctuation .leftBracket) text) :
      LiteralForm text
  | date {written rest : List Char} {time : LocalTime} (date_ : DateText written time) :
      LiteralForm (written ++ rest)
  | relative {run after : List Char} {unit : TimeUnit} (digits : Digits run)
      (bounded : numberOf run ≤ Grammar.maxAmount) (unit_ : table.Stands (.unit unit) after) :
      LiteralForm (run ++ after)
  | integer {negative : Bool} {whole rest : List Char} (digits : Digits whole)
      (boundary : Ahead (isIdent · = false) rest)
      (noPlaces : ∀ c more, rest = '.' :: c :: more → c.isDigit = false) :
      LiteralForm (signText negative ++ whole ++ rest)
  | decimal {negative : Bool} {whole places rest : List Char} (digits : Digits whole)
      (more : Digits places) (boundary : Ahead (isIdent · = false) rest) :
      LiteralForm (signText negative ++ whole ++ '.' :: (places ++ rest))
  | truth {text : List Char} {b : Bool} (token : table.Stands (.truth b) text) : LiteralForm text
  | now {text : List Char} (token : table.Stands .now text) : LiteralForm text

variable {table}

/-- Blanks in front do not matter. -/
theorem Stands.unskipped {symbol : Symbol} {text : List Char}
    (h : table.Stands symbol (skipBlanks text)) : table.Stands symbol text := by
  obtain ⟨rest, token⟩ := h
  obtain ⟨blanks, split, blank⟩ := exists_blanks text
  rw [split]
  exact ⟨rest, token.prepend blank⟩

end TokenTable

/-! ### How readers fail -/

namespace Parser

variable {α β γ : Type} {p q : Parser α} {f : α → Parser β} {text mid rest : List Char}
  {failure : Failure} {a : α}

theorem bind_eq_error :
    (p >>= f) text = .error failure ↔
      p text = .error failure ∨ ∃ a mid, p text = .ok (a, mid) ∧ f a mid = .error failure := by
  cases read : p text with
  | error inner => simp [bind_of_error read]
  | ok result =>
    obtain ⟨a, mid⟩ := result
    simp [bind_of_ok read]

theorem orElse_eq_error (h : (p.orElse q) text = .error failure) :
    (p text = .error failure ∧ failure.committed = true) ∨
      (p.Declines text ∧ q text = .error failure) := by
  cases read : p text with
  | ok result =>
    rw [orElse_of_ok (show p text = .ok (result.1, result.2) from read)] at h
    cases h
  | error inner =>
    cases final : inner.committed with
    | false =>
      have no : p.Declines text := ⟨inner, read, final⟩
      rw [no.orElse_eq] at h
      exact .inr ⟨no, h⟩
    | true =>
      simp only [Parser.orElse, read, final, if_true, Except.error.injEq] at h
      exact .inl ⟨by rw [h], by rw [← h, final]⟩

theorem optional_eq_error (h : p.optional text = .error failure) :
    p text = .error failure ∧ failure.committed = true := by
  cases read : p text with
  | ok result =>
    rw [optional_of_ok (show p text = .ok (result.1, result.2) from read)] at h
    cases h
  | error inner =>
    cases final : inner.committed with
    | false =>
      rw [(show p.Declines text from ⟨inner, read, final⟩).optional] at h
      cases h
    | true =>
      simp only [Parser.optional, read, final, if_true, Except.error.injEq] at h
      exact ⟨by rw [h], by rw [← h, final]⟩

/-- A reader that changes failures only fails where the inner one does. -/
private theorem change_eq_error {change : Failure → Failure}
    (h : (match p text with
      | .ok result => .ok result
      | .error inner => .error (change inner) : Except Failure (α × List Char))
        = .error failure) :
    ∃ inner, p text = .error inner ∧ failure = change inner := by
  cases read : p text with
  | ok result =>
    rw [read] at h
    cases h
  | error inner =>
    rw [read] at h
    exact ⟨inner, rfl, (Except.error.inj h).symm⟩

theorem commit_eq_error (h : commit p text = .error failure) :
    ∃ inner, p text = .error inner ∧ failure = { inner with committed := true } :=
  change_eq_error h

theorem uncommit_eq_error (h : uncommit p text = .error failure) :
    ∃ inner, p text = .error inner ∧ failure = { inner with committed := false } :=
  change_eq_error h

theorem expecting_eq_error {what : Expectation} (h : p.expecting what text = .error failure) :
    ∃ inner, p text = .error inner ∧
      failure = { inner with expected := inner.expected <|> some what } :=
  change_eq_error h

theorem word_commit_eq_error {kind : WordKind} (h : (commit p).word kind text = .error failure) :
    ∃ inner, p text = .error inner ∧
      failure = ⟨inner.rest, inner.expected <|> some (.word kind), true⟩ := by
  obtain ⟨outer, committed, rfl⟩ := expecting_eq_error h
  obtain ⟨inner, failed, rfl⟩ := commit_eq_error committed
  exact ⟨inner, failed, rfl⟩

/-- A repetition fails only where its reader fails for good, at a text that it has come to. -/
theorem exists_of_many_error {S : List Char → Prop}
    (keeps : ∀ ⦃text a rest⦄, S text → p text = .ok (a, rest) → S rest) (start : S text)
    (h : many p text = .error failure) :
    ∃ mid, S mid ∧ p mid = .error failure ∧ failure.committed = true := by
  fun_induction many p text with
  | case1 => cases h
  | case2 text a mid read _ inner failed ih =>
    cases h
    exact ih (keeps start read) failed
  | case3 => cases h
  | case4 text inner failed final =>
    cases h
    exact ⟨text, start, failed, final⟩
  | case5 => cases h

theorem checked_eq_error {bad : α → Prop} [DecidablePred bad] {what : Requirement} {make : α → γ}
    (h : checked p bad what make text = .error failure) :
    p text = .error failure ∨ failure.expected = some (.requirement what) := by
  unfold checked at h
  cases read : p text with
  | error inner =>
    rw [read] at h
    cases h
    exact .inl rfl
  | ok result =>
    rw [read] at h
    change (if bad result.1 then reject what text else .ok (make result.1, result.2)) = _ at h
    split at h <;> cases h
    exact .inr rfl

/-- A reader that shortens the text, repeated, ends where it declines. -/
theorem declines_of_many {as : List α} (shorter : ∀ ⦃text a rest⦄, p text = .ok (a, rest) →
    rest.length < text.length) (h : many p text = .ok (as, rest)) : p.Declines rest := by
  fun_induction many p text generalizing as with
  | case1 text a mid read _ others after failed ih =>
    cases h
    exact ih failed
  | case2 => cases h
  | case3 text a mid read longer => exact absurd (shorter read) longer
  | case4 => cases h
  | case5 text inner failed soft =>
    cases h
    exact ⟨inner, failed, by simpa using soft⟩

/-- A reader that fails says nothing and leaves room for another reading, or it misses one
of the given requirements. -/
def Demanding (S : Requirement → Prop) (p : Parser α) : Prop :=
  ∀ ⦃text failure⦄, p text = .error failure →
    (failure.committed = false ∧ failure.expected = none) ∨
      ∃ what, S what ∧ failure.expected = some (.requirement what)

namespace Demanding

variable {S : Requirement → Prop}

theorem pure (a : α) : Demanding S (Pure.pure a : Parser α) :=
  fun _ _ failed => nomatch failed

theorem reject {what : Requirement} (given : S what) : Demanding S (reject what : Parser α) := by
  intro text failure failed
  cases failed
  exact .inr ⟨what, given, rfl⟩

theorem fail : Demanding S (fail : Parser α) := by
  intro text failure failed
  cases failed
  exact .inl ⟨rfl, rfl⟩

theorem satisfying (accepts : Char → Bool) : Demanding S (satisfying accepts) := by
  intro text failure failed
  unfold Parser.satisfying at failed
  split at failed
  · split at failed <;> cases failed
    exact .inl ⟨rfl, rfl⟩
  · cases failed
    exact .inl ⟨rfl, rfl⟩

theorem run (accepts : Char → Bool) : Demanding S (run accepts) := by
  intro text failure failed
  unfold Parser.run at failed
  dsimp only at failed
  split at failed <;> cases failed
  exact .inl ⟨rfl, rfl⟩

theorem runBetween (least most : Nat) (accepts : Char → Bool) :
    Demanding S (runBetween least most accepts) := by
  intro text failure failed
  unfold Parser.runBetween at failed
  dsimp only at failed
  split at failed <;> cases failed
  exact .inl ⟨rfl, rfl⟩

theorem notBefore (accepts : Char → Bool) : Demanding S (notBefore accepts) := by
  intro text failure failed
  unfold Parser.notBefore at failed
  split at failed
  · split at failed <;> cases failed
    exact .inl ⟨rfl, rfl⟩
  · cases failed

theorem bind (first : Demanding S p) (second : ∀ a, Demanding S (f a)) : Demanding S (p >>= f) := by
  intro text failure failed
  rcases bind_eq_error.mp failed with failed | ⟨a, mid, _, failed⟩
  · exact first failed
  · exact second a failed

theorem map (h : Demanding S p) (g : α → γ) : Demanding S (g <$> p) :=
  h.bind fun _ => .pure _

theorem ite {P : Prop} [Decidable P] (h : Demanding S p) (h' : Demanding S q) :
    Demanding S (if P then p else q) := by
  split
  · exact h
  · exact h'

theorem orElse (first : Demanding S p) (second : Demanding S q) : Demanding S (p.orElse q) := by
  intro text failure failed
  rcases orElse_eq_error failed with ⟨failed, _⟩ | ⟨_, failed⟩
  · exact first failed
  · exact second failed

theorem optional (h : Demanding S p) : Demanding S p.optional :=
  fun _ _ failed => h (optional_eq_error failed).1

/-- What has to stand somewhere is read by a reader that names nothing more. -/
theorem required {what : Requirement} (given : S what)
    (none : ∀ ⦃text failure⦄, p text = .error failure → failure.expected = none) :
    Demanding S (required what p) := by
  intro text failure failed
  obtain ⟨inner, read, rfl⟩ := expecting_eq_error failed
  obtain ⟨inner', read', rfl⟩ := commit_eq_error read
  exact .inr ⟨what, given, by simp [none read']⟩

theorem many (h : Demanding S p) : Demanding S (many p) := by
  intro text failure failed
  obtain ⟨mid, _, failed, _⟩ := exists_of_many_error (S := fun _ => True)
    (fun _ _ _ _ _ => trivial) trivial failed
  exact h failed

theorem separatedOrNone {separator : Parser γ} (h : Demanding S p) (s : Demanding S separator) :
    Demanding S (separatedOrNone p separator) := by
  refine h.optional.bind ?_
  rintro (_ | first)
  · exact .pure _
  · exact (s.bind fun _ => h).many.bind fun _ => .pure _

end Demanding

end Parser

namespace Grammar

open ForumModeration.Parser

variable {g : Grammar} {table : TokenTable} {text rest : List Char} {wantsDate : Bool}
  {depth : Nat} {failure : Failure} {S : Requirement → Prop}

/-! ### Tokens -/

/-- A token that is missed is missed behind the blanks, and nothing is said of it. -/
theorem pick_eq_error {α : Type} {wanted : Symbol → Option α}
    (h : g.pick wanted text = .error failure) : failure = ⟨skipBlanks text, none, false⟩ := by
  unfold pick at h
  dsimp only at h
  split at h <;> cases h
  rfl

theorem pick_demanding {α : Type} (wanted : Symbol → Option α) : Demanding S (g.pick wanted) := by
  intro text failure failed
  rw [pick_eq_error failed]
  exact .inl ⟨rfl, rfl⟩

theorem sign_demanding (g : Grammar) (sign : Punctuation) : Demanding S (g.sign sign) :=
  pick_demanding (exactly (.punctuation sign))

theorem sign_required {what : Requirement} (given : S what) (sign : Punctuation) :
    Demanding S (required what (g.sign sign)) := by
  refine .required given fun text failure failed => ?_
  rw [sign_eq] at failed
  rw [pick_eq_error failed]

/-- Where nothing is picked, none of the tokens that are wanted stands. -/
theorem not_stands_of_declines {α : Type} {wanted : Symbol → Option α} {symbol : Symbol}
    (hg : g.lexicon = table.lexicon) (legible : table.Legible)
    (no : (g.pick wanted).Declines text) (want : (wanted symbol).isSome = true) :
    ¬table.Stands symbol text := by
  rintro ⟨rest, token⟩
  obtain ⟨written, mem, after⟩ := token.after legible
  obtain ⟨a, want⟩ := Option.isSome_iff_exists.mp want
  obtain ⟨b, rest', read⟩ := exists_pick (hg ▸ mem) want after
  exact no.not_ok read

theorem not_stands_of_sign {sign : Punctuation} (hg : g.lexicon = table.lexicon)
    (legible : table.Legible) (no : (g.sign sign).Declines text) :
    ¬table.Stands (.punctuation sign) text := by
  rw [sign_eq] at no
  exact not_stands_of_declines hg legible no (by simp [exactly])

theorem not_stands_of_connective {accepts : Connective → Bool} {c : Connective}
    (hg : g.lexicon = table.lexicon) (legible : table.Legible)
    (no : (g.connective accepts).Declines text) (accepted : accepts c = true) :
    ¬table.Stands (.connective c) text := by
  rw [connective_eq] at no
  exact not_stands_of_declines hg legible no (by simp [connectiveOf, accepted])

/-! ### How literals fail -/

theorem shortNumber_demanding (least most : Nat) : Demanding S (shortNumber least most) :=
  (Demanding.runBetween _ _ _).bind fun _ => .pure _

private theorem fractionOfSecond_demanding : Demanding S fractionOfSecond :=
  (Demanding.satisfying _).bind fun _ => (Demanding.run _).bind fun _ => .pure _

private theorem colonTime_demanding : Demanding S colonTime :=
  ((Demanding.run _).orElse ((Demanding.satisfying _).bind fun _ => .pure _)).bind fun _ =>
    (shortNumber_demanding _ _).bind fun _ => (Demanding.satisfying _).bind fun _ =>
    (shortNumber_demanding _ _).bind fun _ => (Demanding.satisfying _).bind fun _ =>
    (shortNumber_demanding _ _).bind fun _ => fractionOfSecond_demanding.optional.bind fun _ =>
    .pure _

theorem blanks_demanding : Demanding S blanks :=
  fun _ _ failed => nomatch failed

private theorem chineseTime_demanding : Demanding S chineseTime := by
  have seconds : Demanding S chineseSeconds :=
    (shortNumber_demanding _ _).bind fun _ => fractionOfSecond_demanding.optional.bind fun _ =>
      (Demanding.satisfying _).bind fun _ => .pure _
  exact blanks_demanding.bind fun _ =>
    (shortNumber_demanding _ _).bind fun _ => (Demanding.satisfying _).bind fun _ =>
    (shortNumber_demanding _ _).bind fun _ => (Demanding.satisfying _).bind fun _ =>
    seconds.optional.bind fun _ => .pure _

/-- A date with its time, for any sign behind the year, the month and the day. -/
private theorem dates_demanding : Demanding S (orElse dashedDate chineseDate) :=
  Demanding.orElse
    ((shortNumber_demanding _ _).bind fun _ => (Demanding.satisfying _).bind fun _ =>
      (shortNumber_demanding _ _).bind fun _ => (Demanding.satisfying _).bind fun _ =>
      (shortNumber_demanding _ _).bind fun _ => colonTime_demanding.optional.bind fun _ => .pure _)
    ((shortNumber_demanding _ _).bind fun _ => (Demanding.satisfying _).bind fun _ =>
      (shortNumber_demanding _ _).bind fun _ => (Demanding.satisfying _).bind fun _ =>
      (shortNumber_demanding _ _).bind fun _ => (Demanding.satisfying _).bind fun _ =>
      chineseTime_demanding.optional.bind fun _ => .pure _)

section

variable (others : ∀ what, what ≠ .shallowerNesting → S what)
include others

theorem date_demanding (g : Grammar) : Demanding S g.date := by
  intro text failure failed
  rcases date_eq_error failed with unread | unknown
  · exact dates_demanding unread
  · exact Demanding.reject (others .calendarDate nofun) unknown

theorem relative_demanding (g : Grammar) : Demanding S g.relative := by
  refine (Demanding.run _).bind fun run => .ite .fail <|
    (pick_demanding _).bind fun unit => (pick_demanding _).optional.bind fun _ => ?_
  cases counted : g.backFromNow? unit (numberOf run) with
  | some instant => exact .pure _
  | none => exact .reject (others .timeInRange nofun)

theorem number_demanding : Demanding S number := by
  refine (Demanding.satisfying _).optional.bind fun sign => (Demanding.run _).bind fun whole =>
    ((Demanding.satisfying _).bind fun _ => Demanding.run _).optional.bind fun places =>
    (Demanding.notBefore _).bind fun _ => ?_
  cases places with
  | some places => exact .pure _
  | none => exact .ite (.pure _) (.reject (others .integerInRange nofun))

theorem quotedLiteral_demanding (g : Grammar) (wantsDate : Bool) :
    Demanding S (g.quotedLiteral wantsDate) := by
  refine ((Demanding.satisfying _).bind fun mark => ?_).bind fun _ => .pure _
  intro text failure failed
  dsimp only at failed
  split at failed <;> cases failed
  exact .inr ⟨.closingQuote, others .closingQuote nofun, rfl⟩

theorem bareLiteral_demanding (g : Grammar) : Demanding S g.bareLiteral :=
  ((date_demanding others g).map _).orElse <| ((relative_demanding others g).map _).orElse <|
    (number_demanding others).orElse <| ((pick_demanding _).map _).orElse <|
    (pick_demanding _).bind fun _ => .pure _

end

theorem literal_demanding (g : Grammar) (wantsDate : Bool) (depth : Nat) :
    Demanding (fun _ => True) (g.literal wantsDate depth) := by
  -- By induction on the levels left: the items of a list have one less.
  have forms : ∀ items : Parser (List Value), Demanding (fun _ => True) items →
      Demanding (fun _ => True) (g.literalWith wantsDate items) := by
    intro items inside
    exact blanks_demanding.bind fun _ =>
      (quotedLiteral_demanding (fun _ _ => trivial) g wantsDate).orElse <|
      ((sign_demanding g _).bind fun _ => inside.bind fun _ => (sign_required trivial _).bind
        fun _ => .pure _).orElse (bareLiteral_demanding (fun _ _ => trivial) g)
  induction depth with
  | zero => exact forms _ (.reject trivial)
  | succ depth ih => exact forms _ (ih.separatedOrNone (sign_demanding g _))

/-- A literal is refused for good over a requirement, or it is declined, and then it is missed
behind the blanks. -/
theorem literal_eq_error (h : g.literal wantsDate depth text = .error failure) :
    (∃ what, failure.expected = some (.requirement what)) ∨
      ((g.literal wantsDate depth).Declines text ∧ failure = ⟨skipBlanks text, none, false⟩) := by
  cases final : failure.committed with
  | true =>
    rcases literal_demanding g wantsDate depth h with ⟨soft, _⟩ | ⟨what, _, missed⟩
    · rw [final] at soft
      cases soft
    · exact .inl ⟨what, missed⟩
  | false =>
    right
    refine ⟨⟨failure, h, final⟩, ?_⟩
    have last : ∀ {α : Type} {p q : Parser α} {text : List Char},
        (p.orElse q) text = .error failure → q text = .error failure := by
      intro α p q text failed
      rcases orElse_eq_error failed with ⟨_, final'⟩ | ⟨_, failed⟩
      · rw [final] at final'
        cases final'
      · exact failed
    -- What is tried last is the word for the present.
    rw [literal_apply] at h
    have now := last (last (last (last (last (last h)))))
    rcases bind_eq_error.mp now with failed | ⟨_, _, _, failed⟩
    · rw [symbol_eq] at failed
      rw [pick_eq_error failed, skipBlanks_skipBlanks]
    · cases failed

/-! ### How right operands fail -/

/-- A right operand fails as an operand does, for good unless the grammar is lenient. -/
theorem rightOperand_eq_error {p : Parser Trigger} (h : g.rightOperand p text = .error failure) :
    ∃ inner, p text = .error inner ∧ failure = { inner with committed := !g.lenient } := by
  unfold rightOperand at h
  cases lenient : g.lenient with
  | false =>
    rw [lenient] at h
    exact commit_eq_error h
  | true =>
    rw [lenient] at h
    exact uncommit_eq_error h

/-! ### Where a literal is declined -/

/-- A day has a digit, whatever comes after it. -/
private theorem exists_shortNumber_of_day {day : List Char} {d : Nat}
    (day_ : ShortNumber 1 2 day d) (more : List Char) :
    ∃ n rest, shortNumber 1 2 (day ++ more) = .ok (n, rest) := by
  unfold shortNumber
  cases read : runBetween 1 2 Char.isDigit (day ++ more) with
  | ok result => exact ⟨_, _, bind_of_ok (show _ = Except.ok (result.1, result.2) from read)⟩
  | error failure =>
    -- The first digit alone would do.
    unfold runBetween at read
    dsimp only at read
    split at read <;> cases read
    rename_i short
    obtain ⟨least, _, digits, _⟩ := day_
    cases day with
    | nil => cases least
    | cons c day =>
      rw [List.cons_append, List.take_succ_cons, List.takeWhile_cons_of_pos (digits c (by simp)),
        List.length_cons] at short
      omega

/-- Whatever comes after the day of a date with separators, a time of day may be left out. -/
private theorem dashedDate_not_declines {year month day : List Char} {sep sep' : Char} {y m d : Nat}
    (year_ : ShortNumber 4 4 year y) (sep_ : sep = '-' ∨ sep = '/')
    (month_ : ShortNumber 1 2 month m) (sep'_ : sep' = '-' ∨ sep' = '/')
    (day_ : ShortNumber 1 2 day d) (more : List Char) :
    ¬dashedDate.Declines (year ++ sep :: (month ++ sep' :: (day ++ more))) := by
  intro no
  obtain ⟨n, rest, hday⟩ := exists_shortNumber_of_day day_ more
  replace no := ((no.of_bind_ok (shortNumber_cons year_ (isDigit_separator sep_))).of_bind_ok
    (separator_of sep_)).of_bind_ok (shortNumber_cons month_ (isDigit_separator sep'_))
  replace no := (no.of_bind_ok (separator_of sep'_)).of_bind_ok hday
  exact Firm.bind (Firm.optional _) (fun _ => .pure _) _ no

/-- A Chinese date needs no time of day either. -/
private theorem chineseDate_not_declines {year month day : List Char} {y m d : Nat}
    (year_ : ShortNumber 4 4 year y) (month_ : ShortNumber 1 2 month m)
    (day_ : ShortNumber 1 2 day d) (more : List Char) :
    ¬chineseDate.Declines (year ++ '年' :: (month ++ '月' :: (day ++ '日' :: more))) := by
  intro no
  have sign : ∀ {c : Char} {rest : List Char}, char c (c :: rest) = .ok (c, rest) :=
    char_eq_ok.mpr ⟨rfl, rfl⟩
  replace no := ((no.of_bind_ok (shortNumber_cons year_ (by decide))).of_bind_ok
    sign).of_bind_ok (shortNumber_cons month_ (by decide))
  replace no := ((no.of_bind_ok sign).of_bind_ok
    (shortNumber_cons day_ (by decide))).of_bind_ok sign
  exact Firm.bind (Firm.optional _) (fun _ => .pure _) _ no

/-- What starts like a date is read as one, or the calendar does not have it. -/
private theorem not_declines_of_dateText {written : List Char} {time : LocalTime}
    (h : DateText written time) (rest : List Char) : ¬g.date.Declines (written ++ rest) := by
  rintro ⟨failure, failed, soft⟩
  rcases date_eq_error failed with unread | unknown
  · obtain ⟨noDashed, noChinese⟩ := Declines.of_orElse ⟨failure, unread, soft⟩
    cases h with
    | dashed year_ sep_ month_ sep'_ day_ =>
      simp only [List.append_assoc, List.cons_append] at noDashed
      exact dashedDate_not_declines year_ sep_ month_ sep'_ day_ _ noDashed
    | dashedTime year_ sep_ month_ sep'_ day_ _ =>
      simp only [List.append_assoc, List.cons_append] at noDashed
      exact dashedDate_not_declines year_ sep_ month_ sep'_ day_ _ noDashed
    | chinese year_ month_ day_ =>
      simp only [List.append_assoc, List.cons_append] at noChinese
      exact chineseDate_not_declines year_ month_ day_ _ noChinese
    | chineseTime year_ month_ day_ _ =>
      simp only [List.append_assoc, List.cons_append] at noChinese
      exact chineseDate_not_declines year_ month_ day_ _ noChinese
  · exact Firm.reject _ _ ⟨failure, unknown, soft⟩

private theorem not_declines_of_quote {mark : Char} (mark_ : mark = '\'' ∨ mark = '"')
    (rest : List Char) : ¬(g.quotedLiteral wantsDate).Declines (mark :: rest) := by
  intro no
  have opening : satisfying (fun c => c = '\'' || c = '"') (mark :: rest) = .ok (mark, rest) :=
    satisfying_eq_ok.mpr ⟨rfl, by simpa using mark_⟩
  rcases no.of_bind with no | ⟨string, mid, _, failure, failed, _⟩
  · -- Behind the opening quote the closing one is required.
    obtain ⟨failure, failed, soft⟩ := no.of_bind_ok opening
    dsimp only at failed
    split at failed <;> cases failed
    cases soft
  · cases failed

private theorem not_declines_of_leftBracket (hg : g.lexicon = table.lexicon)
    (legible : table.Legible) {items : Parser (List Value)} (firm : Firm items)
    (opening : table.Stands (.punctuation .leftBracket) text) :
    ¬(g.listOf items).Declines text := by
  intro no
  rcases no.of_bind with no | ⟨_, mid, _, no⟩
  · exact not_stands_of_sign hg legible no opening
  · exact firm.bind (fun _ => (Firm.required _ _).bind fun _ => .pure _) _ no

private theorem not_declines_of_relative (hg : g.lexicon = table.lexicon)
    (legible : table.Legible) {run after : List Char} {unit : TimeUnit} (digits : Digits run)
    (bounded : numberOf run ≤ maxAmount) (unit_ : table.Stands (.unit unit) after) :
    ¬g.relative.Declines (run ++ after) := by
  intro no
  have noDigit : Ahead (Char.isDigit · = false) after :=
    (unit_.choose_spec.plain legible).imp fun _ => isDigit_of_startsNoToken
  have noUnit := timeUnit_declines_of_relative digits noDigit bounded no
  rw [timeUnit_eq] at noUnit
  exact not_stands_of_declines hg legible noUnit rfl unit_

private theorem not_declines_of_integer {negative : Bool} {whole : List Char}
    (digits : Digits whole) (boundary : Ahead (isIdent · = false) rest)
    (noPlaces : ∀ c more, rest = '.' :: c :: more → c.isDigit = false) :
    ¬number.Declines (signText negative ++ whole ++ rest) := by
  intro no
  obtain ⟨sign, _, hsign⟩ := @sign_of_digits rest negative _ digits
  have places : (char '.' >>= fun _ => run Char.isDigit).Declines rest := by
    by_cases point : ∃ more, rest = '.' :: more
    · obtain ⟨more, rfl⟩ := point
      refine Declines.after (char_eq_ok.mpr ⟨rfl, rfl⟩) (run_declines ?_)
      cases more with
      | nil => exact ahead_nil _
      | cons c more => exact ahead_cons.mpr (noPlaces c more rfl)
    · refine Declines.bind (char_declines ?_)
      cases rest with
      | nil => exact ahead_nil _
      | cons c more =>
        rw [ahead_cons]
        rintro rfl
        exact point ⟨more, rfl⟩
  have noDigit : Ahead (Char.isDigit · = false) rest :=
    boundary.imp fun _ => isDigit_eq_false_of_isIdent
  have read := run_eq_ok.mpr ⟨digits.1, rfl, digits.2, noDigit⟩
  replace no := (((no.of_bind_ok hsign).of_bind_ok read).of_bind_ok places.optional).of_bind_ok
    (notBefore_eq_ok.mpr ⟨rfl, boundary⟩)
  exact Firm.ite (.pure _) (.reject _) _ no

private theorem not_declines_of_decimal {negative : Bool} {whole places : List Char}
    (digits : Digits whole) (more : Digits places) (boundary : Ahead (isIdent · = false) rest) :
    ¬number.Declines (signText negative ++ whole ++ '.' :: (places ++ rest)) := by
  intro no
  have noDigit : Ahead (Char.isDigit · = false) rest :=
    boundary.imp fun _ => isDigit_eq_false_of_isIdent
  have point : Ahead (Char.isDigit · = false) ('.' :: (places ++ rest)) :=
    ahead_cons.mpr (by decide)
  obtain ⟨sign, _, hsign⟩ := @sign_of_digits ('.' :: (places ++ rest)) negative _ digits
  have hplaces : (char '.' >>= fun _ => run Char.isDigit) ('.' :: (places ++ rest))
      = .ok (places, rest) :=
    (bind_of_ok (char_eq_ok.mpr ⟨rfl, rfl⟩)).trans (run_eq_ok.mpr ⟨more.1, rfl, more.2, noDigit⟩)
  have read := run_eq_ok.mpr ⟨digits.1, rfl, digits.2, point⟩
  replace no := (((no.of_bind_ok hsign).of_bind_ok read).of_bind_ok
    (optional_of_ok hplaces)).of_bind_ok (notBefore_eq_ok.mpr ⟨rfl, boundary⟩)
  exact Firm.pure _ _ no

/-- Where a literal is declined, nothing has the form of one. -/
theorem not_literalForm_of_declines (hg : g.lexicon = table.lexicon) (legible : table.Legible)
    (no : (g.literal wantsDate depth).Declines text) :
    ¬table.LiteralForm (skipBlanks text) := by
  have firm : Firm (deeper (itemsOf g wantsDate) depth) := by
    cases depth with
    | zero => exact .reject _
    | succ depth => exact .separatedOrNone _ _
  have body : (literalBody g wantsDate depth).Declines (skipBlanks text) := by
    unfold Declines at no
    rwa [literal_apply] at no
  obtain ⟨noQuote, no⟩ := body.of_orElse
  obtain ⟨noList, no⟩ := no.of_orElse
  obtain ⟨noDate, no⟩ := no.of_orElse
  obtain ⟨noRelative, no⟩ := no.of_orElse
  obtain ⟨noNumber, no⟩ := no.of_orElse
  obtain ⟨noTruth, noNow⟩ := no.of_orElse
  generalize skipBlanks text = text at *
  intro form
  cases form with
  | string mark_ => exact not_declines_of_quote mark_ _ noQuote
  | list opening => exact not_declines_of_leftBracket hg legible firm opening noList
  | date date_ => exact not_declines_of_dateText date_ _ noDate.of_map
  | relative digits bounded unit_ =>
    exact not_declines_of_relative hg legible digits bounded unit_ noRelative.of_map
  | integer digits boundary noPlaces =>
    exact not_declines_of_integer digits boundary noPlaces noNumber
  | decimal digits more boundary => exact not_declines_of_decimal digits more boundary noNumber
  | truth token =>
    have noTruth := noTruth.of_map
    rw [truth_eq] at noTruth
    exact not_stands_of_declines hg legible noTruth rfl token
  | now token =>
    rcases noNow.of_bind with no | ⟨_, _, _, failure, failed, _⟩
    · rw [symbol_eq] at no
      exact not_stands_of_declines hg legible no rfl token
    · cases failed

end Grammar

end ForumModeration
