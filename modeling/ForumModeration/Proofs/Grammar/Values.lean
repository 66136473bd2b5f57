import ForumModeration.Proofs.Grammar.Soundness
import ForumModeration.Proofs.Grammar.Tables

/-!
# `ForumModeration.Proofs.Grammar.Values`: literals are read as what they are

A literal is tried as a string, a list, a date, a relative time, a number, a truth
value and the present, in this order. For every form of literal this file shows that
the earlier trials decline it and that its own reader takes all of it, provided that
something follows which may follow a value (`Ends`).

The rules have the form of `Costs`: `Costs.string`, `Costs.date`, `Costs.relative`,
`Costs.number`, `Costs.truth`, `Costs.present`. Lists are in `Levels.lean`.
-/

set_option autoImplicit false

namespace ForumModeration.Grammar

open Text ForumModeration.Parser

/-- What may follow a value: after blanks the text is over, or a connective, a
separator or a closing bracket stands there. -/
def Ends (table : TokenTable) (rest : List Char) : Prop :=
  skipBlanks rest = [] ∨
    ∃ symbol after, symbol.isEnder = true ∧ table.Token symbol rest after

section

variable {α : Type} {g : Grammar} {table : TokenTable} {wantsDate : Bool}
  {text rest written : List Char} {value : Value} {wanted : Symbol → Option α}

/-! ### What may follow -/

theorem Ends.detached (legible : table.Legible) (h : Ends table rest) : Detached rest := by
  rcases h with nothing | ⟨symbol, after, ender, token⟩
  · rw [Detached, nothing]
    exact ahead_nil _
  · obtain ⟨c, tail, start, plain, noTime, _⟩ := token.ahead legible
    rw [Detached, start, ahead_cons]
    refine ⟨plain, ?_⟩
    rintro rfl
    exact noTime ender (by decide)

/-- Nothing is picked after a value but what may follow it. -/
theorem Ends.pick_declines (hg : g.lexicon = table.lexicon) (legible : table.Legible)
    (h : Ends table rest) (tried : ∀ symbol : Symbol, symbol.isEnder = true → ∀ t,
      (wanted t).isSome = true → symbol.triedAt t = true) : (g.pick wanted).Declines rest := by
  rcases h with nothing | ⟨symbol, after, ender, token⟩
  · refine pick_declines_ahead hg legible ?_
    rw [nothing]
    exact ahead_nil _
  · exact pick_declines_at hg legible token (tried symbol ender)

theorem Ends.timeUnit_declines (hg : g.lexicon = table.lexicon) (legible : table.Legible)
    (h : Ends table rest) : g.timeUnit.Declines rest := by
  rw [timeUnit_eq]
  refine h.pick_declines hg legible ?_
  intro symbol ender t want
  cases t <;> first | exact ender | cases want

theorem Ends.ago_declines (hg : g.lexicon = table.lexicon) (legible : table.Legible)
    (h : Ends table rest) : (g.symbol .ago).Declines rest := by
  rw [symbol_eq]
  refine h.pick_declines hg legible ?_
  intro symbol ender t want
  rw [eq_of_exactly want]
  exact ender

/-! ### Trials that decline -/

/-- A string starts with a quote. -/
theorem quotedLiteral_declines (h : Ahead (fun c => c ≠ '\'' ∧ c ≠ '"') text) :
    (g.quotedLiteral wantsDate).Declines text := by
  refine Declines.bind (Declines.bind (satisfying_declines ?_))
  exact h.imp fun c hc => by simp [hc.1, hc.2]

theorem ne_quote_of_isDigit {c : Char} (digit : c.isDigit = true) :
    c ≠ '\'' ∧ c ≠ '"' := by
  constructor <;> (rintro rfl; revert digit; decide)

/-- A date starts with a digit. -/
theorem date_declines_ahead (h : Ahead (Char.isDigit · = false) text) : g.date.Declines text := by
  have year : (shortNumber 4 4).Declines text := shortNumber_declines (by decide) h
  have both : (orElse dashedDate chineseDate).Declines text :=
    Declines.orElse (Declines.bind year) (Declines.bind year)
  obtain ⟨failure, failed, soft⟩ := both
  exact ⟨failure, date_of_error failed, soft⟩

/-- A relative time starts with a digit. -/
theorem relative_declines_ahead (h : Ahead (Char.isDigit · = false) text) :
    g.relative.Declines text :=
  Declines.bind (run_declines h)

/-- A character that may start a token does not go on with a date. -/
theorem noDate_of_plain {c : Char} (plain : startsNoToken c = false) :
    c.isDigit = false ∧ c ≠ '-' ∧ c ≠ '/' ∧ c ≠ '年' :=
  ⟨isDigit_of_startsNoToken plain, ne_of_startsNoToken plain (by decide),
    ne_of_startsNoToken plain (by decide), ne_of_startsNoToken plain (by decide)⟩

/-- Digits without a unit behind them are no relative time. -/
theorem relative_declines {run : List Char} (digits : Digits run)
    (ends : Ahead (Char.isDigit · = false) rest) (noUnit : g.timeUnit.Declines rest) :
    g.relative.Declines (run ++ rest) := by
  refine Declines.after (run_eq_ok.mpr ⟨digits.1, rfl, digits.2, ends⟩) ?_
  by_cases large : maxAmount < numberOf run
  · rw [if_pos large]
    exact ⟨_, rfl, rfl⟩
  · rw [if_neg large]
    exact Declines.bind noUnit

/-- Digits with a unit behind them, and perhaps a word behind that, are taken as a relative time.
It is refused for good if it cannot be counted back. -/
theorem relative_of_parts {run after mid : List Char} {unit : TimeUnit} {word : Option Unit}
    (digits : Digits run) (bounded : numberOf run ≤ maxAmount)
    (ends : Ahead (Char.isDigit · = false) after) (unit_ : g.timeUnit after = .ok (unit, mid))
    (word_ : optional (g.symbol .ago) mid = .ok (word, rest)) :
    g.relative (run ++ after) = (g.backFromNow? unit (numberOf run)).elim
      (reject .timeInRange rest) (fun instant => .ok (instant, rest)) := by
  unfold Grammar.relative
  rw [bind_of_ok (run_eq_ok.mpr ⟨digits.1, rfl, digits.2, ends⟩),
    if_neg (Nat.not_lt.mpr bounded), bind_of_ok unit_, bind_of_ok word_]
  cases g.backFromNow? unit (numberOf run) <;> rfl

/-- No other literal but a word starts where a token stands. -/
theorem nonWord_declines (g : Grammar) (wantsDate : Bool) (legible : table.Legible)
    {symbol : Symbol} (token : table.Token symbol text rest) :
    (g.quotedLiteral wantsDate).Declines (skipBlanks text) ∧ g.date.Declines (skipBlanks text) ∧
      g.relative.Declines (skipBlanks text) ∧ number.Declines (skipBlanks text) := by
  obtain ⟨c, tail, start, plain, _⟩ := token.ahead legible
  have digit := isDigit_of_startsNoToken plain
  have ne : ∀ d, startsNoToken d = true → c ≠ d := fun d => ne_of_startsNoToken plain
  -- A token starts with no digit, sign or quote.
  rw [start]
  exact ⟨quotedLiteral_declines (ahead_cons.mpr ⟨ne _ (by decide), ne _ (by decide)⟩),
    date_declines_ahead (ahead_cons.mpr digit), relative_declines_ahead (ahead_cons.mpr digit),
    number_declines (ahead_cons.mpr ⟨digit, ne _ (by decide)⟩)⟩

/-- No list starts with a digit or a sign, which start no token. -/
theorem leftBracket_declines_ahead (hg : g.lexicon = table.lexicon) (legible : table.Legible)
    {c : Char} {tail : List Char} (start : skipBlanks text = c :: tail)
    (special : startsNoToken c = true) : (g.sign .leftBracket).Declines (skipBlanks text) := by
  rw [sign_eq]
  refine pick_declines_ahead hg legible ?_
  rw [skipBlanks_skipBlanks, start]
  exact ahead_cons.mpr special

/-- A closing bracket is no literal, so a list may be empty. -/
theorem literal_declines_rightBracket (hg : g.lexicon = table.lexicon) (legible : table.Legible)
    (token : table.Token (.punctuation .rightBracket) text rest) (depth : Nat) :
    (g.literal wantsDate depth).Declines text := by
  obtain ⟨quoted, date, relative, number⟩ := nonWord_declines g wantsDate legible token
  have bracket : (g.sign .leftBracket).Declines (skipBlanks text) :=
    symbol_declines_at hg legible (token.skipped legible) rfl
  have truth : g.truth.Declines (skipBlanks text) :=
    truth_declines_at hg legible (token.skipped legible) fun _ => rfl
  have now : (g.symbol .now).Declines (skipBlanks text) :=
    symbol_declines_at hg legible (token.skipped legible) rfl
  have body : (literalBody g wantsDate depth).Declines (skipBlanks text) :=
    quoted.orElse (Declines.orElse (Declines.bind bracket) (date.map.orElse (relative.map.orElse
      (number.orElse (truth.map.orElse (Declines.bind now))))))
  unfold Declines
  rw [literal_apply]
  exact body

/-! ### Strings -/

theorem readBody_of_quotedBody {mark : Char} {body string : List Char} (noEscape : mark ≠ '\\')
    (h : QuotedBody mark body string) :
    Quoted.readBody mark (body ++ mark :: rest) = some (string, rest) := by
  induction h with
  | nil =>
    cases rest with
    | nil => simp [Quoted.readBody]
    | cons d rest => simp [Quoted.readBody]
  | escape c _ ih =>
    rw [List.cons_append, List.cons_append, Quoted.readBody, if_neg (Ne.symm noEscape),
      if_pos rfl, ih]
    rfl
  | @plain c written string noMark noEscape more ih =>
    obtain ⟨d, tail, split⟩ : ∃ d tail, written ++ mark :: rest = d :: tail := by
      cases written with
      | nil => exact ⟨mark, rest, rfl⟩
      | cons d written => exact ⟨d, written ++ mark :: rest, rfl⟩
    rw [List.cons_append, split, Quoted.readBody, if_neg noMark, if_neg noEscape, ← split, ih]
    rfl

namespace Costs

/-- A string is read up to the quote that closes it. -/
theorem string {mark : Char} {body string : List Char}
    (start : skipBlanks text = mark :: (body ++ mark :: rest)) (mark_ : mark = '\'' ∨ mark = '"')
    (body_ : QuotedBody mark body string)
    (means : StringMeans g.now.offset wantsDate string value) :
    Costs (g.literal wantsDate) 0 text value rest := by
  have noEscape : mark ≠ '\\' := by rcases mark_ with rfl | rfl <;> decide
  have opening : satisfying (fun c => c = '\'' || c = '"') (mark :: (body ++ mark :: rest))
      = .ok (mark, body ++ mark :: rest) := by
    refine satisfying_eq_ok.mpr ?_
    exact ⟨rfl, by simpa using mark_⟩
  have inside : Grammar.quoted (mark :: (body ++ mark :: rest)) = .ok (string, rest) := by
    refine (bind_of_ok opening).trans ?_
    simp only [readBody_of_quotedBody noEscape body_]
  refine quoted ?_ ?_
  · unfold quotedLiteral
    rw [start, bind_of_ok inside, stringMeans_iff.mpr means]
    rfl
  · rw [start]
    simp only [List.length_cons, List.length_append]
    omega

/-- A literal that starts with a digit or a sign is neither a string nor a list. -/
private theorem bare_of_special (hg : g.lexicon = table.lexicon) (legible : table.Legible)
    {c : Char} {tail : List Char} (start : skipBlanks text = c :: tail)
    (special : startsNoToken c = true) (noQuote : c ≠ '\'' ∧ c ≠ '"')
    (read : g.bareLiteral (skipBlanks text) = .ok (value, rest))
    (shorter : rest.length ≤ (skipBlanks text).length) :
    Costs (g.literal wantsDate) 0 text value rest := by
  refine bare ?_ (leftBracket_declines_ahead hg legible start special) read shorter
  rw [start]
  exact quotedLiteral_declines (ahead_cons.mpr noQuote)

/-- A date is read, as strings and lists start otherwise. -/
theorem date (hg : g.lexicon = table.lexicon) (legible : table.Legible) {instant : Instant}
    (start : skipBlanks text = written ++ rest)
    (date_ : AbsoluteDate g.now.offset written instant) (ends : Detached rest) :
    Costs (g.literal wantsDate) 0 text (.instant instant) rest := by
  obtain ⟨c, tail, split, digit⟩ := date_.digit
  have start' : skipBlanks text = c :: (tail ++ rest) := by rw [start, split, List.cons_append]
  refine bare_of_special hg legible start' (startsNoToken_of_isDigit digit)
    (ne_quote_of_isDigit digit) ?_ ?_
  · rw [start]
    exact orElse_of_ok (map_eq_ok.mpr ⟨instant, date_of_absoluteDate date_ ends, rfl⟩)
  · rw [start, List.length_append]
    omega

/-- A relative time is read, as its unit keeps it from being a date. -/
theorem relative (hg : g.lexicon = table.lexicon) (legible : table.Legible) {run after : List Char}
    {unit : TimeUnit} {instant : Instant} (start : skipBlanks text = run ++ after)
    (digits : Digits run) {mid : List Char} (unit_ : table.Token (.unit unit) after mid)
    (read : g.relative (run ++ after) = .ok (instant, rest))
    (shorter : rest.length ≤ after.length) :
    Costs (g.literal wantsDate) 0 text (.instant instant) rest := by
  obtain ⟨c, tail, first, digit⟩ := digits.start after
  have start' : skipBlanks text = c :: tail := start.trans first
  have noDate := date_declines (g := g) digits.2
    ((unit_.plain legible).imp fun _ => noDate_of_plain)
  refine bare_of_special hg legible start' (startsNoToken_of_isDigit digit)
    (ne_quote_of_isDigit digit) ?_ ?_
  · rw [start]
    refine orElse_eq_ok.mpr (.inr ⟨noDate.map, ?_⟩)
    exact orElse_of_ok (map_eq_ok.mpr ⟨instant, read, rfl⟩)
  · rw [start, List.length_append]
    omega

/-- Digits are read as a number if neither a separator of dates nor a unit stands behind them. -/
private theorem number_of_digits (hg : g.lexicon = table.lexicon) (legible : table.Legible)
    {run after : List Char} (digits : Digits run) (start : skipBlanks text = run ++ after)
    (next : Ahead (fun c => c.isDigit = false ∧ c ≠ '-' ∧ c ≠ '/' ∧ c ≠ '年') after)
    (noUnit : g.timeUnit.Declines after) (read : Grammar.number (run ++ after) = .ok (value, rest))
    (shorter : rest.length ≤ after.length) :
    Costs (g.literal wantsDate) 0 text value rest := by
  obtain ⟨c, tail, first, digit⟩ := digits.start after
  have start' : skipBlanks text = c :: tail := start.trans first
  have noDate := date_declines (g := g) digits.2 next
  have noRelative := relative_declines digits (next.imp fun _ hc => hc.1) noUnit
  refine bare_of_special hg legible start' (startsNoToken_of_isDigit digit)
    (ne_quote_of_isDigit digit) ?_ ?_
  · rw [start]
    refine orElse_eq_ok.mpr (.inr ⟨noDate.map, orElse_eq_ok.mpr (.inr ⟨noRelative.map, ?_⟩)⟩)
    exact orElse_of_ok read
  · rw [start, List.length_append]
    omega

/-- Behind a sign neither dates nor relative times are tried. -/
private theorem number_of_sign (hg : g.lexicon = table.lexicon) (legible : table.Legible)
    {tail : List Char} (start : skipBlanks text = '-' :: tail)
    (read : Grammar.number ('-' :: tail) = .ok (value, rest))
    (shorter : rest.length ≤ ('-' :: tail).length) :
    Costs (g.literal wantsDate) 0 text value rest := by
  have noDigit : Ahead (Char.isDigit · = false) ('-' :: tail) := ahead_cons.mpr (by decide)
  refine bare_of_special hg legible start (by decide) (by decide) ?_ ?_
  · rw [start]
    refine orElse_eq_ok.mpr (.inr ⟨(date_declines_ahead noDigit).map, ?_⟩)
    refine orElse_eq_ok.mpr (.inr ⟨(relative_declines_ahead noDigit).map, ?_⟩)
    exact orElse_of_ok read
  · rwa [start]

private theorem timeUnit_declines_point (hg : g.lexicon = table.lexicon) (legible : table.Legible)
    (tail : List Char) : g.timeUnit.Declines ('.' :: tail) := by
  rw [timeUnit_eq]
  refine pick_declines_ahead hg legible ?_
  rw [skipBlanks_eq_of_not_blank (by decide)]
  exact ahead_cons.mpr (by decide)

/-- A number is read, as neither a separator of dates nor a unit stands behind its
digits. -/
theorem number (hg : g.lexicon = table.lexicon) (legible : table.Legible)
    (start : skipBlanks text = written ++ rest) (number_ : NumberText written value)
    (ends : Ends table rest) (boundary : Ahead (isIdent · = false) rest) :
    Costs (g.literal wantsDate) 0 text value rest := by
  have loose := (ends.detached legible).ahead
  have follow : Ahead (fun c => isIdent c = false ∧ c ≠ '.') rest := by
    intro c hc
    exact ⟨boundary c hc, ne_of_startsNoToken (loose c hc).1 (by decide)⟩
  have next : Ahead (fun c => c.isDigit = false ∧ c ≠ '-' ∧ c ≠ '/' ∧ c ≠ '年') rest :=
    loose.imp fun _ hc => noDate_of_plain hc.1
  have read := number_of_numberText number_ follow
  have shorter : rest.length ≤ (written ++ rest).length := by
    rw [List.length_append]
    omega
  -- The sign decides whether dates and relative times are tried at digits at all.
  cases number_ with
  | @int negative whole n digits amount inRange =>
    cases negative with
    | true => exact number_of_sign hg legible start read shorter
    | false =>
      exact number_of_digits hg legible digits start next (ends.timeUnit_declines hg legible) read
        (Nat.le_refl _)
  | @float negative whole places digits more =>
    cases negative with
    | true => exact number_of_sign hg legible start read shorter
    | false =>
      have same : (signText false ++ whole ++ '.' :: places) ++ rest
          = whole ++ ('.' :: (places ++ rest)) := by
        simp only [signText, Bool.false_eq_true, if_false, List.nil_append, List.append_assoc,
          List.cons_append]
      rw [same] at start read
      refine number_of_digits hg legible digits start (ahead_cons.mpr (by decide))
        (timeUnit_declines_point hg legible _) read ?_
      simp only [List.length_cons, List.length_append]
      omega

/-- A truth value is read, as it is a word and starts no list. -/
theorem truth (hg : g.lexicon = table.lexicon) (legible : table.Legible) {b : Bool}
    (token : table.Token (.truth b) text rest) (read : g.truth text = .ok (b, rest)) :
    Costs (g.literal wantsDate) 0 text (.bool b) rest := by
  obtain ⟨quoted, date, relative, number⟩ := nonWord_declines g wantsDate legible token
  have bracket : (g.sign .leftBracket).Declines (skipBlanks text) :=
    symbol_declines_at hg legible (token.skipped legible) rfl
  rw [truth_eq, ← pick_skipBlanks, ← truth_eq] at read
  refine bare quoted bracket ?_ ?_
  · exact date.map.orElse_eq.trans (relative.map.orElse_eq.trans (number.orElse_eq.trans
      (orElse_of_ok (map_eq_ok.mpr ⟨b, read, rfl⟩))))
  · rw [truth_eq] at read
    exact (pick_length_lt hg read).le

/-- The word for the present is read, as it is no truth value and starts no list. -/
theorem present (hg : g.lexicon = table.lexicon) (legible : table.Legible)
    (token : table.Token .now text rest) (read : g.symbol .now text = .ok ((), rest)) :
    Costs (g.literal wantsDate) 0 text (.instant g.now) rest := by
  obtain ⟨quoted, date, relative, number⟩ := nonWord_declines g wantsDate legible token
  have bracket : (g.sign .leftBracket).Declines (skipBlanks text) :=
    symbol_declines_at hg legible (token.skipped legible) rfl
  have truth : g.truth.Declines (skipBlanks text) :=
    truth_declines_at hg legible (token.skipped legible) fun _ => rfl
  rw [symbol_eq, ← pick_skipBlanks, ← symbol_eq] at read
  refine bare quoted bracket ?_ ?_
  · refine date.map.orElse_eq.trans (relative.map.orElse_eq.trans (number.orElse_eq.trans
      (truth.map.orElse_eq.trans ?_)))
    rw [bind_of_ok read]
    rfl
  · rw [symbol_eq] at read
    exact (pick_length_lt hg read).le

end Costs

end

end ForumModeration.Grammar
