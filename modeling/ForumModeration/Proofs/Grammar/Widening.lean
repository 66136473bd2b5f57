import ForumModeration.Proofs.Grammar.Calls
import ForumModeration.Proofs.Grammar.Extension
import ForumModeration.Proofs.Grammar.Spans
import ForumModeration.Proofs.TokenTable

/-!
# `ForumModeration.Proofs.Grammar.Widening`: what one token more changes for readers

A grammar with one token more than another makes many trials that may end otherwise: a unit
is tried behind every number, a connective behind every operand. If the new token starts with
a character that no token of the old grammar starts with (`TokenTable.Fresh`), it can only
stand where none of the others does. Such a text is `Blocked` for the old grammar, and what
follows relates both grammars (`Widens`) by `Extends`, where the marks are the blocked texts.

Tokens come first (`Widens.pick`), and then literals without lists (`Widens.bareLiteral`). Among
these only relative times go back over something that they have read. Behind digits a new
unit may stand where the old grammar finds a number, or a token that is spelled with digits in
front. The former leaves a blocked text (`Widens.amounts`), and the latter is excluded
(`TokenTable.FreshAfterDigits`).
-/

set_option autoImplicit false

namespace ForumModeration

open Text

namespace TokenTable

/-- A character that a new token may start with. No token starts with it, in either letter
case, and neither does a number or a string. -/
structure Fresh (table : TokenTable) (first : Char) : Prop where
  noDigit : first.isDigit = false
  noMark : first ∉ ['-', '.', '\'', '"']
  unused : ∀ entry ∈ table.lexicon, entry.1.head?.all (fun c => c.toLower ≠ first.toLower) = true

/-- No token has the character right behind its digits, if it starts with any. -/
def FreshAfterDigits (table : TokenTable) (first : Char) : Prop :=
  ∀ entry ∈ table.lexicon,
    (entry.1.dropWhile Char.isDigit).head?.all (fun c => c.toLower ≠ first.toLower) = true

variable {table : TokenTable} {first c : Char}

/-- The character has these properties in the other case, too. -/
theorem Fresh.plain_of_same (fresh : table.Fresh first) (same : c.toLower = first.toLower) :
    c.isDigit = false ∧ c ≠ '-' ∧ c ≠ '.' ∧ c ≠ '\'' ∧ c ≠ '"' := by
  have others := fresh.noMark
  simp only [List.mem_cons, List.not_mem_nil, or_false, not_or] at others
  -- None of the characters is a letter, so each of them is the only one in its case.
  have ne : ∀ d : Char, ¬(0x41 ≤ d.toNat ∧ d.toNat ≤ 0x7A) → first ≠ d → c ≠ d := by
    rintro d noLetter ne rfl
    have lower : c.toLower = c := (toLower_eq_iff (by omega)).mpr ⟨rfl, by omega⟩
    rw [lower] at same
    exact ne ((toLower_eq_iff (by omega)).mp same.symm).1
  refine ⟨?_, ne _ (by decide) others.1, ne _ (by decide) others.2.1, ne _ (by decide) others.2.2.1,
    ne _ (by decide) others.2.2.2⟩
  rw [← isDigit_toLower, same, isDigit_toLower, fresh.noDigit]

end TokenTable

/-- Whether a symbol is a unit of time. -/
def Symbol.isUnit : Symbol → Bool
  | .unit _ => true
  | _ => false

/-- Whether a token for the symbol that starts with the character can be read where digits run
on into it. It has to be a unit, and otherwise the digits must be no number. -/
def Symbol.followsDigits (symbol : Symbol) (first : Char) : Bool :=
  symbol.isUnit && isIdent first

namespace Grammar

open ForumModeration.Parser

theorem isUnit_of_unitOf {t : Symbol} (want : (unitOf t).isSome = true) : t.isUnit = true := by
  cases t <;> first | rfl | cases want

/-! ### Blocked texts -/

/-- Digits at the start of a text are the same in lower case. -/
private theorem lower_dropDigits (text : List Char) :
    (lower text).dropWhile Char.isDigit = lower (text.dropWhile Char.isDigit) := by
  rw [lower, List.dropWhile_map]
  have same : Char.isDigit ∘ Char.toLower = Char.isDigit := funext isDigit_toLower
  rw [same]
  rfl

/-- A text starts, after blanks, with a character in either case. -/
def Starts (first : Char) (text : List Char) : Prop :=
  ∃ c tail, skipBlanks text = c :: tail ∧ c.toLower = first.toLower

/-- A token for the symbol that starts with the character can be read at a text, after blanks
or with digits in front that run on into it. -/
def Blocked (symbol : Symbol) (first : Char) (text : List Char) : Prop :=
  ∃ run c tail, skipBlanks text = run ++ c :: tail ∧ (∀ d ∈ run, d.isDigit = true) ∧
    c.toLower = first.toLower ∧ (run ≠ [] → symbol.followsDigits first = true)

variable {symbol : Symbol} {first : Char} {text rest : List Char}

theorem Starts.blocked (h : Starts first text) : Blocked symbol first text := by
  obtain ⟨c, tail, start, same⟩ := h
  exact ⟨[], c, tail, start, by simp, same, by simp⟩

theorem blocked_skipBlanks :
    Blocked symbol first (skipBlanks text) ↔ Blocked symbol first text := by
  unfold Blocked
  rw [skipBlanks_skipBlanks]

theorem isIdent_of_followsDigits (follows : symbol.followsDigits first = true) {c : Char}
    (same : c.toLower = first.toLower) : isIdent c = true := by
  rw [← isIdent_toLower, same, isIdent_toLower]
  exact (Bool.and_eq_true_iff.mp follows).2

theorem not_blocked_nil : ¬Blocked symbol first [] := by
  rintro ⟨run, c, tail, start, _⟩
  have := congrArg List.length start
  simp [skipBlanks] at this

/-- A blocked text starts with no literal, or with digits that run on into a letter. -/
theorem Blocked.cases {table : TokenTable} (fresh : table.Fresh first)
    (h : Blocked symbol first text) :
    Ahead (fun c => c.isDigit = false ∧ c ≠ '-' ∧ c ≠ '\'' ∧ c ≠ '"') text ∨
      ∃ run c tail, text = run ++ c :: tail ∧ Digits run ∧ isIdent c = true ∧
        c.toLower = first.toLower := by
  obtain ⟨run, c, tail, start, digits, same, follows⟩ := h
  cases text with
  | nil => exact .inl (ahead_nil _)
  | cons d text =>
    by_cases blank : isBlank d = true
    · left
      have plain := startsNoToken_of_isBlank blank
      rw [ahead_cons]
      exact ⟨isDigit_of_startsNoToken plain, ne_of_startsNoToken plain (by decide),
        ne_of_startsNoToken plain (by decide), ne_of_startsNoToken plain (by decide)⟩
    · rw [skipBlanks_eq_of_not_blank (by simpa using blank)] at start
      by_cases empty : run = []
      · left
        rw [empty, List.nil_append, List.cons.injEq] at start
        obtain ⟨digit, minus, _, quote, quote'⟩ := fresh.plain_of_same same
        rw [start.1, ahead_cons]
        exact ⟨digit, minus, quote, quote'⟩
      · exact .inr ⟨run, c, tail, start, ⟨empty, digits⟩,
          isIdent_of_followsDigits (follows empty) same, same⟩

/-- A reader extends another one, and blocked texts are the marks on both sides. -/
abbrev Tracks {α : Type} (symbol : Symbol) (first : Char) (q p : Parser α) : Prop :=
  Extends (Blocked symbol first) (Blocked symbol first) q p

/-! ### Grammars with one token more -/

/-- The second grammar has one token more than the first, which reads a table strictly. The
token starts with a character that is fresh. -/
structure Widens (table : TokenTable) (symbol : Symbol) (first : Char) (g g' : Grammar) : Prop where
  lexicon : g.lexicon = table.lexicon
  more : ∃ tail, OneMore (first :: tail, symbol) g.lexicon g'.lexicon
  now : g'.now = g.now
  strict : g.lenient = false
  strict' : g'.lenient = false
  fresh : table.Fresh first
  afterDigits : symbol.followsDigits first = true → table.FreshAfterDigits first

namespace Widens

variable {table : TokenTable} {g g' : Grammar} {α : Type} {wanted : Symbol → Option α}
  {after : List Char → Prop}

/-- Behind digits, no token of the old table has the character, nor in front. -/
private theorem unused (widens : Widens table symbol first g g') {entry : List Char × Symbol}
    (mem : entry ∈ table.lexicon) {run written : List Char} {c : Char}
    (digits : ∀ d ∈ run, d.isDigit = true) (follows : run ≠ [] → symbol.followsDigits first = true)
    (same : c.toLower = first.toLower) : lower (run ++ c :: written) ≠ lower entry.1 := by
  intro spelled
  -- A token that starts with the character starts with its digits as well, having none.
  have head : (entry.1.dropWhile Char.isDigit).head?.all
      (fun c => c.toLower ≠ first.toLower) = true := by
    by_cases empty : run = []
    · rw [empty, List.nil_append, lower_cons] at spelled
      cases token : entry.1 with
      | nil => rfl
      | cons d more =>
        rw [token] at spelled
        have unused := widens.fresh.unused entry mem
        rw [token] at unused
        have letter : c.toLower = d.toLower := (List.cons.inj spelled).1
        simp only [List.head?_cons, Option.all_some, decide_eq_true_eq] at unused
        exact absurd (letter.symm.trans same) unused
    · exact widens.afterDigits (follows empty) entry mem
  have left : lower (entry.1.dropWhile Char.isDigit) = c.toLower :: lower written := by
    rw [← lower_dropDigits, ← spelled, lower_dropDigits, List.dropWhile_append_of_pos digits,
      List.dropWhile_cons_of_neg (by simp [(widens.fresh.plain_of_same same).1]), lower_cons]
  cases dropped : entry.1.dropWhile Char.isDigit with
  | nil =>
    rw [dropped] at left
    cases left
  | cons e more =>
    rw [dropped] at left head
    simp only [List.head?_cons, Option.all_some, decide_eq_true_eq] at head
    exact head ((List.cons.inj left).1.trans same)

/-- A token of digits alone runs on into what follows. -/
private theorem not_digits {entry : List Char × Symbol} (nonempty : entry.1 ≠ [])
    {written more tail : List Char} {c : Char} (spelled : lower written = lower entry.1)
    (digits : ∀ d ∈ written ++ more, d.isDigit = true) (ident : isIdent c = true) :
    ¬RespectsBoundary entry.1 (more ++ c :: tail) := by
  intro boundary
  obtain ⟨d, last⟩ := Option.isSome_iff_exists.mp (List.getLast?_isSome.mpr nonempty)
  obtain ⟨e, last', case⟩ := exists_getLast?_of_lower spelled last
  have digit := digits e (List.mem_append_left _ (List.mem_of_getLast? last'))
  have ends : entry.1.getLast?.any isIdent = true := by
    rw [last, Option.any_some, ← isIdent_toLower, ← case, isIdent_toLower]
    exact isIdent_of_isDigit digit
  have next := boundary ends
  cases more with
  | nil =>
    rw [List.nil_append, ahead_cons, ident] at next
    cases next.1
  | cons f more =>
    rw [List.cons_append, ahead_cons, isIdent_of_isDigit (digits f (by simp))] at next
    cases next.1

/-- No token of the old table stands at a blocked text. -/
theorem missing (widens : Widens table symbol first g g') (blocked : Blocked symbol first text)
    {entry : List Char × Symbol} (mem : entry ∈ g.lexicon) :
    afterToken? entry.1 (skipBlanks text) = none := by
  obtain ⟨run, c, tail, start, digits, same, follows⟩ := blocked
  have ident : run ≠ [] → isIdent c = true :=
    fun run_ => isIdent_of_followsDigits (follows run_) same
  rw [widens.lexicon] at mem
  have nonempty : entry.1 ≠ [] := (TokenTable.exists_entry mem).1
  by_contra stands
  obtain ⟨rest, stands⟩ := Option.ne_none_iff_exists'.mp stands
  obtain ⟨⟨written, split, spelled⟩, boundary⟩ := afterToken?_eq_some_iff.mp stands
  have written_ : written ≠ [] := by
    rintro rfl
    exact nonempty (List.map_eq_nil_iff.mp spelled.symm)
  rw [start] at split
  rcases List.append_eq_append_iff.mp split with ⟨more, rfl, rest_⟩ | ⟨more, rfl, rfl⟩
  · cases more with
    | nil =>
      rw [List.append_nil] at spelled written_
      have boundary : RespectsBoundary entry.1 ([] ++ c :: tail) := rest_ ▸ boundary
      exact not_digits nonempty spelled (by rwa [List.append_nil]) (ident written_) boundary
    | cons d more =>
      obtain ⟨rfl, rfl⟩ := List.cons.inj rest_
      exact widens.unused mem digits follows same spelled
  · refine not_digits nonempty spelled digits (ident ?_) boundary
    exact List.append_ne_nil_of_left_ne_nil written_ more

theorem pick_declines (widens : Widens table symbol first g g')
    (blocked : Blocked symbol first text) : (g.pick wanted).Declines text :=
  Grammar.pick_declines fun _ mem _ => widens.missing blocked mem

theorem sign_declines (widens : Widens table symbol first g g')
    (blocked : Blocked symbol first text) (p : Punctuation) : (g.sign p).Declines text := by
  rw [sign_eq]
  exact widens.pick_declines blocked

/-- Where the new token is not wanted, both grammars pick the same. -/
theorem pick_eq_of_unwanted (widens : Widens table symbol first g g')
    (unwanted : wanted symbol = none) : g'.pick wanted = g.pick wanted := by
  obtain ⟨tail, more⟩ := widens.more
  funext text
  unfold Grammar.pick
  simp only
  rw [more.findSome?_eq]
  simp [unwanted]

/-- Both grammars pick the same, unless the text starts as the new token does, and that is
wanted. -/
theorem pick_eq (widens : Widens table symbol first g g') (wanted : Symbol → Option α)
    (text : List Char) :
    g'.pick wanted text = g.pick wanted text ∨
      Starts first text ∧ (wanted symbol).isSome = true := by
  obtain ⟨tail, more⟩ := widens.more
  cases want : wanted symbol with
  | none => exact .inl (congrFun (widens.pick_eq_of_unwanted want) text)
  | some a =>
    cases stands : afterToken? (first :: tail) (skipBlanks text) with
    | none =>
      left
      unfold Grammar.pick
      simp only
      rw [more.findSome?_eq]
      simp [stands]
    | some rest =>
      obtain ⟨⟨written, split, spelled⟩, _⟩ := afterToken?_eq_some_iff.mp stands
      cases written with
      | nil => cases spelled
      | cons c written =>
        exact .inr ⟨⟨c, written ++ rest, split, (List.cons.inj spelled).1⟩, rfl⟩

/-- A token of the old table that is read is read with the new token, too. -/
theorem pick_of_pick (widens : Widens table symbol first g g') {a : α}
    (read : g.pick wanted text = .ok (a, rest)) : g'.pick wanted text = .ok (a, rest) := by
  rcases widens.pick_eq wanted text with same | ⟨starts, _⟩
  · rw [same, read]
  · exact absurd read (widens.pick_declines starts.blocked).not_ok

/-- Any mark may be left behind a token, since none is read on a blocked text. -/
theorem pick (widens : Widens table symbol first g g') (wanted : Symbol → Option α) :
    Extends (Blocked symbol first) after (g'.pick wanted) (g.pick wanted) where
  reads read := .inl (widens.pick_of_pick read)
  declines {text} no := by
    rcases widens.pick_eq wanted text with same | ⟨starts, _⟩
    · obtain ⟨failure, failed, soft⟩ := no
      exact .inl ⟨failure, same.trans failed, soft⟩
    · exact .inr starts.blocked
  keeps blocked read := absurd read (widens.pick_declines blocked).not_ok

theorem sign (widens : Widens table symbol first g g') (p : Punctuation) :
    Extends (Blocked symbol first) after (g'.sign p) (g.sign p) :=
  widens.pick (exactly (.punctuation p))

theorem sign_of_sign (widens : Widens table symbol first g g') {p : Punctuation}
    (read : g.sign p text = .ok ((), rest)) : g'.sign p text = .ok ((), rest) := by
  rw [sign_eq] at read ⊢
  exact widens.pick_of_pick read

/-- A sign that has to stand. -/
theorem required_sign (widens : Widens table symbol first g g') (what : Requirement)
    {p : Punctuation} {before : List Char → Prop}
    (keeps : ∀ {text rest}, before text → g.sign p text = .ok ((), rest) → after rest) :
    Extends before after (required what (g'.sign p)) (required what (g.sign p)) where
  reads read := .inl (required_eq_ok.mpr (widens.sign_of_sign (required_eq_ok.mp read)))
  declines no := absurd no (Firm.required _ _ _)
  keeps marked read := keeps marked (required_eq_ok.mp read)

end Widens

/-! ### Digits -/

/-- Digits that no point follows are a number if they do not run on, and a whole one. -/
private theorem number_eq_of_digits {run after : List Char} (digits : Digits run)
    (ends : Ahead (fun c => c.isDigit = false ∧ c ≠ '.') after) :
    ∃ value : Parser Value, Firm value ∧
      (∀ {text v rest}, value text = .ok (v, rest) → rest = text) ∧
      number (run ++ after) = (notBefore isIdent >>= fun _ => value) after := by
  obtain ⟨c, tail, start, digit⟩ := digits.start after
  have noSign : (char '-').Declines (run ++ after) := by
    rw [start]
    refine char_declines (ahead_cons.mpr ?_)
    rintro rfl
    cases digit
  have noPlaces : (char '.' >>= fun _ => Parser.run Char.isDigit).Declines after :=
    Declines.bind (char_declines (ends.imp fun _ hc => hc.2))
  unfold number
  rw [bind_of_ok noSign.optional,
    bind_of_ok (run_eq_ok.mpr ⟨digits.1, rfl, digits.2, ends.imp fun _ hc => hc.1⟩),
    bind_of_ok noPlaces.optional]
  refine ⟨_, ?_, ?_, rfl⟩
  · simp only [Option.isSome_none, Bool.false_eq_true, if_false]
    exact .ite (.pure _) (.reject _)
  · intro text v rest read
    simp only [Option.isSome_none, Bool.false_eq_true, if_false] at read
    split at read
    · exact (pure_eq_ok.mp read).2.symm
    · cases read

theorem rest_of_number {run after : List Char} (digits : Digits run)
    (ends : Ahead (fun c => c.isDigit = false ∧ c ≠ '.') after) {value : Value}
    (read : number (run ++ after) = .ok (value, rest)) :
    rest = after ∧ Ahead (isIdent · = false) after := by
  obtain ⟨value, _, leaves, same⟩ := number_eq_of_digits digits ends
  rw [same] at read
  obtain ⟨_, mid, boundary, read'⟩ := bind_eq_ok.mp read
  obtain ⟨rfl, ahead⟩ := notBefore_eq_ok.mp boundary
  exact ⟨leaves read', ahead⟩

theorem not_ahead_of_number_declines {run after : List Char} (digits : Digits run)
    (ends : Ahead (fun c => c.isDigit = false ∧ c ≠ '.') after)
    (no : number.Declines (run ++ after)) : ¬Ahead (isIdent · = false) after := by
  obtain ⟨value, firm, _, same⟩ := number_eq_of_digits digits ends
  intro ahead
  obtain ⟨failure, failed, soft⟩ := no
  rw [same, bind_of_ok (notBefore_eq_ok.mpr ⟨rfl, ahead⟩)] at failed
  exact firm after ⟨failure, failed, soft⟩

/-- What the new token starts with goes on with no number. -/
theorem Starts.ahead {table : TokenTable} (fresh : table.Fresh first) (h : Starts first text) :
    Ahead (fun c => c.isDigit = false ∧ c ≠ '.') text := by
  obtain ⟨c, tail, start, same⟩ := h
  have plain := fresh.plain_of_same same
  refine ahead_of_skipBlanks (fun d blank => ?_) ?_
  · have plain := startsNoToken_of_isBlank blank
    exact ⟨isDigit_of_startsNoToken plain, ne_of_startsNoToken plain (by decide)⟩
  · rw [start]
    exact ahead_cons.mpr ⟨plain.1, plain.2.2.1⟩

/-- Where digits are no number although the new token may stand behind them, they run on
into it. -/
theorem blocked_of_number_declines {table : TokenTable} (fresh : table.Fresh first)
    (unit : symbol.isUnit = true) {run after : List Char} (digits : Digits run)
    (starts : Starts first after) (no : number.Declines (run ++ after)) :
    Blocked symbol first (run ++ after) := by
  have runsOn := not_ahead_of_number_declines digits (starts.ahead fresh) no
  obtain ⟨c, tail, start, same⟩ := starts
  cases after with
  | nil => exact absurd (ahead_nil _) runsOn
  | cons d after =>
    have ident : isIdent d = true := by
      by_contra noIdent
      exact runsOn (ahead_cons.mpr (by simpa using noIdent))
    rw [skipBlanks_eq_of_not_blank (isBlank_eq_false_of_isIdent ident)] at start
    obtain ⟨rfl, rfl⟩ := List.cons.inj start
    obtain ⟨e, more, first_, digit⟩ := digits.start (d :: after)
    refine ⟨run, d, after, ?_, digits.2, same, fun _ => ?_⟩
    · rw [first_, skipBlanks_eq_of_not_blank (isBlank_eq_false_of_isDigit digit)]
    · rw [Symbol.followsDigits, unit, ← isIdent_toLower, ← same, isIdent_toLower, ident]
      rfl

namespace Widens

variable {table : TokenTable} {g g' : Grammar}

/-! ### Literals -/

theorem date_eq (widens : Widens table symbol first g g') : g'.date = g.date := by
  unfold Grammar.date
  rw [widens.now]

theorem quotedLiteral_eq (widens : Widens table symbol first g g') (wantsDate : Bool) :
    g'.quotedLiteral wantsDate = g.quotedLiteral wantsDate := by
  unfold quotedLiteral stringValue
  rw [widens.date_eq]

theorem quotedLiteral_declines (widens : Widens table symbol first g g')
    (blocked : Blocked symbol first text) (wantsDate : Bool) :
    (g.quotedLiteral wantsDate).Declines text := by
  refine Grammar.quotedLiteral_declines ?_
  rcases blocked.cases widens.fresh with plain | ⟨run, c, tail, rfl, digits, _⟩
  · exact plain.imp fun _ hc => hc.2.2
  · obtain ⟨d, more, start, digit⟩ := digits.start (c :: tail)
    rw [start]
    exact ahead_cons.mpr (ne_quote_of_isDigit digit)

theorem date_declines (widens : Widens table symbol first g g')
    (blocked : Blocked symbol first text) : g.date.Declines text := by
  rcases blocked.cases widens.fresh with plain | ⟨run, c, tail, rfl, digits, ident, same⟩
  · exact date_declines_ahead (plain.imp fun _ hc => hc.1)
  · refine Grammar.date_declines digits.2 (ahead_cons.mpr ?_)
    refine ⟨(widens.fresh.plain_of_same same).1, ?_, ?_, ?_⟩ <;> (rintro rfl; revert ident; decide)

theorem relative_declines (widens : Widens table symbol first g g')
    (blocked : Blocked symbol first text) : g.relative.Declines text := by
  rcases blocked.cases widens.fresh with plain | ⟨run, c, tail, rfl, digits, ident, same⟩
  · exact relative_declines_ahead (plain.imp fun _ hc => hc.1)
  · have starts : Starts first (c :: tail) :=
      ⟨c, tail, skipBlanks_eq_of_not_blank (isBlank_eq_false_of_isIdent ident), same⟩
    refine Grammar.relative_declines digits ((starts.ahead widens.fresh).imp fun _ hc => hc.1) ?_
    rw [timeUnit_eq]
    exact widens.pick_declines starts.blocked

theorem not_number (widens : Widens table symbol first g g') (blocked : Blocked symbol first text)
    {value : Value} : number text ≠ .ok (value, rest) := by
  rcases blocked.cases widens.fresh with plain | ⟨run, c, tail, rfl, digits, ident, same⟩
  · exact (number_declines (plain.imp fun _ hc => ⟨hc.1, hc.2.1⟩)).not_ok
  · intro read
    have plain := widens.fresh.plain_of_same same
    have ends := (rest_of_number digits (ahead_cons.mpr ⟨plain.1, plain.2.2.1⟩) read).2
    rw [ahead_cons, ident] at ends
    cases ends

/-- A relative time that the old grammar reads is read by the new one, unless the new token
stands behind it and may be the word for "ago". -/
theorem relative_of_relative (widens : Widens table symbol first g g') {instant : Instant}
    (read : g.relative text = .ok (instant, rest)) :
    g'.relative text = .ok (instant, rest) ∨ Blocked symbol first rest := by
  obtain ⟨run, after, unit, mid, digits, rfl, ends, bounded, hunit, ⟨word, hago⟩, counted⟩ :=
    relative_eq_ok.mp read
  have ago : Tracks symbol first (optional (g'.symbol .ago))
      (optional (g.symbol .ago)) :=
    (widens.pick (exactly .ago)).optional fun _ blocked => blocked
  have counted' : g'.backFromNow? unit (numberOf run) = some instant := by
    rw [← counted]
    unfold backFromNow?
    rw [widens.now]
  rw [timeUnit_eq] at hunit
  refine (ago.reads hago).imp_left fun hago' => relative_eq_ok.mpr ?_
  exact ⟨run, after, unit, mid, digits, rfl, ends, bounded, widens.pick_of_pick hunit,
    ⟨word, hago'⟩, counted'⟩

/-- What is no relative time for the old grammar is none for the new one, unless the new
token may be the unit. -/
theorem relative_declines_or (widens : Widens table symbol first g g')
    (no : g.relative.Declines text) :
    g'.relative.Declines text ∨
      ∃ run after, text = run ++ after ∧ Digits run ∧ Starts first after ∧
        symbol.isUnit = true := by
  rcases no.of_bind with noRun | ⟨run, after, hrun, noUnit⟩
  · exact .inl (Declines.bind noRun)
  obtain ⟨nonempty, rfl, digits, ends⟩ := run_eq_ok.mp hrun
  by_cases large : maxAmount < numberOf run
  · rw [if_pos large] at noUnit
    refine .inl (Declines.after hrun ?_)
    rwa [if_pos large]
  rcases widens.pick_eq unitOf after with same | ⟨starts, want⟩
  · left
    refine Grammar.relative_declines ⟨nonempty, digits⟩ ends ?_
    obtain ⟨failure, failed, soft⟩ :=
      timeUnit_declines_of_relative ⟨nonempty, digits⟩ ends (Nat.not_lt.mp large) no
    exact ⟨failure, same.trans failed, soft⟩
  · exact .inr ⟨run, after, rfl, ⟨nonempty, digits⟩, starts, isUnit_of_unitOf want⟩

private theorem number_or (widens : Widens table symbol first g g') {q p : Parser Value}
    (others : Tracks symbol first q p) : Tracks symbol first (orElse number q) (orElse number p) :=
  Extends.orElse (Extends.refl fun blocked read => absurd read (widens.not_number blocked)) others

/-- Behind digits the new token may be a unit, and then they are no number any more. For the
old grammar, what follows is a blocked text. -/
theorem amounts (widens : Widens table symbol first g g') {q p : Parser Value}
    (others : Tracks symbol first q p) :
    Tracks symbol first
      (orElse (Value.instant <$> g'.relative) (orElse number q))
      (orElse (Value.instant <$> g.relative) (orElse number p)) where
  reads {text value rest} read := by
    rcases orElse_eq_ok.mp read with hrelative | ⟨no, hothers⟩
    · obtain ⟨instant, hinstant, rfl⟩ := map_eq_ok.mp hrelative
      exact (widens.relative_of_relative hinstant).imp_left fun same =>
        orElse_of_ok (map_eq_ok.mpr ⟨instant, same, rfl⟩)
    · rcases widens.relative_declines_or no.of_map with
        no' | ⟨run, after, rfl, digits, starts, unit⟩
      · exact ((widens.number_or others).reads hothers).imp_left fun same =>
          orElse_eq_ok.mpr (.inr ⟨no'.map, same⟩)
      · right
        rcases orElse_eq_ok.mp hothers with hnumber | ⟨noNumber, hp⟩
        · rw [(rest_of_number digits (starts.ahead widens.fresh) hnumber).1]
          exact starts.blocked
        · have blocked := blocked_of_number_declines widens.fresh unit digits starts noNumber
          exact others.keeps blocked hp
  declines {text} no := by
    obtain ⟨noRelative, noOther⟩ := no.of_orElse
    rcases widens.relative_declines_or noRelative.of_map with
      no' | ⟨run, after, rfl, digits, starts, unit⟩
    · exact ((widens.number_or others).declines noOther).imp_left no'.map.orElse
    · exact .inr (blocked_of_number_declines widens.fresh unit digits starts noOther.of_orElse.1)
  keeps blocked read := by
    rcases orElse_eq_ok.mp read with hrelative | ⟨_, hothers⟩
    · exact absurd hrelative (widens.relative_declines blocked).map.not_ok
    · exact (widens.number_or others).keeps blocked hothers

theorem bareLiteral (widens : Widens table symbol first g g') :
    Tracks symbol first g'.bareLiteral g.bareLiteral := by
  unfold Grammar.bareLiteral
  rw [widens.date_eq, widens.now]
  refine Extends.orElse ?_ (widens.amounts (Extends.orElse ?_ ?_))
  · exact Extends.refl fun blocked read => absurd read (widens.date_declines blocked).map.not_ok
  · exact (widens.pick truthOf).map Value.bool
  · exact (widens.pick (exactly .now)).bind_firm (fun _ => Extends.pure _) fun _ => .pure _

end Widens

end Grammar

end ForumModeration
