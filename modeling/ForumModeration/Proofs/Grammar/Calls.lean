import ForumModeration.Grammar.Calls
import ForumModeration.Proofs.Actions
import ForumModeration.Proofs.Grammar.Leniency
import ForumModeration.Proofs.Grammar.Meanings
import ForumModeration.Proofs.Grammar.Values

/-!
# `ForumModeration.Proofs.Grammar.Calls`: reading calls of actions

The parameters of a call have names (`IsName`), and any value but a list can be an argument.
A name ends where a sign stands, the token of a kind of action is the only one of its kind
that stands where it stands, and a comma is not taken for what closes a call. What this needs
of a table is in `TokenTable.Callable`.

Behind the sign of a parameter nothing but an argument will do, so the text is refused for
good if there is none. `ReadsIf` says of a reader that it reads one thing or refuses, and
which of the two depends on a condition.

* `scalar_of_literal`, `scalar_declines_leftBracket`, `scalar_declines_noNumber`: what is an
  argument and what is none.
* `isName_of_calls`, `calls_meaning`: whatever text is read, its parameters have names, and
  their values mean what arguments can mean.
-/

set_option autoImplicit false

namespace ForumModeration

open Text

/-! ### Readers that read one thing or nothing -/

namespace Parser

variable {α β : Type} {good good' : Prop} {p : Parser α} {f : α → Parser β}
  {text mid rest : List Char} {a : α} {b : β}

/-- A reader reads a text if the condition holds, and refuses it if it does not. -/
structure ReadsIf (good : Prop) (p : Parser α) (text : List Char) (a : α) (rest : List Char) :
    Prop where
  reads : good → p text = .ok (a, rest)
  refuses : ¬good → p.Refuses text

theorem Refuses.bind (h : p.Refuses text) : (p >>= f).Refuses text := by
  obtain ⟨failure, failed, final⟩ := h
  exact ⟨failure, bind_of_error failed, final⟩

/-- A repetition refuses with its first reading. -/
theorem Refuses.many (h : p.Refuses text) : Refuses (many p) text := by
  obtain ⟨failure, failed, final⟩ := h
  refine ⟨failure, ?_, final⟩
  rw [Parser.many, failed]
  exact if_pos final

theorem Refuses.after (first : p text = .ok (a, mid)) (h : (f a).Refuses mid) :
    (p >>= f).Refuses text := by
  obtain ⟨failure, failed, final⟩ := h
  exact ⟨failure, by rw [bind_of_ok first, failed], final⟩

theorem Refuses.optional (h : p.Refuses text) : p.optional.Refuses text := by
  obtain ⟨failure, failed, final⟩ := h
  refine ⟨failure, ?_, final⟩
  unfold Parser.optional
  rw [failed]
  exact if_pos final

theorem Refuses.orElse {q : Parser α} (h : p.Refuses text) : (p.orElse q).Refuses text := by
  obtain ⟨failure, failed, final⟩ := h
  refine ⟨failure, ?_, final⟩
  unfold Parser.orElse
  rw [failed]
  exact if_pos final

theorem Declines.orElse_refuses {q : Parser α} (no : p.Declines text) (h : q.Refuses text) :
    (p.orElse q).Refuses text := by
  unfold Refuses
  rw [no.orElse_eq]
  exact h

theorem Refuses.expecting (h : p.Refuses text) (what : Expectation) :
    (p.expecting what).Refuses text := by
  obtain ⟨failure, failed, final⟩ := h
  refine ⟨{ failure with expected := failure.expected <|> some what }, ?_, final⟩
  unfold Parser.expecting
  rw [failed]

/-- What fails in any way is refused where it has to stand. -/
theorem refuses_commit {failure : Failure} (failed : p text = .error failure) :
    (Parser.commit p).Refuses text := by
  refine ⟨{ failure with committed := true }, ?_, rfl⟩
  unfold Parser.commit
  rw [failed]

namespace ReadsIf

theorem congr (h : ReadsIf good p text a rest) (same : good ↔ good') :
    ReadsIf good' p text a rest :=
  ⟨fun holds => h.reads (same.mpr holds), fun fails => h.refuses fun holds => fails (same.mp holds)⟩

/-- Only what a reader does at the text matters. -/
theorem congr_at {q : Parser α} (h : ReadsIf good p text a rest) (same : q text = p text) :
    ReadsIf good q text a rest where
  reads := fun holds => same.trans (h.reads holds)
  refuses := by
    intro fails
    obtain ⟨failure, failed, final⟩ := h.refuses fails
    exact ⟨failure, same.trans failed, final⟩

theorem of_ok (h : p text = .ok (a, rest)) : ReadsIf True p text a rest :=
  ⟨fun _ => h, fun fails => absurd trivial fails⟩

/-- A sequence refuses with the first of its readings that does. -/
theorem bind (first : ReadsIf good p text a mid) (second : ReadsIf good' (f a) mid b rest) :
    ReadsIf (good ∧ good') (p >>= f) text b rest where
  reads := fun ⟨holds, holds'⟩ => (bind_of_ok (first.reads holds)).trans (second.reads holds')
  refuses := by
    intro fails
    by_cases holds : good
    · obtain ⟨failure, failed, final⟩ := second.refuses fun holds' => fails ⟨holds, holds'⟩
      exact ⟨failure, (bind_of_ok (first.reads holds)).trans failed, final⟩
    · exact (first.refuses holds).bind

/-- What comes first is read in any case. -/
theorem after (first : p text = .ok (a, mid)) (second : ReadsIf good (f a) mid b rest) :
    ReadsIf good (p >>= f) text b rest :=
  ((of_ok first).bind second).congr (iff_of_eq (true_and good))

/-- What comes last is read if the rest is. -/
theorem before (first : ReadsIf good p text a mid) (second : f a mid = .ok (b, rest)) :
    ReadsIf good (p >>= f) text b rest :=
  (first.bind (of_ok second)).congr (iff_of_eq (and_true good))

theorem expecting (h : ReadsIf good p text a rest) (what : Expectation) :
    ReadsIf good (p.expecting what) text a rest where
  reads := fun holds => expecting_eq_ok.mpr (h.reads holds)
  refuses := by
    intro fails
    obtain ⟨failure, failed, final⟩ := h.refuses fails
    refine ⟨{ failure with expected := failure.expected <|> some what }, ?_, final⟩
    rw [Parser.expecting, failed]

theorem many_cons {others : List α} (first : ReadsIf good p text a mid)
    (shorter : mid.length < text.length) (more : ReadsIf good' (many p) mid others rest) :
    ReadsIf (good ∧ good') (many p) text (a :: others) rest where
  reads := fun ⟨holds, holds'⟩ => many_of_ok (first.reads holds) shorter (more.reads holds')
  refuses := by
    intro fails
    by_cases holds : good
    · obtain ⟨failure, failed, final⟩ := more.refuses fun holds' => fails ⟨holds, holds'⟩
      refine ⟨failure, ?_, final⟩
      rw [many, first.reads holds]
      simp only [shorter, if_true, failed]
    · exact (first.refuses holds).many

theorem not_declines (h : ReadsIf good p text a rest) : ¬p.Declines text := by
  rintro ⟨failure, failed, soft⟩
  by_cases holds : good
  · rw [h.reads holds] at failed
    cases failed
  · obtain ⟨failure', failed', final⟩ := h.refuses holds
    obtain rfl := Except.error.inj (failed.symm.trans failed')
    rw [soft] at final
    cases final

end ReadsIf

/-- Where the first reading does not decline, there is something to be read. -/
theorem separatedOrNone_eq {separator : Parser β} (h : ¬p.Declines text) :
    separatedOrNone p separator text = separated p separator text := by
  cases read : p text with
  | ok result =>
    unfold separatedOrNone separated
    rw [bind_of_ok (optional_of_ok read), bind_of_ok read]
  | error failure =>
    have final : failure.committed = true := by
      by_contra soft
      exact h ⟨failure, read, by simpa using soft⟩
    have optional : p.optional text = .error failure := by
      unfold Parser.optional
      rw [read]
      exact if_pos final
    unfold separatedOrNone separated
    rw [bind_of_error optional, bind_of_error read]

end Parser

/-! ### Names -/

/-- A run of letters and digits of any script and underscores. -/
def IsName (name : String) : Prop :=
  name.toList ≠ [] ∧ ∀ c ∈ name.toList, Grammar.isNameChar c = true

instance (name : String) : Decidable (IsName name) :=
  decidable_of_iff (name.toList ≠ [] ∧ name.toList.all Grammar.isNameChar = true)
    (and_congr_right' List.all_eq_true)

/-- White space is no letter and no digit of any script. -/
theorem isNameChar_of_isBlank {c : Char} (blank : isBlank c = true) :
    Grammar.isNameChar c = false := by
  have each : ∀ n ∈ [0x09, 0x0A, 0x0B, 0x0C, 0x0D, 0x20, 0x85, 0xA0, 0x1680, 0x2000, 0x2001,
      0x2002, 0x2003, 0x2004, 0x2005, 0x2006, 0x2007, 0x2008, 0x2009, 0x200A, 0x2028, 0x2029,
      0x202F, 0x205F, 0x3000], Grammar.isNameChar (Char.ofNat n) = false := by
    decide +kernel
  rw [← Char.ofNat_toNat c]
  refine each c.toNat ?_
  simp only [isBlank, Bool.or_eq_true, Bool.and_eq_true, decide_eq_true_eq] at blank
  simp only [List.mem_cons, List.not_mem_nil, or_false]
  omega

/-- A name stands right behind blanks, up to a character that is no part of it. -/
theorem IsName.read {name : String} (h : IsName name) {blanks rest : List Char}
    (blank : ∀ c ∈ blanks, isBlank c = true) (ends : Ahead (Grammar.isNameChar · = false) rest) :
    skipBlanks (blanks ++ (name.toList ++ rest)) = name.toList ++ rest ∧
      Parser.run Grammar.isNameChar (name.toList ++ rest) = .ok (name.toList, rest) := by
  refine ⟨?_, Parser.run_eq_ok.mpr ⟨h.1, rfl, h.2, ends⟩⟩
  obtain ⟨c, tail, start⟩ := List.exists_cons_of_ne_nil h.1
  have first : Grammar.isNameChar c = true := h.2 c (by rw [start]; exact List.mem_cons_self)
  rw [skipBlanks_append_of_blank blank, start, List.cons_append]
  refine skipBlanks_eq_of_not_blank ?_
  by_contra blank
  rw [isNameChar_of_isBlank (by simpa using blank)] at first
  cases first

/-! ### Tables -/

namespace TokenTable

/-- The symbol of a kind of action. -/
def isAction : Symbol → Bool
  | .action _ => true
  | _ => false

/-- The symbols of values that are words. -/
def isWord : Symbol → Bool
  | .truth _ | .now => true
  | _ => false

/-- What reading calls relies on in a table. -/
structure Callable (table : TokenTable) : Prop where
  /-- Tokens of actions do not stand at one place, unless they are the same. -/
  actions : ∀ entry ∈ table.entries, ∀ other ∈ table.entries,
    isAction entry.1 = true → isAction other.1 = true → ∀ token ∈ entry.2, ∀ token' ∈ other.2,
      apart token.toList token'.toList = true ∨
        lower token.toList = lower token'.toList ∧ entry.1 = other.1
  /-- No comma stands where parentheses are closed. -/
  closing : ∀ entry ∈ table.entries, ∀ other ∈ table.entries,
    entry.1 = .punctuation .rightParen → other.1 = .punctuation .comma →
      ∀ token ∈ entry.2, ∀ token' ∈ other.2, apart token.toList token'.toList = true
  /-- What comes after a name or closes parentheses is no part of a name. -/
  signs : ∀ entry ∈ table.entries,
    entry.1 = .punctuation .assign ∨ entry.1 = .punctuation .rightParen → ∀ token ∈ entry.2,
      token.toList.head?.all (fun c => !Grammar.isNameChar c) = true
  /-- No word stands where something is written that is no number. -/
  words : ∀ entry ∈ table.entries, isWord entry.1 = true → ∀ token ∈ entry.2,
    apart ['N', 'a', 'N'] token.toList = true ∧ apart ['i', 'n', 'f'] token.toList = true

theorem callable_dsl : dsl.Callable where
  actions := by decide +kernel
  closing := by decide +kernel
  signs := by decide +kernel
  words := by decide +kernel

theorem callable_cnl : cnl.Callable where
  actions := by decide +kernel
  closing := by decide +kernel
  signs := by decide +kernel
  words := by decide +kernel

/-- The word that introduces an action list does not stand where a kind of action does, so
that it can be left out. -/
def Unintroduced (table : TokenTable) : Prop :=
  ∀ entry ∈ table.entries, ∀ other ∈ table.entries,
    isAction entry.1 = true → other.1 = .actionPrefix → ∀ token ∈ entry.2, ∀ token' ∈ other.2,
      apart token.toList token'.toList = true

theorem unintroduced_dsl : dsl.Unintroduced := by
  unfold Unintroduced
  decide +kernel

theorem unintroduced_cnl : cnl.Unintroduced := by
  unfold Unintroduced
  decide +kernel

/-- A sign that comes after a name or closes parentheses ends a name. -/
theorem Callable.ends_name {table : TokenTable} (callable : table.Callable) {p : Punctuation}
    {token : List Char} (mem : (token, .punctuation p) ∈ table.lexicon)
    (sign : p = .assign ∨ p = .rightParen) (rest : List Char) :
    Ahead (Grammar.isNameChar · = false) (token ++ rest) := by
  obtain ⟨nonempty, entry, hentry, named, spelling, listed, rfl⟩ := exists_entry mem
  obtain ⟨c, tail, start⟩ := List.exists_cons_of_ne_nil nonempty
  have first := callable.signs entry hentry
    (by rw [named]; exact sign.imp (congrArg _) (congrArg _)) spelling listed
  rw [start] at first ⊢
  exact ahead_cons.mpr (by simpa using first)

end TokenTable

namespace Grammar

open ForumModeration.Parser

section

variable {table : TokenTable} {now : Instant} {text rest : List Char}

/-! ### Tokens -/

/-- Wants a kind of action. -/
def actionOf : Symbol → Option ActionKind
  | .action kind => some kind
  | _ => none

theorem actionKind_eq (g : Grammar) : g.actionKind = g.pick actionOf := rfl

theorem isAction_of_actionOf {t : Symbol} (want : (actionOf t).isSome = true) :
    TokenTable.isAction t = true := by
  cases t <;> first | rfl | cases want

/-- The token of a kind of action is read where it stands, whatever comes behind it. -/
theorem actionKind_of_token (legible : table.Legible) (callable : table.Callable)
    {kind : ActionKind} (token : table.Token (.action kind) text rest) :
    (ofTable table now).actionKind text = .ok (kind, rest) := by
  obtain ⟨spelled, mem, after⟩ := token.after legible
  obtain ⟨other, rest', read⟩ : ∃ other rest',
      (ofTable table now).pick actionOf text = .ok (other, rest') := exists_pick mem rfl after
  obtain ⟨spelled', symbol, mem', want, after'⟩ := mem_of_pick read
  obtain ⟨_, entry, hentry, named, spelling, listed, rfl⟩ := TokenTable.exists_entry mem
  obtain ⟨_, entry', hentry', rfl, spelling', listed', rfl⟩ := TokenTable.exists_entry mem'
  -- What was read stands at the same place, so it is spelled alike and has the same meaning.
  rcases callable.actions entry hentry entry' hentry' (by rw [named]; rfl)
    (isAction_of_actionOf (by rw [want]; rfl)) spelling listed spelling' listed' with
    apart | ⟨same, symbols⟩
  · rw [afterToken?_eq_none_of_apart apart after] at after'
    cases after'
  · rw [← symbols, named] at want
    obtain rfl := Option.some.inj want
    have length : spelling.toList.length = spelling'.toList.length := by
      simpa using congrArg List.length same
    obtain ⟨⟨w, split, _⟩, _⟩ := afterToken?_eq_some_iff.mp after
    obtain ⟨⟨w', split', _⟩, _⟩ := afterToken?_eq_some_iff.mp after'
    have l1 := afterLetters?_length (Option.filter_eq_some_iff.mp after).1
    have l2 := afterLetters?_length (Option.filter_eq_some_iff.mp after').1
    have left : rest' = rest :=
      (List.append_inj' (split'.symm.trans split) (by omega)).2
    rw [actionKind_eq, read, left]

/-- A comma does not stand where parentheses are closed. -/
theorem comma_declines_rightParen {g : Grammar} (hg : g.lexicon = table.lexicon)
    (legible : table.Legible) (callable : table.Callable)
    (token : table.Token (.punctuation .rightParen) text rest) :
    (g.sign .comma).Declines text := by
  rw [sign_eq]
  refine pick_declines_of_apart hg legible token ?_
  intro entry hentry other hother named want
  exact callable.closing entry hentry other hother named (eq_of_exactly want)

/-! ### Arguments -/

variable {g : Grammar} {value : Value}

theorem scalar_apply (g : Grammar) (text : List Char) :
    g.scalar text = (orElse (g.quotedLiteral false) g.bareLiteral) (skipBlanks text) :=
  bind_of_ok (show blanks text = .ok ((), skipBlanks text) from rfl)

/-- A literal that is read without any levels of nesting is an argument. -/
theorem scalar_of_literal (h : g.literal false 0 text = .ok (value, rest)) :
    g.scalar text = .ok (value, rest) := by
  rw [literal_apply] at h
  rw [scalar_apply]
  rcases orElse_eq_ok.mp h with quoted | ⟨noQuote, other⟩
  · exact orElse_of_ok quoted
  · refine orElse_eq_ok.mpr (.inr ⟨noQuote, ?_⟩)
    rcases orElse_eq_ok.mp other with list | ⟨_, bare⟩
    · obtain ⟨_, _, _, _, inside, _⟩ := listOf_eq_ok list
      cases inside
    · exact bare

/-- Where no literal of any kind starts, there is no argument. -/
private theorem scalar_declines
    (quoted : (g.quotedLiteral false).Declines (skipBlanks text))
    (date : g.date.Declines (skipBlanks text)) (relative : g.relative.Declines (skipBlanks text))
    (number : Grammar.number.Declines (skipBlanks text))
    (truth : g.truth.Declines (skipBlanks text))
    (now : (g.symbol .now).Declines (skipBlanks text)) : g.scalar.Declines text := by
  have bare : (orElse (g.quotedLiteral false) g.bareLiteral).Declines (skipBlanks text) :=
    quoted.orElse (date.map.orElse (relative.map.orElse (number.orElse (truth.map.orElse
      (Declines.bind now)))))
  unfold Declines
  rw [scalar_apply]
  exact bare

/-- A picked token that stands somewhere keeps others from standing there. -/
private theorem pick_declines_of_not_ok {α : Type} {wanted : Symbol → Option α}
    (h : ∀ a rest, g.pick wanted text ≠ .ok (a, rest)) : (g.pick wanted).Declines text := by
  cases read : g.pick wanted text with
  | ok result => exact absurd read (h result.1 result.2)
  | error failure => exact pick_declines_of_error read

/-- A list is no argument. -/
theorem scalar_declines_leftBracket (hg : g.lexicon = table.lexicon) (legible : table.Legible)
    (token : table.Token (.punctuation .leftBracket) text rest)
    (read : g.sign .leftBracket text = .ok ((), rest)) : g.scalar.Declines text := by
  obtain ⟨quoted, date, relative, number⟩ := nonWord_declines g false legible token
  -- Were there a word, the bracket could not be read.
  have noWord : ∀ {symbol : Symbol} {rest' : List Char},
      symbol.triedAt (.punctuation .leftBracket) = true →
      ¬table.Token symbol (skipBlanks text) rest' := by
    intro symbol rest' tried word
    obtain ⟨failure, failed, _⟩ := symbol_declines_at hg legible word tried
    rw [symbol_eq, pick_skipBlanks, ← sign_eq, read] at failed
    cases failed
  refine scalar_declines quoted date relative number ?_ ?_
  · rw [truth_eq]
    refine pick_declines_of_not_ok fun b rest' found => ?_
    obtain ⟨symbol, want, word⟩ := token_of_pick hg found
    cases symbol with
    | truth b => exact noWord rfl word
    | _ => cases want
  · rw [symbol_eq]
    refine pick_declines_of_not_ok fun b rest' found => ?_
    obtain ⟨symbol, want, word⟩ := token_of_pick hg found
    obtain rfl := eq_of_exactly (show (exactly Symbol.now symbol).isSome = true by rw [want]; rfl)
    exact noWord rfl word

/-- A minus sign that no digit follows is no argument. -/
theorem scalar_declines_minus (hg : g.lexicon = table.lexicon) (legible : table.Legible)
    (noDigit : Ahead (Char.isDigit · = false) rest) : g.scalar.Declines ('-' :: rest) := by
  have skipped : skipBlanks ('-' :: rest) = '-' :: rest :=
    skipBlanks_eq_of_not_blank (by decide)
  have noWord : ∀ {α : Type} {wanted : Symbol → Option α},
      (g.pick wanted).Declines ('-' :: rest) := by
    intro α wanted
    refine pick_declines_ahead hg legible ?_
    rw [skipped]
    exact ahead_cons.mpr (by decide)
  refine scalar_declines ?_ ?_ ?_ ?_ ?_ ?_ <;> rw [skipped]
  · exact quotedLiteral_declines (ahead_cons.mpr (by decide))
  · exact date_declines_ahead (ahead_cons.mpr (by decide))
  · exact relative_declines_ahead (ahead_cons.mpr (by decide))
  · have sign : optional (char '-') ('-' :: rest) = .ok (some '-', rest) :=
      optional_of_ok (char_eq_ok.mpr ⟨rfl, rfl⟩)
    exact Declines.after sign (Declines.bind (run_declines noDigit))
  · exact noWord
  · exact noWord

/-- What is written for something that is no number is no token that is apart from it. -/
theorem pick_declines_noNumber (hg : g.lexicon = table.lexicon) {word : List Char}
    (word_ : word = ['N', 'a', 'N'] ∨ word = ['i', 'n', 'f'])
    (boundary : RespectsBoundary word rest) {α : Type} {wanted : Symbol → Option α}
    (others : ∀ entry ∈ table.entries, (wanted entry.1).isSome = true → ∀ token ∈ entry.2,
      TokenTable.apart ['N', 'a', 'N'] token.toList = true ∧
        TokenTable.apart ['i', 'n', 'f'] token.toList = true) :
    (g.pick wanted).Declines (word ++ rest) := by
  have skipped : skipBlanks (word ++ rest) = word ++ rest := by
    rcases word_ with rfl | rfl <;> exact skipBlanks_eq_of_not_blank (by decide)
  have stands : afterToken? word (word ++ rest) = some rest :=
    afterToken?_eq_some_iff.mpr ⟨⟨word, rfl, rfl⟩, boundary⟩
  refine pick_declines ?_
  rintro ⟨token, symbol⟩ mem want
  rw [hg] at mem
  rw [skipped]
  obtain ⟨_, entry, hentry, named, spelling, listed, rfl⟩ := TokenTable.exists_entry mem
  have apart := others entry hentry (by rw [named]; exact want) spelling listed
  refine afterToken?_eq_none_of_apart ?_ stands
  rcases word_ with rfl | rfl
  · exact apart.1
  · exact apart.2

/-- What is written for something that is no number is no argument. -/
theorem scalar_declines_noNumber (hg : g.lexicon = table.lexicon) (callable : table.Callable)
    {word : List Char} (word_ : word = ['N', 'a', 'N'] ∨ word = ['i', 'n', 'f'])
    (boundary : RespectsBoundary word rest) : g.scalar.Declines (word ++ rest) := by
  obtain ⟨c, tail, start, plain, notBlank⟩ : ∃ c tail, word ++ rest = c :: tail ∧
      startsNoToken c = false ∧ isBlank c = false := by
    rcases word_ with rfl | rfl
    · exact ⟨'N', _, rfl, by decide, by decide⟩
    · exact ⟨'i', _, rfl, by decide, by decide⟩
  have skipped : skipBlanks (word ++ rest) = word ++ rest := by
    rw [start, skipBlanks_eq_of_not_blank notBlank]
  have digit := isDigit_of_startsNoToken plain
  have ne : ∀ d, startsNoToken d = true → c ≠ d := fun d => ne_of_startsNoToken plain
  have noWord : ∀ {α : Type} {wanted : Symbol → Option α},
      (∀ t, (wanted t).isSome = true → TokenTable.isWord t = true) →
      (g.pick wanted).Declines (word ++ rest) := fun isWord =>
    pick_declines_noNumber hg word_ boundary fun entry mem want =>
      callable.words entry mem (isWord _ want)
  refine scalar_declines ?_ ?_ ?_ ?_ ?_ ?_ <;> rw [skipped]
  · rw [start]
    exact quotedLiteral_declines (ahead_cons.mpr ⟨ne _ (by decide), ne _ (by decide)⟩)
  · rw [start]
    exact date_declines_ahead (ahead_cons.mpr digit)
  · rw [start]
    exact relative_declines_ahead (ahead_cons.mpr digit)
  · rw [start]
    exact number_declines (ahead_cons.mpr ⟨digit, ne _ (by decide)⟩)
  · rw [truth_eq]
    refine noWord fun t want => ?_
    cases t <;> first | rfl | cases want
  · rw [symbol_eq]
    refine noWord fun t want => ?_
    rw [eq_of_exactly want]
    rfl

/-! ### What is read -/

/-- A parameter that is read has a name, and its value is read as an argument. -/
theorem parameter_eq_ok {entry : String × Value} (h : g.parameter text = .ok (entry, rest)) :
    IsName entry.1 ∧ ∃ mid, g.scalar mid = .ok (entry.2, rest) := by
  obtain ⟨_, t1, _, h⟩ := bind_eq_ok.mp h
  obtain ⟨name, t2, hname, h⟩ := bind_eq_ok.mp h
  obtain ⟨_, t3, _, h⟩ := bind_eq_ok.mp h
  obtain ⟨value, t4, hvalue, h⟩ := bind_eq_ok.mp h
  obtain ⟨rfl, rfl⟩ := pure_eq_ok.mp h
  obtain ⟨nonempty, _, all, _⟩ := run_eq_ok.mp hname
  rw [IsName, String.toList_ofList]
  exact ⟨⟨nonempty, all⟩, t3, commit_eq_ok.mp (expecting_eq_ok.mp hvalue)⟩

/-- What holds of everything that a reader reads holds of all that are separated. -/
private theorem forall_separated {α β : Type} {p : Parser α} {separator : Parser β}
    {P : α → Prop} (each : ∀ text a rest, p text = .ok (a, rest) → P a) {all : List α}
    (h : separated p separator text = .ok (all, rest)) : ∀ a ∈ all, P a := by
  obtain ⟨first, t1, hfirst, h⟩ := bind_eq_ok.mp h
  obtain ⟨others, t2, hothers, h⟩ := bind_eq_ok.mp h
  obtain ⟨rfl, _⟩ := pure_eq_ok.mp h
  refine List.forall_mem_cons.mpr ⟨each _ _ _ hfirst, ?_⟩
  refine many_sound (R := fun _ others _ => ∀ a ∈ others, P a)
    (fun _ _ mem => absurd mem List.not_mem_nil) ?_ hothers
  intro text a mid others rest read more
  obtain ⟨_, t3, _, read⟩ := bind_eq_ok.mp read
  exact List.forall_mem_cons.mpr ⟨each _ _ _ read, more⟩

/-- What holds of every parameter that can be read holds of those of a call that is read. -/
private theorem forall_parameters_of_call {P : String × Value → Prop}
    (each : ∀ text entry rest, g.parameter text = .ok (entry, rest) → P entry) {action : Action}
    (h : g.call text = .ok (action, rest)) : ∀ entry ∈ action.params.entries, P entry := by
  obtain ⟨kind, t1, _, h⟩ := bind_eq_ok.mp h
  obtain ⟨_, t2, _, h⟩ := bind_eq_ok.mp h
  obtain ⟨set, t3, hset, h⟩ := bind_eq_ok.mp h
  obtain ⟨_, t4, _, h⟩ := bind_eq_ok.mp h
  obtain ⟨rfl, _⟩ := pure_eq_ok.mp h
  have all : ∀ entry ∈ set, P entry := by
    by_cases declines : g.parameter.Declines t2
    · unfold separatedOrNone at hset
      rw [bind_of_ok declines.optional] at hset
      obtain ⟨rfl, _⟩ := pure_eq_ok.mp hset
      exact fun _ mem => absurd mem List.not_mem_nil
    · rw [separatedOrNone_eq declines] at hset
      exact forall_separated each hset
  exact fun entry mem => all entry (Params.mem_of_mem_ofList mem)

/-- What holds of every parameter that can be read holds of those of an action list that is
read. -/
theorem forall_parameters_of_calls {P : String × Value → Prop}
    (each : ∀ text entry rest, g.parameter text = .ok (entry, rest) → P entry)
    {actions : List Action} (h : g.calls text = .ok (actions, rest)) :
    ∀ action ∈ actions, ∀ entry ∈ action.params.entries, P entry := by
  obtain ⟨_, t1, _, h⟩ := bind_eq_ok.mp h
  obtain ⟨all, t2, hall, h⟩ := bind_eq_ok.mp h
  obtain ⟨_, t3, _, h⟩ := bind_eq_ok.mp h
  obtain ⟨rfl, _⟩ := pure_eq_ok.mp h
  exact forall_separated (fun _ _ _ read => forall_parameters_of_call each read) hall

/-- Whatever is read as an action list, its parameters have names. -/
theorem isName_of_calls {actions : List Action} (h : g.calls text = .ok (actions, rest)) :
    ∀ action ∈ actions, ∀ entry ∈ action.params.entries, IsName entry.1 :=
  forall_parameters_of_calls (P := fun entry => IsName entry.1)
    (fun _ _ _ read => (parameter_eq_ok read).1) h

/-- What the parameters of an action list mean. None is a list. -/
theorem calls_meaning {table : TokenTable} {now : Instant} (noLeap : now.isLeap = false)
    (short : hasShortYear now = true) {actions : List Action}
    (h : (ofTable table now).calls text = .ok (actions, rest)) :
    ∀ action ∈ actions, ∀ entry ∈ action.params.entries,
      entry.2.isList = false ∧ entry.2.Meant now.offset false := by
  refine forall_parameters_of_calls
    (P := fun entry => entry.2.isList = false ∧ entry.2.Meant now.offset false) ?_ h
  intro text entry rest read
  obtain ⟨_, mid, argument⟩ := parameter_eq_ok read
  exact scalarPhrase_meaning noLeap short (scalarPhrase_of_scalar argument)

end

end Grammar

end ForumModeration
