import ForumModeration.Grammar.Basic
import ForumModeration.Proofs.Grammar.Readers
import ForumModeration.Proofs.Text.Letters

/-!
# `ForumModeration.Proofs.Grammar.Tokens`: what longest match reads

`TokenTable.Token` says without any search what a token is: blanks, then one of the
spellings that the table lists for a symbol, in any letter case, up to a word
boundary. `Grammar.pick` searches the whole lexicon for the longest token of a kind.
This file connects the two.

* `token_of_pick`: what `pick` reads is a token.
* `pick_of_token`: a token is picked if no token of the same kind goes on from it
  with what follows (`TokenTable.settled`).
* `pick_declines_at`: nothing is picked where a token of another kind stands, if no
  spelling of the wanted kind can stand there too (`TokenTable.apart`).
* `pick_declines_ahead`: nothing is picked in front of a digit, a quote or any other
  character that starts no token.

What these need of a table is collected in `TokenTable.Legible`, a list of decidable
facts about pairs of tokens.
-/

set_option autoImplicit false

namespace ForumModeration

open Text

/-! ### Tokens without a search -/

/-- A token that ends in an identifier character is not followed by another one, nor
by a point. -/
def RespectsBoundary (token rest : List Char) : Prop :=
  token.getLast?.any isIdent = true → Ahead (fun c => isIdent c = false ∧ c ≠ '.') rest

/-- A word boundary within a text does not depend on how the text goes on. -/
theorem RespectsBoundary.of_append {token rest context : List Char}
    (h : RespectsBoundary token (rest ++ context)) : RespectsBoundary token rest := by
  intro ident
  cases rest with
  | nil => exact ahead_nil _
  | cons c rest => exact ahead_cons.mpr (ahead_cons.mp (h ident))

theorem RespectsBoundary.append {token rest context : List Char} (h : RespectsBoundary token rest)
    (last : rest = [] → RespectsBoundary token context) :
    RespectsBoundary token (rest ++ context) := by
  intro ident
  cases rest with
  | nil => exact last rfl ident
  | cons c rest => exact ahead_cons.mpr (ahead_cons.mp (h ident))

/-- The table lists the token for the symbol. -/
def TokenTable.Spells (table : TokenTable) (symbol : Symbol) (token : List Char) : Prop :=
  token ≠ [] ∧ ∃ entry ∈ table.entries, entry.1 = symbol ∧ String.ofList token ∈ entry.2

/-- A text starts, after any blanks, with some spelling of a symbol in any letter
case, and `rest` comes after it. -/
def TokenTable.Token (table : TokenTable) (symbol : Symbol) (text rest : List Char) : Prop :=
  ∃ blanks written token, text = blanks ++ written ++ rest ∧ (∀ c ∈ blanks, isBlank c = true) ∧
    table.Spells symbol token ∧ lower written = lower token ∧ RespectsBoundary token rest

/-- Symbols of one kind: a reader that wants one of them may read another. -/
def Symbol.alike : Symbol → Symbol → Bool
  | .field _, .field _ | .operator _, .operator _ | .truth _, .truth _ | .unit _, .unit _ => true
  | .connective c, .connective d => c.isUnary = d.isUnary && c.inAndTier = d.inAndTier
  | s, t => s = t

/-- What may follow a value: a connective between operands, or what closes or
separates. -/
def Symbol.isEnder : Symbol → Bool
  | .connective c => !c.isUnary
  | .punctuation .rightParen | .punctuation .rightBracket | .punctuation .comma => true
  | _ => false

/-- The second symbol may be tried where the first one stands. -/
def Symbol.triedAt : Symbol → Symbol → Bool
  | s, .unit _ | s, .ago => s.isEnder
  | .field _, .connective c => c.isUnary
  | .field _, .punctuation .leftParen => true
  | .punctuation .leftParen, .connective c => c.isUnary
  | .connective c, .connective d => c.inAndTier && d.inOrTier || c.inOrTier && d.inAndTier
  | .punctuation .rightParen, .connective c => !c.isUnary
  | .punctuation .rightBracket, .punctuation p => p = .comma || p = .leftBracket
  | .punctuation .rightBracket, .truth _ | .punctuation .rightBracket, .now => true
  | .truth _, .punctuation .leftBracket | .now, .punctuation .leftBracket => true
  | .now, .truth _ => true
  | _, _ => false

/-- The characters that a longer token of the same kind may go on with. Only
operators have such tokens: `>` and `>=`, `大于` and `大于等于`. -/
def Symbol.further : Symbol → List Char
  | .operator _ => ['=', '等']
  | _ => []

theorem Symbol.toLower_mem_further {symbol : Symbol} {c : Char} (h : c ∈ symbol.further) :
    c.toLower ∈ symbol.further := by
  cases symbol with
  | operator o =>
    simp only [further, List.mem_cons, List.not_mem_nil, or_false] at h ⊢
    rcases h with rfl | rfl <;> decide
  | _ => cases h

/-- The symbols of values that are words, and of the bracket that opens a list. -/
def Symbol.startsValue : Symbol → Bool
  | .truth _ | .now | .punctuation .leftBracket => true
  | _ => false

/-- A character that no token starts with: it is part of a number, a date or a
string. -/
def startsNoToken (c : Char) : Bool :=
  c.isDigit || ['-', '.', '/', '年', '\'', '"'].contains c

theorem isDigit_of_startsNoToken {c : Char} (h : startsNoToken c = false) : c.isDigit = false := by
  unfold startsNoToken at h
  exact (Bool.or_eq_false_iff.mp h).1

theorem startsNoToken_of_isDigit {c : Char} (h : c.isDigit = true) : startsNoToken c = true := by
  unfold startsNoToken
  rw [h, Bool.true_or]

theorem ne_of_startsNoToken {c d : Char} (h : startsNoToken c = false)
    (special : startsNoToken d = true) : c ≠ d := by
  rintro rfl
  rw [h] at special
  cases special

/-- No blank is among these characters. -/
theorem startsNoToken_of_isBlank {c : Char} (blank : isBlank c = true) :
    startsNoToken c = false := by
  have special : ∀ d, isBlank d = false → c ≠ d := by
    rintro d notBlank rfl
    rw [blank] at notBlank
    cases notBlank
  have digit : c.isDigit = false := by
    by_contra hc
    have := isBlank_eq_false_of_isDigit (by simpa using hc : c.isDigit = true)
    rw [blank] at this
    cases this
  simp only [startsNoToken, digit, Bool.false_or, List.contains_eq_mem, List.mem_cons,
    List.not_mem_nil, or_false, decide_eq_false_iff_not, not_or]
  exact ⟨special _ (by decide), special _ (by decide), special _ (by decide),
    special _ (by decide), special _ (by decide), special _ (by decide)⟩

theorem isBlank_of_startsNoToken {c : Char} (h : startsNoToken c = true) : isBlank c = false := by
  by_contra blank
  rw [startsNoToken_of_isBlank (by simpa using blank)] at h
  cases h

/-- A character that starts no token starts none in the other case either. -/
theorem startsNoToken_toLower (c : Char) : startsNoToken c.toLower = startsNoToken c := by
  have plain : ∀ d : Char, ¬(0x41 ≤ d.toNat ∧ d.toNat ≤ 0x7A) → (c.toLower = d ↔ c = d) := by
    intro d hd
    rw [toLower_eq_iff (by omega), and_iff_left (by omega)]
  simp only [startsNoToken, isDigit_toLower, List.contains_eq_mem, List.mem_cons,
    List.not_mem_nil, or_false, plain '-' (by decide), plain '.' (by decide),
    plain '/' (by decide), plain '年' (by decide), plain '\'' (by decide), plain '"' (by decide)]

/-- No operator goes on with a character that starts no token. -/
theorem toLower_notMem_of_startsNoToken {c : Char} (special : startsNoToken c = true) :
    c.toLower ∉ ['=', '等'] := by
  intro listed
  rw [← startsNoToken_toLower] at special
  simp only [List.mem_cons, List.not_mem_nil, or_false] at listed
  rcases listed with same | same <;> (rw [same] at special; revert special; decide)

/-- No operator goes on with a blank. -/
theorem toLower_notMem_of_isBlank {c : Char} (blank : isBlank c = true) :
    c.toLower ∉ ['=', '等'] := by
  intro listed
  rw [← isBlank_toLower] at blank
  simp only [List.mem_cons, List.not_mem_nil, or_false] at listed
  rcases listed with same | same <;> (rw [same] at blank; revert blank; decide)

/-- A text starts with a blank or with what follows its blanks. -/
theorem ahead_of_skipBlanks {P : Char → Prop} {text : List Char}
    (blank : ∀ c, isBlank c = true → P c) (h : Ahead P (skipBlanks text)) : Ahead P text := by
  cases text with
  | nil => exact ahead_nil _
  | cons c text =>
    rw [ahead_cons]
    by_cases hc : isBlank c = true
    · exact blank c hc
    · rw [skipBlanks_eq_of_not_blank (by simpa using hc), ahead_cons] at h
      exact h

/-- What the second token has beyond the first one, if it goes on from there. -/
def beyond? (token other : List Char) : Option (List Char) :=
  if (lower token).isPrefixOf (lower other) &&
      Grammar.endsBefore token (other.drop token.length) then
    some (other.drop token.length)
  else none

namespace TokenTable

/-- Where the token stands for the symbol, no longer token of the same kind stands,
unless one of the `further` characters follows. -/
def settled (table : TokenTable) (symbol : Symbol) (token : List Char) : Bool :=
  table.entries.all fun entry => !symbol.alike entry.1 || entry.2.all fun other =>
    (beyond? token other.toList).all fun more => more.head?.all symbol.further.contains

/-- No text starts with both tokens. -/
def apart (token other : List Char) : Bool :=
  !(lower token).isPrefixOf (lower other) && !(lower other).isPrefixOf (lower token)

/-- What reading relies on in a table. -/
structure Legible (table : TokenTable) : Prop where
  /-- Tokens start with no blank, and with no character of another literal. -/
  starts : ∀ entry ∈ table.entries, ∀ token ∈ entry.2,
    token.toList.head?.all (fun c => !isBlank c && !startsNoToken c) = true
  /-- What may follow a date is not taken for the letter in front of a time of day. -/
  noTime : ∀ entry ∈ table.entries, entry.1.isEnder = true → ∀ token ∈ entry.2,
    token.toList.head?.all (fun c => c.toLower ≠ 't') = true
  /-- What starts a value does not make the operator in front of it longer. -/
  noFurther : ∀ entry ∈ table.entries, entry.1.startsValue = true → ∀ token ∈ entry.2,
    token.toList.head?.all (fun c => !(['=', '等'].contains c.toLower)) = true
  /-- No token has two meanings of one kind. -/
  distinct : ∀ entry ∈ table.entries, ∀ other ∈ table.entries, entry.1.alike other.1 = true →
    ∀ token ∈ entry.2, ∀ token' ∈ other.2,
      lower token.toList = lower token'.toList → entry.1 = other.1
  /-- What may be tried at a token does not stand there. -/
  apart : ∀ entry ∈ table.entries, ∀ other ∈ table.entries, entry.1.triedAt other.1 = true →
    ∀ token ∈ entry.2, ∀ token' ∈ other.2, apart token.toList token'.toList = true

/-- An entry of the lexicon comes from an entry of the table. -/
theorem exists_entry {table : TokenTable} {token : List Char} {symbol : Symbol}
    (mem : (token, symbol) ∈ table.lexicon) :
    token ≠ [] ∧ ∃ entry ∈ table.entries, entry.1 = symbol ∧
      ∃ spelling ∈ entry.2, spelling.toList = token := by
  obtain ⟨nonempty, entry, hentry, named, listed⟩ := mem_lexicon_iff.mp mem
  exact ⟨nonempty, entry, hentry, named, _, listed, String.toList_ofList⟩

/-- What a token of a legible table starts with. -/
theorem Legible.first {table : TokenTable} (legible : table.Legible) {token : List Char}
    {symbol : Symbol} (mem : (token, symbol) ∈ table.lexicon) :
    ∃ c tail, token = c :: tail ∧ isBlank c = false ∧ startsNoToken c = false ∧
      (symbol.isEnder = true → c.toLower ≠ 't') ∧
      (symbol.startsValue = true → c.toLower ∉ ['=', '等']) := by
  obtain ⟨nonempty, entry, hentry, named, spelling, listed, spelled⟩ := exists_entry mem
  obtain ⟨c, tail, rfl⟩ := List.exists_cons_of_ne_nil nonempty
  have start := legible.starts entry hentry spelling listed
  simp only [spelled, List.head?_cons, Option.all_some, Bool.and_eq_true,
    Bool.not_eq_true'] at start
  refine ⟨c, tail, rfl, start.1, start.2, ?_, ?_⟩
  · intro ender
    have first := legible.noTime entry hentry (by rw [named, ender]) spelling listed
    simpa only [spelled, List.head?_cons, Option.all_some, decide_eq_true_eq] using first
  · intro value
    have first := legible.noFurther entry hentry (by rw [named, value]) spelling listed
    simpa only [spelled, List.head?_cons, Option.all_some, List.contains_eq_mem,
      Bool.not_eq_true', decide_eq_false_iff_not] using first

end TokenTable

namespace Grammar

/-! ### The kinds of tokens that are read -/

/-- Wants one symbol. -/
def exactly (wanted : Symbol) : Symbol → Option Unit :=
  fun s => if s = wanted then some () else none

theorem eq_of_exactly {s t : Symbol} (h : (exactly s t).isSome = true) : t = s := by
  unfold exactly at h
  split at h
  · assumption
  · cases h

/-- Wants a field. -/
def fieldOf : Symbol → Option Field
  | .field f => some f
  | _ => none

theorem alike_of_fieldOf {f : Field} {t : Symbol} (want : (fieldOf t).isSome = true) :
    (Symbol.field f).alike t = true := by
  cases t <;> first | rfl | cases want

/-- Wants an operator. -/
def operatorOf : Symbol → Option Operator
  | .operator o => some o
  | _ => none

theorem alike_of_operatorOf {o : Operator} {t : Symbol} (want : (operatorOf t).isSome = true) :
    (Symbol.operator o).alike t = true := by
  cases t <;> first | rfl | cases want

/-- Wants a connective of a class. -/
def connectiveOf (accepts : Connective → Bool) : Symbol → Option Connective
  | .connective c => if accepts c then some c else none
  | _ => none

theorem accepts_of_connectiveOf {accepts : Connective → Bool} {t : Symbol}
    (h : (connectiveOf accepts t).isSome = true) : ∃ c, t = .connective c ∧ accepts c = true := by
  cases t with
  | connective c =>
    unfold connectiveOf at h
    simp only at h
    split at h
    · exact ⟨c, rfl, ‹_›⟩
    · cases h
  | _ => cases h

/-- Wants a truth value. -/
def truthOf : Symbol → Option Bool
  | .truth b => some b
  | _ => none

theorem alike_of_truthOf {b : Bool} {t : Symbol} (want : (truthOf t).isSome = true) :
    (Symbol.truth b).alike t = true := by
  cases t <;> first | rfl | cases want

/-- Wants a unit of time. -/
def unitOf : Symbol → Option TimeUnit
  | .unit u => some u
  | _ => none

theorem alike_of_unitOf {u : TimeUnit} {t : Symbol} (want : (unitOf t).isSome = true) :
    (Symbol.unit u).alike t = true := by
  cases t <;> first | rfl | cases want

theorem symbol_eq (g : Grammar) (s : Symbol) : g.symbol s = g.pick (exactly s) := rfl

theorem sign_eq (g : Grammar) (p : Punctuation) : g.sign p = g.pick (exactly (.punctuation p)) :=
  rfl

theorem field_eq (g : Grammar) : g.field = g.pick fieldOf := rfl

theorem operator_eq (g : Grammar) : g.operator = g.pick operatorOf := rfl

theorem connective_eq (g : Grammar) (accepts : Connective → Bool) :
    g.connective accepts = g.pick (connectiveOf accepts) := rfl

theorem truth_eq (g : Grammar) : g.truth = g.pick truthOf := rfl

theorem timeUnit_eq (g : Grammar) : g.timeUnit = g.pick unitOf := rfl

/-! ### Matching one token -/

theorem afterLetters?_eq_some_iff {token text rest : List Char} :
    afterLetters? token text = some rest ↔
      ∃ written, text = written ++ rest ∧ lower written = lower token := by
  -- By induction on the token, letter by letter.
  induction token generalizing text with
  | nil =>
    rw [afterLetters?, Option.some.injEq]
    constructor
    · rintro rfl
      exact ⟨[], rfl, rfl⟩
    · rintro ⟨written, rfl, h⟩
      have : written = [] := by simpa [lower] using h
      rw [this, List.nil_append]
  | cons t token ih =>
    cases text with
    | nil =>
      simp only [afterLetters?, reduceCtorEq, false_iff]
      rintro ⟨written, split, h⟩
      have : written = [] := by simpa using (List.append_eq_nil_iff.mp split.symm).1
      rw [this] at h
      cases h
    | cons c text =>
      rw [afterLetters?]
      by_cases same : sameLetter t c = true
      · rw [if_pos same, ih]
        have letter : t.toLower = c.toLower := of_decide_eq_true same
        constructor
        · rintro ⟨written, rfl, h⟩
          exact ⟨c :: written, rfl, by rw [lower_cons, lower_cons, letter, h]⟩
        · rintro ⟨written, split, h⟩
          cases written with
          | nil => cases h
          | cons d written =>
            rw [List.cons_append, List.cons.injEq] at split
            rw [lower_cons, lower_cons, List.cons.injEq] at h
            exact ⟨written, split.2, h.2⟩
      · rw [if_neg same]
        simp only [reduceCtorEq, false_iff]
        rintro ⟨written, split, h⟩
        cases written with
        | nil => cases h
        | cons d written =>
          rw [List.cons_append, List.cons.injEq] at split
          rw [lower_cons, lower_cons, List.cons.injEq, ← split.1] at h
          exact same (decide_eq_true h.1.symm)

theorem endsBefore_iff {token rest : List Char} :
    endsBefore token rest = true ↔ RespectsBoundary token rest := by
  unfold endsBefore RespectsBoundary Ahead
  cases token.getLast?.any isIdent with
  | false => simp
  | true =>
    cases rest with
    | nil => simp
    | cons c rest => simp

/-- What stands after a token: the letters of the token come first, and the rest
respects the word boundary. -/
theorem afterToken?_eq_some_iff {token text rest : List Char} :
    afterToken? token text = some rest ↔
      (∃ written, text = written ++ rest ∧ lower written = lower token) ∧
        RespectsBoundary token rest := by
  rw [afterToken?, Option.filter_eq_some_iff, afterLetters?_eq_some_iff, endsBefore_iff]

/-- The word boundary depends on the next character up to letter case only. -/
theorem endsBefore_congr {token rest rest' : List Char}
    (h : lower (rest.take 1) = lower (rest'.take 1)) :
    endsBefore token rest = endsBefore token rest' := by
  unfold endsBefore
  cases rest with
  | nil =>
    cases rest' with
    | nil => rfl
    | cons d rest' => cases h
  | cons c rest =>
    cases rest' with
    | nil => cases h
    | cons d rest' =>
      have letter : c.toLower = d.toLower := by simpa using h
      have ident : isIdent c = isIdent d := by
        rw [← isIdent_toLower c, letter, isIdent_toLower]
      -- A point has no other case, so it is met or missed on both sides.
      have point : c = '.' ↔ d = '.' := by
        have hc := toLower_eq_iff (c := c) (d := '.') (by decide)
        have hd := toLower_eq_iff (c := d) (d := '.') (by decide)
        rw [letter] at hc
        have no : ¬(0x41 ≤ '.'.toNat ∧ '.'.toNat ≤ 0x5A) := by decide
        exact (and_iff_left no).symm.trans (hc.symm.trans (hd.trans (and_iff_left no)))
      simp only [List.head?_cons, Option.any_some, ident, point]

/-- Two tokens that stand at one place: the longer one goes on from the shorter. -/
theorem beyond?_of_afterToken? {token other text rest rest' : List Char}
    (h : afterToken? token text = some rest) (h' : afterToken? other text = some rest')
    (longer : token.length ≤ other.length) :
    ∃ more, beyond? token other = some more ∧ lower (more.take 1) <+: lower (rest.take 1) ∧
      (more = [] → lower token = lower other) := by
  obtain ⟨⟨written, rfl, hw⟩, boundary⟩ := afterToken?_eq_some_iff.mp h
  obtain ⟨⟨written', split, hw'⟩, _⟩ := afterToken?_eq_some_iff.mp h'
  have len : written.length = token.length := by simpa using congrArg List.length hw
  have len' : written'.length = other.length := by simpa using congrArg List.length hw'
  -- The longer token covers what was written for the shorter one and a part of the rest.
  obtain ⟨u, rfl⟩ : ∃ u, written' = written ++ u := by
    have before : written <+: written ++ rest := ⟨rest, rfl⟩
    have before' : written' <+: written ++ rest := ⟨rest', split.symm⟩
    obtain ⟨u, same⟩ := List.prefix_of_prefix_length_le before before' (by omega)
    exact ⟨u, same.symm⟩
  rw [List.append_assoc, List.append_cancel_left_eq] at split
  have covers : lower token ++ lower u = lower other := by rw [← hw', lower_append, hw]
  have more : lower (other.drop token.length) = lower u := by
    rw [lower, List.map_drop, ← lower, ← covers, List.drop_left' (length_lower token)]
  have head : lower ((other.drop token.length).take 1) = lower (u.take 1) := by
    rw [lower, List.map_take, ← lower, more, lower, ← List.map_take, ← lower]
  refine ⟨other.drop token.length, ?_, ?_, ?_⟩
  · rw [beyond?, if_pos]
    rw [Bool.and_eq_true]
    refine ⟨List.isPrefixOf_iff_prefix.mpr ⟨lower u, covers⟩, ?_⟩
    rw [endsBefore_congr head]
    -- At the boundary stands the same character, or the longer token has ended there.
    cases u with
    | nil => simp [endsBefore]
    | cons c u =>
      rw [← endsBefore_iff, split] at boundary
      rw [← boundary]
      exact endsBefore_congr rfl
  · rw [head, split]
    cases u with
    | nil => exact List.nil_prefix
    | cons c u => simp
  · intro nothing
    rw [nothing, lower_nil] at more
    rw [← covers, ← more, List.append_nil]

/-! ### Reading a token of a kind -/

variable {α : Type} {g : Grammar} {table : TokenTable} {wanted : Symbol → Option α}
  {text rest : List Char} {a : α} {symbol : Symbol}

/-- What `pick` reads is an entry of the lexicon. -/
theorem mem_of_pick (h : g.pick wanted text = .ok (a, rest)) :
    ∃ token symbol, (token, symbol) ∈ g.lexicon ∧ wanted symbol = some a ∧
      afterToken? token (skipBlanks text) = some rest := by
  unfold pick at h
  simp only at h
  split at h
  · rename_i result found
    obtain ⟨⟨token, symbol⟩, mem, read⟩ := List.exists_of_findSome?_eq_some found
    cases h
    cases want : wanted symbol with
    | none => simp [want] at read
    | some b =>
      cases after : afterToken? token (skipBlanks text) with
      | none => simp [want, after] at read
      | some rest' =>
        have same : b = a ∧ rest' = rest := by simpa [want, after] using read
        rw [same.1] at want
        rw [same.2] at after
        exact ⟨token, symbol, mem, want, after⟩
  · cases h

/-- Nothing is picked where no wanted token stands. -/
theorem pick_declines (h : ∀ entry ∈ g.lexicon, (wanted entry.2).isSome = true →
    afterToken? entry.1 (skipBlanks text) = none) : (g.pick wanted).Declines text := by
  refine ⟨⟨skipBlanks text, none, false⟩, ?_, rfl⟩
  unfold pick
  simp only
  split
  · rename_i result found
    obtain ⟨⟨token, symbol⟩, mem, read⟩ := List.exists_of_findSome?_eq_some found
    cases want : wanted symbol with
    | none => simp [want] at read
    | some b =>
      have none := h (token, symbol) mem (by rw [want]; rfl)
      simp [want, none] at read
  · rfl

/-- What is picked is at least as long as any other wanted token that stands there. -/
theorem pick_longest (hg : g.lexicon = table.lexicon) {token : List Char}
    (h : g.pick wanted text = .ok (a, rest)) (mem : (token, symbol) ∈ table.lexicon)
    (want : (wanted symbol).isSome = true) {rest' : List Char}
    (after : afterToken? token (skipBlanks text) = some rest') : rest.length ≤ rest'.length := by
  unfold pick at h
  simp only at h
  split at h
  · rename_i result found
    cases h
    obtain ⟨before, entry, behind, split, read, first⟩ := List.findSome?_eq_some_iff.mp found
    obtain ⟨b, hb⟩ := Option.isSome_iff_exists.mp want
    -- The token cannot stand in front of the entry that was read, so it is not longer.
    have notBefore : (token, symbol) ∉ before := by
      intro hmem
      have := first _ hmem
      simp [hb, after] at this
    have shorter : token.length ≤ entry.1.length := by
      have sorted := table.lexicon_sorted
      rw [← hg, split] at sorted
      rw [← hg, split] at mem
      rcases List.mem_append.mp mem with hmem | hmem
      · exact absurd hmem notBefore
      rcases List.mem_cons.mp hmem with rfl | hmem
      · exact le_refl _
      · exact (List.pairwise_cons.mp (List.pairwise_append.mp sorted).2.1).1 _ hmem
    obtain ⟨c, _, read⟩ := Option.bind_eq_some_iff.mp read
    obtain ⟨rest'', hafter, read⟩ := Option.bind_eq_some_iff.mp read
    have same : rest'' = rest := by
      have := Option.some.inj read
      exact (Prod.mk.inj this).2
    subst same
    -- Both tokens take what they are long off the same text.
    have l1 := afterLetters?_length (Option.filter_eq_some_iff.mp hafter).1
    have l2 := afterLetters?_length (Option.filter_eq_some_iff.mp after).1
    omega
  · cases h

/-- What `pick` reads is a token of one of the wanted symbols. -/
theorem token_of_pick (hg : g.lexicon = table.lexicon)
    (h : g.pick wanted text = .ok (a, rest)) :
    ∃ symbol, wanted symbol = some a ∧ table.Token symbol text rest := by
  obtain ⟨token, symbol, mem, want, after⟩ := mem_of_pick h
  obtain ⟨⟨written, split, same⟩, boundary⟩ := afterToken?_eq_some_iff.mp after
  obtain ⟨blanks, hblanks, blank⟩ := exists_blanks text
  rw [hg] at mem
  -- Behind the blanks stands what was written for the token.
  refine ⟨symbol, want, blanks, written, token, ?_, blank, TokenTable.mem_lexicon_iff.mp mem, same,
    boundary⟩
  rw [List.append_assoc, ← split]
  exact hblanks

end Grammar

namespace TokenTable

variable {table : TokenTable} {symbol : Symbol} {text rest : List Char}

/-- What is written for a token starts as the token does, and not with a blank. -/
theorem Legible.skipBlanks_written (legible : table.Legible) {written token : List Char}
    (mem : (token, symbol) ∈ table.lexicon) (same : lower written = lower token)
    (rest : List Char) : skipBlanks (written ++ rest) = written ++ rest := by
  obtain ⟨t, token, rfl, notBlank, _⟩ := legible.first mem
  cases written with
  | nil => cases same
  | cons c written =>
    have letter : c.toLower = t.toLower := by simpa using congrArg List.head? same
    refine skipBlanks_eq_of_not_blank ?_
    rw [← isBlank_toLower, letter, isBlank_toLower, notBlank]

/-- A token of a legible table starts with a character that is not blank, so it is
found right behind the blanks. -/
theorem Token.after (legible : table.Legible) (h : table.Token symbol text rest) :
    ∃ token, (token, symbol) ∈ table.lexicon ∧
      Grammar.afterToken? token (skipBlanks text) = some rest := by
  obtain ⟨blanks, written, token, rfl, blank, spells, same, boundary⟩ := h
  have mem : (token, symbol) ∈ table.lexicon := mem_lexicon_iff.mpr spells
  refine ⟨token, mem, Grammar.afterToken?_eq_some_iff.mpr ⟨⟨written, ?_, same⟩, boundary⟩⟩
  rw [List.append_assoc, skipBlanks_append_of_blank blank, legible.skipBlanks_written mem same]

/-- A token stands right behind the blanks, too. -/
theorem Token.skipped (legible : table.Legible) (h : table.Token symbol text rest) :
    table.Token symbol (skipBlanks text) rest := by
  obtain ⟨token, mem, after⟩ := h.after legible
  obtain ⟨⟨written, split, same⟩, boundary⟩ := Grammar.afterToken?_eq_some_iff.mp after
  exact ⟨[], written, token, split, by simp, mem_lexicon_iff.mp mem, same, boundary⟩

/-- What a token starts with. -/
theorem Token.ahead (legible : table.Legible) (h : table.Token symbol text rest) :
    ∃ c after, skipBlanks text = c :: after ∧ startsNoToken c = false ∧
      (symbol.isEnder = true → c.toLower ≠ 't') ∧
      (symbol.startsValue = true → c.toLower ∉ ['=', '等']) := by
  obtain ⟨token, mem, after⟩ := h.after legible
  obtain ⟨⟨written, split, same⟩, _⟩ := Grammar.afterToken?_eq_some_iff.mp after
  obtain ⟨t, token, rfl, _, plain, noTime, noFurther⟩ := legible.first mem
  cases written with
  | nil => cases same
  | cons c written =>
    -- The text starts with the letter of the token, perhaps in the other case.
    have letter : c.toLower = t.toLower := by simpa using congrArg List.head? same
    refine ⟨c, written ++ rest, split, ?_, ?_, ?_⟩
    · rw [← startsNoToken_toLower, letter, startsNoToken_toLower, plain]
    · rw [letter]
      exact noTime
    · rw [letter]
      exact noFurther

/-- A text that starts with a token starts with no digit, sign or quote. -/
theorem Token.plain (legible : table.Legible) (h : table.Token symbol text rest) :
    Ahead (startsNoToken · = false) text := by
  obtain ⟨c, after, start, plain, _⟩ := h.ahead legible
  refine ahead_of_skipBlanks (fun _ => startsNoToken_of_isBlank) ?_
  rw [start]
  exact ahead_cons.mpr plain

/-- What starts a value does not make an operator longer. -/
theorem Token.noFurther (legible : table.Legible) (h : table.Token symbol text rest)
    (starts : symbol.startsValue = true) : Ahead (fun c => c.toLower ∉ ['=', '等']) text := by
  obtain ⟨c, after, start, _, _, further⟩ := h.ahead legible
  refine ahead_of_skipBlanks (fun _ => toLower_notMem_of_isBlank) ?_
  rw [start]
  exact ahead_cons.mpr (further starts)

/-- A spelling that the table lists, in any letter case. -/
theorem Token.of_spelling {spelling : List Char} (written : List Char)
    (listed : ∃ entry ∈ table.entries, entry.1 = symbol ∧ String.ofList spelling ∈ entry.2)
    (nonempty : spelling ≠ []) (same : lower written = lower spelling)
    (boundary : RespectsBoundary spelling rest) : table.Token symbol (written ++ rest) rest :=
  ⟨[], written, spelling, rfl, by simp, ⟨nonempty, listed⟩, same, boundary⟩

/-- Blanks may be put in front of a token. -/
theorem Token.prepend {blanks : List Char} (blank : ∀ c ∈ blanks, isBlank c = true)
    (h : table.Token symbol text rest) : table.Token symbol (blanks ++ text) rest := by
  obtain ⟨blanks', written, token, rfl, blank', spells, same, boundary⟩ := h
  refine ⟨blanks ++ blanks', written, token, by simp only [List.append_assoc], ?_, spells, same,
    boundary⟩
  intro c hc
  rcases List.mem_append.mp hc with hc | hc
  · exact blank c hc
  · exact blank' c hc

/-- A spelling behind a space. -/
theorem Token.spaced {spelling : List Char}
    (listed : ∃ entry ∈ table.entries, entry.1 = symbol ∧ String.ofList spelling ∈ entry.2)
    (nonempty : spelling ≠ []) (boundary : RespectsBoundary spelling rest) :
    table.Token symbol (' ' :: (spelling ++ rest)) rest :=
  (Token.of_spelling spelling listed nonempty rfl boundary).prepend isBlank_of_mem_space

/-- A token takes up some of the text. -/
theorem Token.length_lt (h : table.Token symbol text rest) : rest.length < text.length := by
  obtain ⟨blanks, written, token, rfl, _, spells, same, _⟩ := h
  have len : written.length = token.length := by simpa using congrArg List.length same
  have := List.length_pos_iff.mpr spells.1
  simp only [List.length_append]
  omega

end TokenTable

namespace Grammar

variable {α : Type} {g : Grammar} {table : TokenTable} {wanted : Symbol → Option α}
  {text rest : List Char} {a : α} {symbol : Symbol}

/-- Where a wanted token stands, some token is picked. -/
theorem exists_pick {token : List Char} (mem : (token, symbol) ∈ g.lexicon)
    (want : wanted symbol = some a) (after : afterToken? token (skipBlanks text) = some rest) :
    ∃ b rest', g.pick wanted text = .ok (b, rest') := by
  cases read : g.pick wanted text with
  | ok result => exact ⟨result.1, result.2, rfl⟩
  | error failure =>
    unfold pick at read
    simp only at read
    split at read
    · cases read
    · rename_i missing
      have none := List.findSome?_eq_none_iff.mp missing (token, symbol) mem
      simp [want, after] at none

/-- No token of the same kind goes on from a settled one, if no character follows that
may go on with it. -/
theorem eq_nil_of_settled {token other more : List Char} {t : Symbol}
    (settled : table.settled symbol token = true) (mem : (other, t) ∈ table.lexicon)
    (alike : symbol.alike t = true) (beyond : beyond? token other = some more)
    (head : lower (more.take 1) <+: lower (rest.take 1))
    (ahead : Ahead (fun c => c.toLower ∉ symbol.further) rest) : more = [] := by
  obtain ⟨_, entry, hentry, named, spelling, listed, spelled⟩ := TokenTable.exists_entry mem
  have fact := List.all_eq_true.mp settled entry hentry
  rw [named, alike, Bool.not_true, Bool.false_or, List.all_eq_true] at fact
  replace fact := fact spelling listed
  simp only [spelled, beyond, Option.all_some] at fact
  cases more with
  | nil => rfl
  | cons c more =>
    -- A longer token would have to go on with one of the `further` characters.
    exfalso
    simp only [List.head?_cons, Option.all_some, List.contains_eq_mem, decide_eq_true_eq] at fact
    cases rest with
    | nil => simp at head
    | cons d rest =>
      have letter : c.toLower = d.toLower := by simpa using head
      have ne : d.toLower ∉ symbol.further := by simpa using ahead
      rw [← letter] at ne
      exact ne (Symbol.toLower_mem_further fact)

/-- A token that stands after the blanks is picked if none of the same kind goes on from
it with what follows. -/
theorem pick_of_longest (hg : g.lexicon = table.lexicon) (legible : table.Legible)
    (want : wanted symbol = some a) (kind : ∀ t, (wanted t).isSome = true → symbol.alike t = true)
    {token : List Char} (mem : (token, symbol) ∈ table.lexicon)
    (longest : ∀ other t more, (other, t) ∈ table.lexicon → symbol.alike t = true →
      beyond? token other = some more → lower (more.take 1) <+: lower (rest.take 1) → more = [])
    (after : afterToken? token (skipBlanks text) = some rest) :
    g.pick wanted text = .ok (a, rest) := by
  obtain ⟨b, rest', read⟩ := exists_pick (hg ▸ mem) want after
  obtain ⟨other, t, mem', want', after'⟩ := mem_of_pick read
  rw [hg] at mem'
  have alike : symbol.alike t = true := kind t (by rw [want']; rfl)
  have shorter := pick_longest hg read mem (by rw [want]; rfl) after
  have l1 := afterLetters?_length (Option.filter_eq_some_iff.mp after).1
  have l2 := afterLetters?_length (Option.filter_eq_some_iff.mp after').1
  obtain ⟨more, beyond, head, nothing⟩ := beyond?_of_afterToken? after after' (by omega)
  -- What was picked is no longer than the token, so both are spelled alike.
  have same := nothing (longest other t more mem' alike beyond head)
  have symbols : symbol = t := by
    obtain ⟨_, entry, hentry, named, spelling, listed, spelled⟩ := TokenTable.exists_entry mem
    obtain ⟨_, entry', hentry', named', spelling', listed', spelled'⟩ :=
      TokenTable.exists_entry mem'
    rw [← named, ← named'] at alike ⊢
    refine legible.distinct entry hentry entry' hentry' alike spelling listed
      spelling' listed' ?_
    rw [spelled, spelled', same]
  subst symbols
  have length : token.length = other.length := by simpa using congrArg List.length same
  have value : b = a := by
    rw [want'] at want
    exact Option.some.inj want
  have left : rest' = rest := by
    obtain ⟨⟨w, split, _⟩, _⟩ := afterToken?_eq_some_iff.mp after
    obtain ⟨⟨w', split', _⟩, _⟩ := afterToken?_eq_some_iff.mp after'
    refine (List.append_inj' (split'.symm.trans split) ?_).2
    omega
  rw [value, left] at read
  exact read

/-- A token that stands after the blanks is picked if it is settled, and no character
follows that may go on with it. -/
theorem pick_of_settled (hg : g.lexicon = table.lexicon) (legible : table.Legible)
    (want : wanted symbol = some a) (kind : ∀ t, (wanted t).isSome = true → symbol.alike t = true)
    {token : List Char} (mem : (token, symbol) ∈ table.lexicon)
    (settled : table.settled symbol token = true)
    (after : afterToken? token (skipBlanks text) = some rest)
    (ahead : Ahead (fun c => c.toLower ∉ symbol.further) rest) :
    g.pick wanted text = .ok (a, rest) :=
  pick_of_longest hg legible want kind mem
    (fun _ _ _ mem' alike beyond head => eq_nil_of_settled settled mem' alike beyond head ahead)
    after

/-- A token is picked in front of a character that no token of its kind holds. -/
theorem pick_before_foreign (hg : g.lexicon = table.lexicon) (legible : table.Legible)
    (want : wanted symbol = some a) (kind : ∀ t, (wanted t).isSome = true → symbol.alike t = true)
    (foreign : ∀ c ∈ rest.head?, ∀ entry ∈ table.lexicon, symbol.alike entry.2 = true →
      ∀ d ∈ entry.1, d.toLower ≠ c.toLower)
    (h : table.Token symbol text rest) : g.pick wanted text = .ok (a, rest) := by
  obtain ⟨token, mem, after⟩ := h.after legible
  refine pick_of_longest hg legible want kind mem ?_ after
  intro other t more mem' alike beyond head
  cases more with
  | nil => rfl
  | cons d more =>
    -- A longer token would go on with the character.
    obtain ⟨c, first, letter⟩ : ∃ c ∈ rest.head?, d.toLower = c.toLower := by
      cases rest with
      | nil => simp at head
      | cons c rest => exact ⟨c, rfl, by simpa using head⟩
    have held : d ∈ other := by
      unfold beyond? at beyond
      split at beyond
      · have dropped := Option.some.inj beyond
        exact List.mem_of_mem_drop (dropped ▸ List.mem_cons_self)
      · cases beyond
    exact absurd letter (foreign c first (other, t) mem' alike d held)

/-- A settled token is picked behind any blanks. -/
theorem pick_behind_blanks (hg : g.lexicon = table.lexicon) (legible : table.Legible)
    (want : wanted symbol = some a) (kind : ∀ t, (wanted t).isSome = true → symbol.alike t = true)
    {token blanks : List Char} (mem : (token, symbol) ∈ table.lexicon)
    (settled : table.settled symbol token = true) (blank : ∀ c ∈ blanks, isBlank c = true)
    (boundary : RespectsBoundary token rest)
    (ahead : Ahead (fun c => c.toLower ∉ symbol.further) rest) :
    g.pick wanted (blanks ++ (token ++ rest)) = .ok (a, rest) := by
  refine pick_of_settled hg legible want kind mem settled ?_ ahead
  refine afterToken?_eq_some_iff.mpr ⟨⟨token, ?_, rfl⟩, boundary⟩
  obtain ⟨c, tail, rfl, notBlank, _⟩ := legible.first mem
  rw [skipBlanks_append_of_blank blank]
  exact skipBlanks_eq_of_not_blank notBlank

/-- Two tokens that are apart do not stand at one place. -/
theorem afterToken?_eq_none_of_apart {token other : List Char}
    (apart : TokenTable.apart token other = true)
    (h : afterToken? token text = some rest) : afterToken? other text = none := by
  by_contra found
  obtain ⟨rest', h'⟩ := Option.ne_none_iff_exists'.mp found
  obtain ⟨⟨written, hw, same⟩, _⟩ := afterToken?_eq_some_iff.mp h
  obtain ⟨⟨written', hw', same'⟩, _⟩ := afterToken?_eq_some_iff.mp h'
  simp only [TokenTable.apart, Bool.and_eq_true, Bool.not_eq_true', Bool.eq_false_iff, ne_eq,
    List.isPrefixOf_iff_prefix] at apart
  rw [← same, ← same'] at apart
  have p : written <+: text := ⟨rest, hw.symm⟩
  have p' : written' <+: text := ⟨rest', hw'.symm⟩
  rcases List.prefix_or_prefix_of_prefix p p' with h | h
  · exact apart.1 (h.map _)
  · exact apart.2 (h.map _)

/-- Nothing is picked at a token that is apart from all the tokens that are wanted. -/
theorem pick_declines_of_apart (hg : g.lexicon = table.lexicon) (legible : table.Legible)
    (h : table.Token symbol text rest)
    (apart : ∀ entry ∈ table.entries, ∀ other ∈ table.entries, entry.1 = symbol →
      (wanted other.1).isSome = true → ∀ token ∈ entry.2, ∀ token' ∈ other.2,
        TokenTable.apart token.toList token'.toList = true) :
    (g.pick wanted).Declines text := by
  obtain ⟨token, mem, after⟩ := h.after legible
  refine pick_declines ?_
  intro entry hentry want
  rw [hg] at hentry
  obtain ⟨_, standing, hstanding, named, spelling, listed, spelled⟩ := TokenTable.exists_entry mem
  obtain ⟨_, other, hother, named', spelling', listed', spelled'⟩ :=
    TokenTable.exists_entry (show (entry.1, entry.2) ∈ _ from hentry)
  refine afterToken?_eq_none_of_apart ?_ after
  rw [← spelled, ← spelled']
  exact apart standing hstanding other hother named (by rw [named', want]) spelling listed
    spelling' listed'

/-- Nothing is picked at a token where only symbols that are tried there are wanted. -/
theorem pick_declines_at (hg : g.lexicon = table.lexicon) (legible : table.Legible)
    (h : table.Token symbol text rest)
    (tried : ∀ t, (wanted t).isSome = true → symbol.triedAt t = true) :
    (g.pick wanted).Declines text := by
  refine pick_declines_of_apart hg legible h ?_
  intro entry hentry other hother named want
  refine legible.apart entry hentry other hother ?_
  rw [named]
  exact tried _ want

theorem symbol_declines_at (hg : g.lexicon = table.lexicon) (legible : table.Legible)
    (h : table.Token symbol text rest) {other : Symbol} (tried : symbol.triedAt other = true) :
    (g.symbol other).Declines text := by
  rw [symbol_eq]
  refine pick_declines_at hg legible h ?_
  intro t want
  rw [eq_of_exactly want]
  exact tried

theorem connective_declines_at (hg : g.lexicon = table.lexicon) (legible : table.Legible)
    (h : table.Token symbol text rest) {accepts : Connective → Bool}
    (tried : ∀ c, accepts c = true → symbol.triedAt (.connective c) = true) :
    (g.connective accepts).Declines text := by
  rw [connective_eq]
  refine pick_declines_at hg legible h ?_
  intro t want
  obtain ⟨c, rfl, accepted⟩ := accepts_of_connectiveOf want
  exact tried c accepted

theorem truth_declines_at (hg : g.lexicon = table.lexicon) (legible : table.Legible)
    (h : table.Token symbol text rest) (tried : ∀ b, symbol.triedAt (.truth b) = true) :
    g.truth.Declines text := by
  rw [truth_eq]
  refine pick_declines_at hg legible h ?_
  intro t want
  cases t with
  | truth b => exact tried b
  | _ => cases want

/-- Nothing is picked in front of a character that starts no token, nor at the end. -/
theorem pick_declines_ahead (hg : g.lexicon = table.lexicon) (legible : table.Legible)
    (h : Ahead (startsNoToken · = true) (skipBlanks text)) : (g.pick wanted).Declines text := by
  refine pick_declines ?_
  intro entry hentry _
  rw [hg] at hentry
  by_contra found
  obtain ⟨rest', h'⟩ := Option.ne_none_iff_exists'.mp found
  obtain ⟨⟨written, split, same⟩, boundary⟩ := afterToken?_eq_some_iff.mp h'
  have spells := TokenTable.mem_lexicon_iff.mp hentry
  have stands : table.Token entry.2 (skipBlanks text) rest' :=
    ⟨[], written, entry.1, split, by simp, spells, same, boundary⟩
  obtain ⟨c, after, start, token, _⟩ := stands.ahead legible
  rw [skipBlanks_skipBlanks] at start
  rw [start, ahead_cons, token] at h
  cases h

end Grammar

end ForumModeration
