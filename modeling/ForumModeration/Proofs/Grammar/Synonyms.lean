import ForumModeration.Proofs.Grammar.Calls
import ForumModeration.Proofs.Grammar.Spans
import ForumModeration.Proofs.Grammar.Widening

/-!
# `ForumModeration.Proofs.Grammar.Synonyms`: texts keep their meaning when a token is new

Rules and action lists are put together from tokens and literals, and what holds of these by
`Proofs.Grammar.Widening` is carried through to them: the readers of the wider grammar extend
those of the other one, and no text is read to its end through a blocked one. So what was
read before is read alike (`Widens.complete_rule`, `Widens.complete_calls`).

Behind a comma an item may be missing, and then the comma is left to what follows the items.
In an action list nothing that is read can follow. In a list of values the closing bracket can,
if it may be spelled like a comma. A new token that begins a literal turns this comma into
a separator, unless the signs are `TokenTable.Separable`.
-/

set_option autoImplicit false

namespace ForumModeration

open Text

/-- Whether a token for the symbol may be the first of a literal, or follow the digits of one. -/
def Symbol.beginsLiteral (symbol : Symbol) : Bool :=
  symbol.startsValue || symbol.isUnit

/-- Where a comma and a closing bracket can both stand, the bracket is no shorter, and if it is
longer, it does not go on with what could be the new token. -/
def TokenTable.Separable (table : TokenTable) (symbol : Symbol) (first : Char) : Prop :=
  ∀ comma ∈ table.lexicon, comma.2 = .punctuation .comma →
    ∀ closing ∈ table.lexicon, closing.2 = .punctuation .rightBracket →
      TokenTable.apart comma.1 closing.1 = true ∨
        lower comma.1 <+: lower closing.1 ∧
          ¬Grammar.Blocked symbol first (closing.1.drop comma.1.length)

namespace Grammar

open ForumModeration.Parser

variable {symbol : Symbol} {first : Char} {text rest : List Char}

/-! ### Blanks -/

theorem blanks_firm : Firm blanks := by
  rintro text ⟨failure, failed, _⟩
  cases failed

/-- Blanks in front of a text do not change whether it is blocked. -/
theorem extends_after_blanks {α : Type} {q p : Parser α} {after : List Char → Prop}
    (body : Extends (Blocked symbol first) after q p) :
    Extends (Blocked symbol first) after (do blanks; q) (do blanks; p) := by
  have skipped : ∀ {text a rest}, blanks text = .ok (a, rest) →
      (Blocked symbol first text ↔ Blocked symbol first rest) := by
    intro text a rest read
    cases read
    exact blocked_skipBlanks.symm
  have skipping : Tracks symbol first blanks blanks :=
    Extends.refl fun blocked read => (skipped read).mp blocked
  exact skipping.bind (fun _ => body) fun read _ blocked => (skipped read).mpr blocked

/-! ### Items -/

/-- A text is blocked, or a comma stands there and what follows it is blocked. -/
def Paused (g : Grammar) (symbol : Symbol) (first : Char) (text : List Char) : Prop :=
  Blocked symbol first text ∨ ∃ mid, g.sign .comma text = .ok ((), mid) ∧ Blocked symbol first mid

/-- What holds of all characters of a text holds of the same text in another letter case. -/
private theorem forall_of_lower {accepts : Char → Bool} (cases : ∀ c, accepts c.toLower = accepts c)
    {written written' : List Char} (same : lower written = lower written')
    (all : ∀ c ∈ written, accepts c = true) : ∀ c ∈ written', accepts c = true := by
  intro c mem
  have mem : c.toLower ∈ lower written := same ▸ List.mem_map_of_mem mem
  obtain ⟨d, mem, letter⟩ := List.mem_map.mp mem
  rw [← cases, ← letter, cases, all d mem]

/-- The parts of a blocked text. -/
theorem blocked_iff :
    Blocked symbol first text ↔ ∃ blanks run c tail, text = blanks ++ (run ++ c :: tail) ∧
      (∀ d ∈ blanks, isBlank d = true) ∧ (∀ d ∈ run, d.isDigit = true) ∧ isBlank c = false ∧
      c.toLower = first.toLower ∧ (run ≠ [] → symbol.followsDigits first = true) := by
  constructor
  · rintro ⟨run, c, tail, start, digits, same, follows⟩
    obtain ⟨blanks, split, blank⟩ := exists_blanks text
    refine ⟨blanks, run, c, tail, by rwa [← start], blank, digits, ?_, same, follows⟩
    cases run with
    | nil =>
      have next := ahead_dropWhile isBlank text
      change skipBlanks text = c :: tail at start
      rw [← skipBlanks, start] at next
      exact ahead_cons.mp next
    | cons d run =>
      exact isBlank_eq_false_of_isIdent
        (isIdent_of_followsDigits (follows (List.cons_ne_nil d run)) same)
  · rintro ⟨blanks, run, c, tail, rfl, blank, digits, solid, same, follows⟩
    refine ⟨run, c, tail, ?_, digits, same, follows⟩
    rw [skipBlanks_append_of_blank blank]
    cases run with
    | nil => exact skipBlanks_eq_of_not_blank solid
    | cons d run =>
      exact skipBlanks_eq_of_not_blank (isBlank_eq_false_of_isDigit (digits d (by simp)))

/-- Where a text is blocked, a beginning of it is, or what follows that. -/
theorem Blocked.of_append {written : List Char} (blocked : Blocked symbol first (written ++ rest)) :
    Blocked symbol first written ∨ Blocked symbol first rest := by
  obtain ⟨blanks, run, c, tail, split, blank, digits, solid, same, follows⟩ :=
    blocked_iff.mp blocked
  rw [← List.append_assoc] at split
  rcases List.append_eq_append_iff.mp split with ⟨more, front, rfl⟩ | ⟨more, rfl, back⟩
  · -- The beginning ends in front of the character, so this stands in the rest.
    right
    rcases List.append_eq_append_iff.mp front with ⟨run', rfl, rfl⟩ | ⟨blanks', rfl, rfl⟩
    · refine blocked_iff.mpr ⟨[], more, c, tail, rfl, by simp,
        fun d mem => digits d (List.mem_append_right _ mem), solid, same,
        fun nonempty => follows ?_⟩
      exact List.append_ne_nil_of_right_ne_nil _ nonempty
    · exact blocked_iff.mpr ⟨blanks', run, c, tail, List.append_assoc ..,
        fun d mem => blank d (List.mem_append_right _ mem), digits, solid, same, follows⟩
  · cases more with
    | nil => exact .inr (blocked_iff.mpr ⟨[], [], c, tail, back.symm, by simp, by simp, solid, same,
        fun nonempty => absurd rfl nonempty⟩)
    | cons d more =>
      obtain ⟨rfl, _⟩ := List.cons.inj back
      exact .inl (blocked_iff.mpr ⟨blanks, run, c, more, List.append_assoc .., blank, digits, solid,
        same, follows⟩)

/-- Letter case does not matter. -/
theorem Blocked.of_lower {text' : List Char} (blocked : Blocked symbol first text)
    (same : lower text = lower text') : Blocked symbol first text' := by
  obtain ⟨blanks, run, c, tail, rfl, blank, digits, solid, letter, follows⟩ :=
    blocked_iff.mp blocked
  rw [lower_append, lower_append, lower_cons] at same
  obtain ⟨blanks', more, rfl, blanks_, same⟩ := List.map_eq_append_iff.mp same.symm
  obtain ⟨run', more, rfl, run_, same⟩ := List.map_eq_append_iff.mp same
  obtain ⟨c', tail', rfl, letter', -⟩ := List.map_eq_cons_iff.mp same
  refine blocked_iff.mpr ⟨blanks', run', c', tail', rfl, forall_of_lower isBlank_toLower
    blanks_.symm blank, forall_of_lower isDigit_toLower run_.symm digits, ?_,
    letter'.trans letter, fun nonempty => follows ?_⟩
  · rw [← isBlank_toLower, letter', isBlank_toLower, solid]
  · rintro rfl
    exact nonempty (List.map_eq_nil_iff.mp run_)

/-- A closing bracket that stands where a comma stands leaves a blocked text, if the comma does. -/
theorem blocked_of_signs {table : TokenTable} {g : Grammar} (hg : g.lexicon = table.lexicon)
    (separable : table.Separable symbol first) {mid : List Char}
    (comma : g.sign .comma text = .ok ((), mid))
    (closing : g.sign .rightBracket text = .ok ((), rest)) (blocked : Blocked symbol first mid) :
    Blocked symbol first rest := by
  rw [sign_eq] at comma closing
  obtain ⟨token, s, mem, want, stands⟩ := mem_of_pick comma
  obtain ⟨token', s', mem', want', stands'⟩ := mem_of_pick closing
  obtain rfl := eq_of_exactly (Option.isSome_of_mem want)
  obtain rfl := eq_of_exactly (Option.isSome_of_mem want')
  rw [hg] at mem mem'
  rcases separable _ mem rfl _ mem' rfl with apart | ⟨begins, free⟩
  · rw [afterToken?_eq_none_of_apart apart stands] at stands'
    cases stands'
  obtain ⟨⟨written, split, spelled⟩, _⟩ := afterToken?_eq_some_iff.mp stands
  obtain ⟨⟨written', split', spelled'⟩, _⟩ := afterToken?_eq_some_iff.mp stands'
  have shorter : written.length ≤ written'.length := by
    rw [← length_lower written, ← length_lower written', spelled, spelled']
    exact begins.length_le
  rcases List.append_eq_append_iff.mp (split.symm.trans split') with
    ⟨more, rfl, rfl⟩ | ⟨more, rfl, rfl⟩
  · -- The bracket is what is written for the comma and a beginning of what the comma leaves.
    have left : lower more = lower (token'.drop token.length) := by
      rw [lower_append, spelled] at spelled'
      have dropped := congrArg (List.drop token.length) spelled'
      rw [List.drop_left' (length_lower token), lower, lower, ← List.map_drop] at dropped
      exact dropped
    exact blocked.of_append.resolve_left fun blocked => free (blocked.of_lower left)
  · have nothing : more = [] := by
      rw [List.length_append] at shorter
      exact List.length_eq_zero_iff.mp (by omega)
    rwa [nothing]

namespace Widens

variable {table : TokenTable} {g g' : Grammar}

theorem comma (widens : Widens table symbol first g g') :
    Extends (Paused g symbol first) (Blocked symbol first) (g'.sign .comma) (g.sign .comma) where
  reads read := .inl (widens.sign_of_sign read)
  declines no := by
    have ext : Tracks symbol first (g'.sign .comma) (g.sign .comma) :=
      widens.sign .comma
    exact (ext.declines no).imp_right .inl
  keeps {text a rest} paused read := by
    rcases paused with blocked | ⟨mid, read', blocked⟩
    · exact absurd read (widens.sign_declines blocked .comma).not_ok
    · rw [read] at read'
      cases read'
      exact blocked

/-- An item that is missing behind a comma leaves the comma. -/
theorem further (widens : Widens table symbol first g g') {α : Type} {q p : Parser α}
    (item : Tracks symbol first q p) :
    Extends (Paused g symbol first) (Paused g symbol first) (do let _ ← g'.sign .comma; q)
      (do let _ ← g.sign .comma; p) :=
  widens.comma.bind (fun _ => item.weaken fun _ => .inl) fun read _ blocked =>
    .inr ⟨_, read, blocked⟩

/-- A literal without lists declines for the new grammar where it does for the old one, if the
new token is none of its words. -/
private theorem bareLiteral_declines (widens : Widens table symbol first g g')
    (word : symbol.beginsLiteral = false) (no : g.bareLiteral.Declines text) :
    g'.bareLiteral.Declines text := by
  have unwanted : ∀ {α : Type} {wanted : Symbol → Option α},
      (∀ t, (wanted t).isSome = true → t.beginsLiteral = true) → wanted symbol = none := by
    intro α wanted begins
    by_contra want
    have := begins symbol (Option.isSome_iff_ne_none.mpr want)
    rw [word] at this
    cases this
  have truth : g'.truth = g.truth := by
    rw [truth_eq, truth_eq]
    refine widens.pick_eq_of_unwanted (unwanted fun t want => ?_)
    cases t <;> first | rfl | cases want
  have present : g'.symbol .now = g.symbol .now := by
    rw [symbol_eq, symbol_eq]
    refine widens.pick_eq_of_unwanted (unwanted fun t want => ?_)
    rw [eq_of_exactly want]
    rfl
  obtain ⟨noDate, no⟩ := no.of_orElse
  obtain ⟨noRelative, no⟩ := no.of_orElse
  unfold Grammar.bareLiteral
  rw [widens.date_eq, widens.now, truth, present]
  refine noDate.orElse (Declines.orElse ?_ no)
  rcases widens.relative_declines_or noRelative.of_map with no' | ⟨_, _, _, _, _, unit⟩
  · exact no'.map
  · rw [Symbol.beginsLiteral, unit, Bool.or_true] at word
    cases word

/-- With lists that are held by either reader, too. -/
private theorem literalWith_declines (widens : Widens table symbol first g g')
    (word : symbol.beginsLiteral = false) {wantsDate : Bool} {q p : Parser (List Value)}
    (firm : Firm p) (no : (g.literalWith wantsDate p).Declines text) :
    (g'.literalWith wantsDate q).Declines text := by
  have bracket : g'.sign .leftBracket = g.sign .leftBracket := by
    rw [sign_eq, sign_eq]
    refine widens.pick_eq_of_unwanted ?_
    by_contra want
    rw [eq_of_exactly (Option.isSome_iff_ne_none.mpr want)] at word
    cases word
  rcases no.of_bind with ⟨_, failed, _⟩ | ⟨_, mid, skipped, no⟩
  · cases failed
  refine Declines.after skipped ?_
  obtain ⟨noString, no⟩ := no.of_orElse
  obtain ⟨noList, noBare⟩ := no.of_orElse
  rw [← widens.quotedLiteral_eq] at noString
  refine noString.orElse (Declines.orElse ?_ (widens.bareLiteral_declines word noBare))
  -- A list is missed at its bracket, or refused for good.
  rcases noList.of_bind with noBracket | ⟨_, _, _, no⟩
  · rw [← bracket] at noBracket
    exact noBracket.bind
  · exact absurd no (firm.bind (fun _ => (Firm.required _ _).bind fun _ => .pure _) _)

theorem literalWith (widens : Widens table symbol first g g') (wantsDate : Bool)
    {between : List Char → Prop} {q p : Parser (List Value)}
    (items : Extends (Blocked symbol first) between q p) (firm : Firm p)
    (closing : Extends between (Blocked symbol first)
      (required .closingBracket (g'.sign .rightBracket))
      (required .closingBracket (g.sign .rightBracket))) :
    Tracks symbol first (g'.literalWith wantsDate q)
      (g.literalWith wantsDate p) := by
  have list : Tracks symbol first (g'.listOf q) (g.listOf p) := by
    refine (widens.sign .leftBracket).bind_firm (fun _ => items.bind_firm (fun _ =>
      closing.bind_firm (fun _ => Extends.pure _) fun _ => .pure _) fun _ => ?_) fun _ => ?_
    · exact (Firm.required _ _).bind fun _ => .pure _
    · exact firm.bind fun _ => (Firm.required _ _).bind fun _ => .pure _
  refine extends_after_blanks (Extends.orElse ?_ (list.orElse widens.bareLiteral))
  rw [widens.quotedLiteral_eq]
  exact Extends.refl fun blocked read =>
    absurd read (widens.quotedLiteral_declines blocked wantsDate).not_ok

/-- Any literal. A new token that may begin one may come to stand behind a comma that the old
grammar leaves. Where that is what closes the list, the signs have to be separable. -/
theorem literal (widens : Widens table symbol first g g')
    (separable : symbol.beginsLiteral = true → table.Separable symbol first)
    (wantsDate : Bool) (depth : Nat) :
    Tracks symbol first (g'.literal wantsDate depth) (g.literal wantsDate depth) := by
  -- By induction on the levels left: the items of a list have one less.
  induction depth with
  | zero =>
    exact widens.literalWith wantsDate (Extends.reject _) (.reject _)
      ((widens.sign .rightBracket).required _)
  | succ depth ih =>
    have shorter : ∀ {text rest value},
        (do let _ ← g.sign .comma; g.literal wantsDate depth) text = .ok (value, rest) →
          rest.length < text.length := by
      intro text rest value read
      obtain ⟨mid, comma, item⟩ := furtherItem_eq_ok read
      have := sign_length_lt widens.lexicon comma
      have := (literal_cuts widens.lexicon wantsDate depth item).length_le
      omega
    cases word : symbol.beginsLiteral with
    | true =>
      refine widens.literalWith wantsDate ((ih.weaken fun _ => .inl).separatedOrNone
        (fun _ => .inl) (widens.further ih) shorter) (.separatedOrNone _ _)
        (widens.required_sign _ ?_)
      rintro text rest (blocked | ⟨mid, comma, blocked⟩) read
      · exact absurd read (widens.sign_declines blocked .rightBracket).not_ok
      · exact blocked_of_signs widens.lexicon (separable word) comma read blocked
    | false =>
      have item : Extends (fun _ => False) (Blocked symbol first) (g'.literal wantsDate depth)
          (g.literal wantsDate depth) := by
        refine ih.unmarked fun text no => ?_
        cases depth with
        | zero => exact widens.literalWith_declines word (.reject _) no
        | succ depth => exact widens.literalWith_declines word (.separatedOrNone _ _) no
      have comma : Extends (Blocked symbol first) (fun _ => False) (g'.sign .comma)
          (g.sign .comma) :=
        widens.sign .comma
      exact widens.literalWith wantsDate (ih.separatedOrNone (fun _ blocked => blocked)
        (comma.bind (fun _ => item) fun _ _ no => no.elim) shorter) (.separatedOrNone _ _)
        ((widens.sign .rightBracket).required _)

/-! ### Rules -/

theorem condition (widens : Widens table symbol first g g')
    (separable : symbol.beginsLiteral = true → table.Separable symbol first) (depth : Nat) :
    Tracks symbol first (g'.condition depth) (g.condition depth) := by
  have field : Tracks symbol first (word .field g'.field) (word .field g.field) :=
    (widens.pick fieldOf).expecting _
  have operator : Tracks symbol first ((Parser.commit g'.operator).word .operator)
      ((Parser.commit g.operator).word .operator) :=
    (widens.pick operatorOf).commit.expecting _
  have firm : ∀ {α : Type} (kind : WordKind) (p : Parser α), Firm ((Parser.commit p).word kind) :=
    fun _ p => (Firm.commit p).expecting _
  rw [condition_eq, condition_eq]
  refine field.bind_firm (fun f => operator.bind_firm (fun o => ?_) fun o => ?_) fun f => ?_
  · exact extends_after_blanks (Extends.checked
      ((widens.literal separable f.isTime depth).commit.expecting _) (firm _ _) .listAfterIn _)
  · exact blanks_firm.bind fun _ => (firm _ _).checked
  · exact (firm _ _).bind fun o => blanks_firm.bind fun _ => (firm _ _).checked

theorem tier (widens : Widens table symbol first g g') (accepts : Connective → Bool)
    {q p : Parser Trigger} (operand : Tracks symbol first q p) (cuts : Cuts p) :
    Tracks symbol first (g'.tier accepts q) (g.tier accepts p) := by
  have right : Tracks symbol first (g'.rightOperand q) (g.rightOperand p) := by
    unfold rightOperand
    rw [widens.strict, widens.strict', if_neg Bool.false_ne_true, if_neg Bool.false_ne_true]
    exact operand.commit
  have firm : Firm (g.rightOperand p) := by
    unfold rightOperand
    rw [widens.strict, if_neg Bool.false_ne_true]
    exact .commit _
  have further : Tracks symbol first (g'.continuation accepts q) (g.continuation accepts p) :=
    (widens.pick (connectiveOf accepts)).bind_firm
      (fun _ => right.bind_firm (fun _ => Extends.pure _) fun _ => .pure _)
      fun _ => firm.bind fun _ => .pure _
  refine operand.bind_firm (fun _ => (further.many ?_).bind_firm (fun _ => Extends.pure _)
    fun _ => .pure _) fun _ => (Firm.many _).bind fun _ => .pure _
  intro text pair rest read
  obtain ⟨mid, hconnective, hoperand⟩ := continuation_eq_ok read
  have := pick_length_lt widens.lexicon (by rwa [connective_eq] at hconnective)
  have := (cuts hoperand).length_le
  omega

theorem tiers (widens : Widens table symbol first g g') {q p : Parser Trigger}
    (operand : Tracks symbol first q p) (cuts : Cuts p) :
    Tracks symbol first (g'.tiers q) (g.tiers p) :=
  widens.tier _ (widens.tier _ operand cuts) (tier_cuts widens.lexicon _ cuts)

theorem operandWith (widens : Widens table symbol first g g')
    (separable : symbol.beginsLiteral = true → table.Separable symbol first) (depth : Nat)
    {negated negated' inner inner' : Parser Trigger}
    (hnegated : Tracks symbol first negated' negated) (hinner : Tracks symbol first inner' inner)
    (firmNegated : Firm negated) (firmInner : Firm inner) :
    Tracks symbol first (g'.operandWith depth negated' inner')
      (g.operandWith depth negated inner) := by
  have closing : Tracks symbol first (required .closingParen (g'.sign .rightParen))
      (required .closingParen (g.sign .rightParen)) :=
    (widens.sign .rightParen).required _
  have parens : Tracks symbol first (g'.parenthesized inner') (g.parenthesized inner) :=
    (widens.sign .leftParen).bind_firm (fun _ => hinner.bind_firm (fun _ =>
      closing.bind_firm (fun _ => Extends.pure _) fun _ => .pure _)
        fun _ => (Firm.required _ _).bind fun _ => .pure _)
      fun _ => firmInner.bind fun _ => (Firm.required _ _).bind fun _ => .pure _
  have negation : Tracks symbol first
      (optional (g'.connective Connective.isUnary)) (optional (g.connective Connective.isUnary)) :=
    (widens.pick (connectiveOf _)).optional fun _ blocked => blocked
  refine negation.bind (fun found => ?_) ?_
  · cases found with
    | some _ => exact hnegated.map _
    | none => exact parens.orElse (widens.condition separable depth)
  · intro text found mid read no blocked
    -- The other forms of an operand are tried where the first one was.
    rcases optional_eq_ok.mp read with ⟨_, rfl, _⟩ | ⟨_, rfl, _⟩
    · exact absurd no (firmNegated.map _ mid)
    · exact blocked

theorem operand (widens : Widens table symbol first g g')
    (separable : symbol.beginsLiteral = true → table.Separable symbol first) (depth : Nat) :
    Tracks symbol first (g'.operand depth) (g.operand depth) := by
  -- By induction on the levels left: what an operand holds has one less.
  induction depth with
  | zero =>
    exact widens.operandWith separable 0 (Extends.reject _) (Extends.reject _) (.reject _)
      (.reject _)
  | succ depth ih =>
    exact widens.operandWith separable (depth + 1) ih.commit
      (widens.tiers ih (operand_cuts widens.lexicon depth)).commit (.commit _) (.commit _)

theorem rule (widens : Widens table symbol first g g')
    (separable : symbol.beginsLiteral = true → table.Separable symbol first) :
    Tracks symbol first g'.rule g.rule :=
  have tiers : Tracks symbol first (g'.tiers (g'.operand maxDepth))
      (g.tiers (g.operand maxDepth)) :=
    widens.tiers (widens.operand separable maxDepth) (operand_cuts widens.lexicon maxDepth)
  tiers.bind_firm (fun _ => extends_after_blanks (Extends.pure _)) fun _ =>
    blanks_firm.bind fun _ => .pure _

end Widens

/-! ### Action lists -/

section

variable {table : TokenTable} {now : Instant}

private theorem scalar_length_le {value : Value}
    (read : (ofTable table now).scalar text = .ok (value, rest)) : rest.length ≤ text.length := by
  rw [scalar_apply] at read
  have skipped := skipBlanks_length_le text
  rcases orElse_eq_ok.mp read with quoted | ⟨_, bare⟩
  · have := (barePhrase_of_quotedLiteral quoted).cleanCut.length_le
    omega
  · have phrase : BarePhrase table now false (skipBlanks text) value rest :=
      barePhrase_of_bareLiteral bare
    have := phrase.cleanCut.length_le
    omega

private theorem parameter_length_le {entry : String × Value}
    (read : (ofTable table now).parameter text = .ok (entry, rest)) :
    rest.length ≤ text.length := by
  obtain ⟨_, t1, hblanks, read⟩ := bind_eq_ok.mp read
  obtain ⟨name, t2, hname, read⟩ := bind_eq_ok.mp read
  obtain ⟨_, t3, hassign, read⟩ := bind_eq_ok.mp read
  obtain ⟨value, t4, hvalue, read⟩ := bind_eq_ok.mp read
  obtain ⟨_, rfl⟩ := pure_eq_ok.mp read
  have skipped : t1.length ≤ text.length := by
    cases hblanks
    exact skipBlanks_length_le text
  have named : t2.length ≤ t1.length := by
    rw [(run_eq_ok.mp hname).2.1, List.length_append]
    omega
  have assigned := sign_length_lt rfl (required_eq_ok.mp hassign)
  have valued := scalar_length_le (commit_eq_ok.mp (expecting_eq_ok.mp hvalue))
  omega

private theorem further_length_le {α : Type} {p : Parser α}
    (item : ∀ {text a rest}, p text = .ok (a, rest) → rest.length ≤ text.length) {a : α}
    (read : (do let _ ← (ofTable table now).sign .comma; p) text = .ok (a, rest)) :
    rest.length < text.length := by
  obtain ⟨_, mid, comma, read⟩ := bind_eq_ok.mp read
  have := sign_length_lt rfl comma
  have := item read
  omega

private theorem call_length_le {action : Action}
    (read : (ofTable table now).call text = .ok (action, rest)) : rest.length ≤ text.length := by
  obtain ⟨kind, t1, hkind, read⟩ := bind_eq_ok.mp read
  obtain ⟨_, t2, hopening, read⟩ := bind_eq_ok.mp read
  obtain ⟨params, t3, hparams, read⟩ := bind_eq_ok.mp read
  obtain ⟨_, t4, hclosing, read⟩ := bind_eq_ok.mp read
  obtain ⟨_, rfl⟩ := pure_eq_ok.mp read
  have named := expecting_eq_ok.mp hkind
  rw [actionKind_eq] at named
  have named := pick_length_lt rfl named
  have opened := sign_length_lt rfl (required_eq_ok.mp hopening)
  have closed := sign_length_lt rfl (required_eq_ok.mp hclosing)
  have held : t3.length ≤ t2.length := by
    obtain ⟨found, mid, hfirst, hothers⟩ := bind_eq_ok.mp hparams
    rcases optional_eq_ok.mp hfirst with ⟨entry, rfl, hentry⟩ | ⟨rfl, rfl, _⟩
    · obtain ⟨others, mid', hmany, hpure⟩ := bind_eq_ok.mp hothers
      obtain ⟨_, rfl⟩ := pure_eq_ok.mp hpure
      refine Nat.le_trans ?_ (parameter_length_le hentry)
      refine many_sound (R := fun text _ rest => rest.length ≤ text.length)
        (fun _ => Nat.le_refl _) ?_ hmany
      intro text entry mid others rest hfurther more
      exact Nat.le_trans more (Nat.le_of_lt (further_length_le parameter_length_le hfurther))
    · obtain ⟨_, rfl⟩ := pure_eq_ok.mp hothers
      exact Nat.le_refl _
  omega

end

namespace Widens

variable {table : TokenTable} {g g' : Grammar}

theorem eq_ofTable (widens : Widens table symbol first g g') : g = ofTable table g.now := by
  obtain ⟨lexicon, now, lenient⟩ := g
  obtain rfl := widens.lexicon
  obtain rfl := widens.strict
  rfl

theorem scalar (widens : Widens table symbol first g g') :
    Tracks symbol first g'.scalar g.scalar := by
  refine extends_after_blanks (Extends.orElse ?_ widens.bareLiteral)
  rw [widens.quotedLiteral_eq]
  exact Extends.refl fun blocked read =>
    absurd read (widens.quotedLiteral_declines blocked false).not_ok

/-- A parameter is not read where the text is blocked: its name might be the new token. -/
theorem parameter (widens : Widens table symbol first g g') :
    Extends (fun _ => False) (Blocked symbol first) g'.parameter g.parameter := by
  have skipping : Extends (fun _ => False) (fun _ => False) blanks blanks :=
    Extends.refl fun no _ => no
  have name : Extends (fun _ => False) (fun _ => False) (run isNameChar) (run isNameChar) :=
    Extends.refl fun no _ => no
  have assign : Extends (fun _ => False) (fun _ => False)
      (required .assignment (g'.sign .assign)) (required .assignment (g.sign .assign)) :=
    widens.required_sign _ fun no _ => no
  have value : Extends (fun _ => False) (Blocked symbol first)
      ((Parser.commit g'.scalar).word .literal) ((Parser.commit g.scalar).word .literal) :=
    (widens.scalar.commit.expecting _).restrict ((Firm.commit _).expecting _) fun _ no => no.elim
  have valued : ∀ name : List Char, Extends (fun _ => False) (Blocked symbol first)
      (do let value ← (Parser.commit g'.scalar).word .literal
          return (String.ofList name, value))
      (do let value ← (Parser.commit g.scalar).word .literal
          return (String.ofList name, value)) :=
    fun _ => value.bind_firm (fun _ => Extends.pure _) fun _ => .pure _
  have firm : ∀ name : List Char, Firm (do
      let value ← (Parser.commit g.scalar).word .literal
      return (String.ofList name, value)) :=
    fun _ => ((Firm.commit _).expecting _).bind fun _ => .pure _
  exact skipping.bind (fun _ => name.bind_firm (fun n => assign.bind_firm (fun _ => valued n)
    fun _ => firm n) fun n => (Firm.required _ _).bind fun _ => firm n) fun _ _ no => no.elim

theorem call (widens : Widens table symbol first g g') :
    Tracks symbol first g'.call g.call := by
  have kind : Extends (Blocked symbol first) (fun _ => False) (word .action g'.actionKind)
      (word .action g.actionKind) :=
    (widens.pick actionOf).expecting _
  have opening : Extends (fun _ => False) (fun _ => False)
      (required .openingParen (g'.sign .leftParen)) (required .openingParen (g.sign .leftParen)) :=
    widens.required_sign _ fun no _ => no
  have comma : Extends (Blocked symbol first) (fun _ => False) (g'.sign .comma) (g.sign .comma) :=
    widens.sign .comma
  have params : Extends (fun _ => False) (Blocked symbol first)
      (Parser.separatedOrNone g'.parameter (g'.sign .comma))
      (Parser.separatedOrNone g.parameter (g.sign .comma)) := by
    refine widens.parameter.separatedOrNone (fun _ no => no.elim)
      (comma.bind (fun _ => widens.parameter) fun _ _ no => no.elim) ?_
    intro text entry rest read
    rw [widens.eq_ofTable] at read
    exact further_length_le parameter_length_le read
  have closing : Tracks symbol first (required .closingParen (g'.sign .rightParen))
      (required .closingParen (g.sign .rightParen)) :=
    (widens.sign .rightParen).required _
  exact kind.bind_firm (fun _ => opening.bind_firm (fun _ => params.bind_firm (fun _ =>
      closing.bind_firm (fun _ => Extends.pure _) fun _ => .pure _)
        fun _ => (Firm.required _ _).bind fun _ => .pure _)
      fun _ => (Firm.separatedOrNone _ _).bind fun _ => (Firm.required _ _).bind fun _ => .pure _)
    fun _ => (Firm.required _ _).bind fun _ => (Firm.separatedOrNone _ _).bind fun _ =>
      (Firm.required _ _).bind fun _ => .pure _

/-- Behind the word that introduces it, an action list that starts with the new token is
refused by the old grammar, and read by the new one. So this is about what is read only. -/
theorem calls_of_calls (widens : Widens table symbol first g g') {actions : List Action}
    (read : g.calls text = .ok (actions, rest)) :
    g'.calls text = .ok (actions, rest) ∨ Paused g symbol first rest := by
  have introduction : Tracks symbol first (optional g'.introduction) (optional g.introduction) := by
    have word : Tracks symbol first (g'.symbol .actionPrefix) (g.symbol .actionPrefix) :=
      widens.pick (exactly .actionPrefix)
    have colon : Tracks symbol first (optional (g'.sign .colon)) (optional (g.sign .colon)) :=
      (widens.sign .colon).optional fun _ blocked => blocked
    exact (word.bind_firm (fun _ => colon.bind_firm (fun _ => Extends.pure _) fun _ => .pure _)
      fun _ => (Firm.optional _).bind fun _ => .pure _).optional fun _ blocked => blocked
  have list : Extends (Blocked symbol first) (Paused g symbol first)
      (Parser.separated g'.call (g'.sign .comma)) (Parser.separated g.call (g.sign .comma)) := by
    refine (widens.call.weaken fun _ => .inl).separated (widens.further widens.call) ?_
    intro text action rest read
    rw [widens.eq_ofTable] at read
    exact further_length_le call_length_le read
  have skipping : Extends (Paused g symbol first) (Paused g symbol first) blanks blanks := by
    refine Extends.refl fun paused read => ?_
    cases read
    rcases paused with blocked | ⟨mid, comma, blocked⟩
    · exact .inl (blocked_skipBlanks.mpr blocked)
    · refine .inr ⟨mid, ?_, blocked⟩
      rwa [sign_eq, pick_skipBlanks]
  exact introduction.reads_bind (fun _ => list.bind_firm (fun _ =>
    skipping.bind_firm (fun _ => Extends.pure _) fun _ => .pure _)
      fun _ => blanks_firm.bind fun _ => .pure _) read

/-! ### Whole texts -/

/-- A text that the old grammar reads as a rule is read as the same rule. -/
theorem complete_rule (widens : Widens table symbol first g g')
    (separable : symbol.beginsLiteral = true → table.Separable symbol first)
    {trigger : Trigger} (read : complete g.rule text = .ok trigger) :
    complete g'.rule text = .ok trigger := by
  rw [complete_eq_ok] at read ⊢
  rcases (widens.rule separable).reads read with same | blocked
  · exact same
  · exact absurd blocked not_blocked_nil

/-- A text that the old grammar reads as an action list is read as the same actions. -/
theorem complete_calls (widens : Widens table symbol first g g') {actions : List Action}
    (read : complete g.calls text = .ok actions) : complete g'.calls text = .ok actions := by
  rw [complete_eq_ok] at read ⊢
  rcases widens.calls_of_calls read with same | blocked | ⟨mid, comma, _⟩
  · exact same
  · exact absurd blocked not_blocked_nil
  · exact absurd (sign_length_lt widens.lexicon comma) (Nat.not_lt_zero _)

end Widens

/-- A synonym that is not empty and starts with a fresh character widens the grammar. -/
theorem widens_withSynonym {table : TokenTable} (fresh : table.Fresh first)
    (afterDigits : symbol.followsDigits first = true → table.FreshAfterDigits first)
    {token : String} {tail : List Char} (spelled : token.toList = first :: tail) (now : Instant) :
    Widens table symbol first (ofTable table now) (ofTable (table.withSynonym symbol token) now)
    where
  lexicon := rfl
  more := by
    refine ⟨tail, ?_⟩
    rw [← spelled]
    exact table.lexicon_withSynonym symbol (by rw [spelled]; exact List.cons_ne_nil _ _)
  now := rfl
  strict := rfl
  strict' := rfl
  fresh := fresh
  afterDigits := afterDigits

end Grammar

end ForumModeration
