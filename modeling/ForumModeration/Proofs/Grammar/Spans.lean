import ForumModeration.Proofs.Grammar.Leniency
import ForumModeration.Proofs.Grammar.Soundness

/-!
# `ForumModeration.Proofs.Grammar.Spans`: what a reading goes over

A reading leaves the end of the text it was given, and it has gone over the rest of
it. What holds where the two meet holds of a reading that is put together if it holds of
its parts (`Seam`). So it holds of rules if it holds of blanks, of tokens and of values
that are no lists (`SeamOf`, `rule_seam`).

One such relation is a clean cut (`CleanCut`): no word of identifier characters goes on
from what was read into what was left, and neither does a name with a point. The one kind
of word that may be cut is one whose last character so far is a digit, as the end of a date
is looked for in no other way than by its length.

* `rule_cuts`: rules are cut clean, read strictly or leniently with any table.
* `rule_length_lt`: a rule goes over at least one character.
-/

set_option autoImplicit false

namespace ForumModeration

open Text

/-! ### Ends of words -/

/-- A text that ends in an identifier character ends in a digit. -/
def EndsNoWord (text : List Char) : Prop :=
  ∀ c ∈ text.getLast?, isIdent c = true → c.isDigit = true

theorem endsNoWord_nil : EndsNoWord [] := by
  intro c last
  cases last

theorem endsNoWord_of_last (text : List Char) {c : Char} (h : isIdent c = false) :
    EndsNoWord (text ++ [c]) := by
  intro d last ident
  rw [List.getLast?_concat, Option.mem_some] at last
  rw [← last, h] at ident
  cases ident

theorem endsNoWord_of_digits {text : List Char} (h : ∀ c ∈ text, c.isDigit = true) :
    EndsNoWord text :=
  fun c last _ => h c (List.mem_of_getLast? last)

theorem EndsNoWord.append {text text' : List Char} (h : EndsNoWord text) (h' : EndsNoWord text') :
    EndsNoWord (text ++ text') := by
  intro c last
  rw [Option.mem_def, List.getLast?_append, Option.or_eq_some_iff] at last
  rcases last with last | ⟨_, last⟩
  · exact h' c last
  · exact h c last

/-- What stands in front does not matter. -/
theorem EndsNoWord.prepend {text' : List Char} (h : EndsNoWord text') (nonempty : text' ≠ [])
    (text : List Char) : EndsNoWord (text ++ text') := by
  intro c last
  rw [List.getLast?_append_of_ne_nil _ nonempty] at last
  exact h c last

theorem EndsNoWord.cons {c : Char} {text : List Char} (h : isIdent c = false)
    (h' : EndsNoWord text) : EndsNoWord (c :: text) :=
  (endsNoWord_of_last [] h).append h'

/-! ### Clean cuts -/

/-- Where a text ends and another one goes on, no word is cut, but for one that ends in
a digit so far. -/
def Severed (text rest : List Char) : Prop :=
  ∀ c ∈ text.getLast?, isIdent c = true → c.isDigit = false →
    Ahead (fun d => isIdent d = false ∧ d ≠ '.') rest

/-- The second text is the end of the first, and no word is cut where it starts. -/
def CleanCut (text rest : List Char) : Prop :=
  ∃ before, text = before ++ rest ∧ Severed before rest

namespace CleanCut

variable {text mid rest : List Char}

theorem refl (text : List Char) : CleanCut text text :=
  ⟨[], rfl, fun _ last => by cases last⟩

theorem trans (first : CleanCut text mid) (second : CleanCut mid rest) : CleanCut text rest := by
  obtain ⟨before, rfl, cut⟩ := first
  obtain ⟨between, rfl, cut'⟩ := second
  refine ⟨before ++ between, by rw [List.append_assoc], ?_⟩
  intro c last
  rw [Option.mem_def, List.getLast?_append, Option.or_eq_some_iff] at last
  rcases last with last | ⟨none, last⟩
  · exact cut' c last
  · -- Nothing stands between, so the first cut is the cut.
    rw [List.getLast?_eq_none_iff] at none
    subst none
    exact cut c last

theorem of_endsNoWord {before : List Char} (h : EndsNoWord before) :
    CleanCut (before ++ rest) rest := by
  refine ⟨before, rfl, ?_⟩
  intro c last ident noDigit
  rw [h c last ident] at noDigit
  cases noDigit

/-- Blanks cut no word. -/
theorem blanks {before : List Char} (blank : ∀ c ∈ before, isBlank c = true) :
    CleanCut (before ++ rest) rest := by
  refine of_endsNoWord ?_
  intro c last ident
  rw [isIdent_eq_false_of_isBlank (blank c (List.mem_of_getLast? last))] at ident
  cases ident

theorem suffix (h : CleanCut text rest) : rest <:+ text := by
  obtain ⟨before, rfl, _⟩ := h
  exact ⟨before, rfl⟩

theorem length_le (h : CleanCut text rest) : rest.length ≤ text.length :=
  h.suffix.length_le

end CleanCut

/-- A token does not cut a word. -/
theorem TokenTable.Token.cleanCut {table : TokenTable} {symbol : Symbol} {text rest : List Char}
    (h : table.Token symbol text rest) : CleanCut text rest := by
  obtain ⟨blanks, written, token, rfl, blank, _, same, boundary⟩ := h
  rw [List.append_assoc]
  refine (CleanCut.blanks blank).trans ⟨written, rfl, ?_⟩
  intro c last ident _
  refine boundary ?_
  -- The token ends in the same letter, perhaps in the other case.
  obtain ⟨d, last', letter⟩ := exists_getLast?_of_lower same.symm last
  rw [last', Option.any_some, ← isIdent_toLower, letter, isIdent_toLower, ident]

/-! ### Literals -/

theorem NumberText.endsNoWord {written : List Char} {value : Value}
    (h : NumberText written value) : EndsNoWord written := by
  have sign : ∀ negative, EndsNoWord (signText negative) := by
    intro negative
    cases negative
    · exact endsNoWord_nil
    · exact EndsNoWord.cons (by decide) endsNoWord_nil
  cases h with
  | int digits _ _ => exact (sign _).append (endsNoWord_of_digits digits.2)
  | float digits more =>
    exact ((sign _).append (endsNoWord_of_digits digits.2)).append
      (.cons (by decide) (endsNoWord_of_digits more.2))

theorem DateText.endsNoWord {written : List Char} {time : LocalTime} (h : DateText written time) :
    EndsNoWord written := by
  obtain ⟨front, c, rfl, digit | word⟩ := h.endsIn
  · intro d last _
    rw [List.getLast?_concat, Option.mem_some] at last
    rw [← last, digit]
  · refine endsNoWord_of_last front ?_
    simp only [List.mem_cons, List.not_mem_nil, or_false] at word
    rcases word with rfl | rfl | rfl <;> decide

/-! ### Phrases -/

section

variable {table : TokenTable} {now : Instant} {wantsDate : Bool} {text rest : List Char}
  {value : Value}

theorem RelativePhrase.cleanCut {instant : Instant}
    (h : RelativePhrase table now text instant rest) : CleanCut text rest := by
  cases h with
  | plain digits _ unit_ _ =>
    exact (CleanCut.of_endsNoWord (endsNoWord_of_digits digits.2)).trans unit_.cleanCut
  | ago digits _ unit_ ago_ _ =>
    exact (CleanCut.of_endsNoWord (endsNoWord_of_digits digits.2)).trans
      (unit_.cleanCut.trans ago_.cleanCut)

theorem BarePhrase.cleanCut (h : BarePhrase table now wantsDate text value rest) :
    CleanCut text rest := by
  cases h with
  | @string mark body _ _ _ mark_ _ _ =>
    have noWord : isIdent mark = false := by rcases mark_ with rfl | rfl <;> decide
    have cut : CleanCut (mark :: body ++ [mark] ++ rest) rest :=
      .of_endsNoWord (endsNoWord_of_last (mark :: body) noWord)
    simpa only [List.cons_append, List.append_assoc, List.nil_append] using cut
  | date date_ =>
    obtain ⟨_, spelled, _⟩ := date_
    exact .of_endsNoWord spelled.endsNoWord
  | relative relative_ => exact relative_.cleanCut
  | number number_ _ => exact .of_endsNoWord number_.endsNoWord
  | truth token => exact token.cleanCut
  | now token => exact token.cleanCut

/-- A bare value is not empty. -/
theorem BarePhrase.length_lt (h : BarePhrase table now wantsDate text value rest) :
    rest.length < text.length := by
  cases h with
  | string _ _ _ =>
    simp only [List.length_cons, List.length_append]
    omega
  | date date_ =>
    obtain ⟨c, tail, rfl, _⟩ := date_.digit
    simp only [List.cons_append, List.length_cons, List.length_append]
    omega
  | relative relative_ =>
    cases relative_ with
    | plain _ _ unit_ _ =>
      have := unit_.length_lt
      rw [List.length_append]
      omega
    | ago _ _ unit_ ago_ _ =>
      have := unit_.length_lt
      have := ago_.length_lt
      rw [List.length_append]
      omega
  | number number_ _ =>
    obtain ⟨c, tail, rfl, _⟩ := number_.start
    simp only [List.cons_append, List.length_cons, List.length_append]
    omega
  | truth token => exact token.length_lt
  | now token => exact token.length_lt

end

/-! ### Seams -/

/-- What may hold between a text and what a reading leaves of it, and holds of readings one
after the other if it holds of each. -/
structure Trail (R : List Char → List Char → Prop) : Prop where
  refl : ∀ text, R text text
  trans : ∀ {text mid rest}, R text mid → R mid rest → R text rest

/-- A trail that may end anywhere between blanks. -/
structure Seam (R : List Char → List Char → Prop) : Prop extends Trail R where
  blanks : ∀ {before rest}, (∀ c ∈ before, isBlank c = true) → R (before ++ rest) rest

/-- A seam where tokens and values end that are no lists. -/
structure SeamOf (table : TokenTable) (now : Instant) (R : List Char → List Char → Prop) : Prop
    extends Seam R where
  token : ∀ {symbol text rest}, table.Token symbol text rest → R text rest
  bare : ∀ {wantsDate text value rest}, BarePhrase table now wantsDate text value rest →
    R text rest

theorem CleanCut.seam : Seam CleanCut :=
  ⟨⟨.refl, .trans⟩, .blanks⟩

theorem CleanCut.seamOf (table : TokenTable) (now : Instant) : SeamOf table now CleanCut where
  toSeam := CleanCut.seam
  token := TokenTable.Token.cleanCut
  bare := BarePhrase.cleanCut

section

variable {table : TokenTable} {now : Instant} {R : List Char → List Char → Prop}
  {wantsDate : Bool} {text rest : List Char} {value : Value} {depth : Nat}

namespace SeamOf

theorem scalar (seam : SeamOf table now R) (h : ScalarPhrase table now wantsDate text value rest) :
    R text rest := by
  obtain ⟨blanks, body, rfl, blank, bare⟩ := h
  exact seam.trans (seam.blanks blank) (seam.bare bare)

theorem items (seam : SeamOf table now R) {item : Phrase Value} {values : List Value}
    (one : ∀ {text value rest}, item text value rest → R text rest)
    (h : ValuesPhrase table item text values rest) : R text rest := by
  have further : ∀ {text values rest}, FurtherValues table item text values rest → R text rest := by
    intro text values rest more
    induction more with
    | nil => exact seam.refl _
    | cons comma first _ ih => exact seam.trans (seam.token comma) (seam.trans (one first) ih)
  cases h with
  | none => exact seam.refl _
  | some first more => exact seam.trans (one first) (further more)

/-- A value ends at a seam. -/
theorem literal (seam : SeamOf table now R)
    (h : ValuePhrase table now wantsDate depth text value rest) : R text rest := by
  induction depth generalizing text value rest with
  | zero => exact seam.scalar h
  | succ depth ih =>
    rcases h with scalar | ⟨opening, items, closing⟩
    · exact seam.scalar scalar
    · exact seam.trans (seam.token opening)
        (seam.trans (seam.items (fun item => ih item) items) (seam.token closing))

theorem condition (seam : SeamOf table now R) {trigger : Trigger}
    (h : ConditionPhrase table now depth text trigger rest) : R text rest := by
  obtain ⟨field_, operator_, value_, _⟩ := h
  exact seam.trans (seam.token field_) (seam.trans (seam.token operator_) (seam.literal value_))

end SeamOf

/-- A value is not empty. -/
theorem ValuePhrase.length_lt (h : ValuePhrase table now wantsDate depth text value rest) :
    rest.length < text.length := by
  have scalar : ScalarPhrase table now wantsDate text value rest → rest.length < text.length := by
    rintro ⟨blanks, body, rfl, _, bare⟩
    have := bare.length_lt
    rw [List.length_append]
    omega
  cases depth with
  | zero => exact scalar h
  | succ depth =>
    rcases h with h | ⟨opening, items, closing⟩
    · exact scalar h
    · have seam := CleanCut.seamOf table now
      have := opening.length_lt
      have := (seam.items (fun item => seam.literal item) items).length_le
      have := closing.length_lt
      omega

theorem ConditionPhrase.length_lt {trigger : Trigger}
    (h : ConditionPhrase table now depth text trigger rest) : rest.length < text.length := by
  obtain ⟨field_, operator_, value_, _⟩ := h
  have := field_.length_lt
  have := operator_.length_lt
  have := value_.length_lt
  omega

end

namespace Grammar

open ForumModeration.Parser

/-! ### Readers -/

/-- What a reader is given and what it leaves are related. -/
def Leaves {α : Type} (R : List Char → List Char → Prop) (p : Parser α) : Prop :=
  ∀ ⦃text a rest⦄, p text = .ok (a, rest) → R text rest

/-- What a reader reads is cut clean from what it leaves. -/
def Cuts {α : Type} (p : Parser α) : Prop :=
  ∀ ⦃text a rest⦄, p text = .ok (a, rest) → CleanCut text rest

namespace Leaves

variable {α β : Type} {R : List Char → List Char → Prop} {p : Parser α} {f : α → Parser β}

theorem pure (trail : Trail R) (a : α) : Leaves R (Pure.pure a : Parser α) := by
  intro text b rest read
  rw [(pure_eq_ok.mp read).2]
  exact trail.refl rest

theorem bind (trail : Trail R) (first : Leaves R p) (second : ∀ a, Leaves R (f a)) :
    Leaves R (p >>= f) := by
  intro text b rest read
  obtain ⟨a, mid, hp, hf⟩ := bind_eq_ok.mp read
  exact trail.trans (first hp) (second a hf)

theorem optional (trail : Trail R) (h : Leaves R p) : Leaves R p.optional := by
  intro text a rest read
  rcases optional_eq_ok.mp read with ⟨_, _, read⟩ | ⟨_, rfl, _⟩
  · exact h read
  · exact trail.refl _

/-- A repetition ends where its last reading does. -/
theorem many (trail : Trail R) (h : Leaves R p) : Leaves R (many p) := by
  intro text values rest read
  refine many_sound (R := fun text _ rest => R text rest) trail.refl ?_ read
  intro text a mid others rest first more
  exact trail.trans (h first) more

end Leaves

namespace Cuts

variable {α β : Type} {p : Parser α} {f : α → Parser β}

theorem bind (first : Cuts p) (second : ∀ a, Cuts (f a)) : Cuts (p >>= f) :=
  Leaves.bind CleanCut.seam.toTrail first second

theorem optional (h : Cuts p) : Cuts p.optional :=
  Leaves.optional CleanCut.seam.toTrail h

theorem many (h : Cuts p) : Cuts (many p) :=
  Leaves.many CleanCut.seam.toTrail h

end Cuts

section

variable {table : TokenTable} {g : Grammar} {text rest : List Char} {trigger : Trigger}

/-- Literals and conditions are read the same way in every grammar of a table. -/
theorem literal_eq_ofTable (hg : g.lexicon = table.lexicon) (wantsDate : Bool) (depth : Nat) :
    g.literal wantsDate depth = (ofTable table g.now).literal wantsDate depth := by
  obtain ⟨lexicon, now, lenient⟩ := g
  cases hg
  cases lenient with
  | false => rfl
  | true => exact literal_lenient (ofTable table now) wantsDate depth

theorem condition_eq_ofTable (hg : g.lexicon = table.lexicon) (depth : Nat) :
    g.condition depth = (ofTable table g.now).condition depth := by
  obtain ⟨lexicon, now, lenient⟩ := g
  cases hg
  cases lenient with
  | false => rfl
  | true => exact condition_lenient (ofTable table now) depth

theorem conditionPhrase_of_read (hg : g.lexicon = table.lexicon) {depth : Nat}
    (read : g.condition depth text = .ok (trigger, rest)) :
    ConditionPhrase table g.now depth text trigger rest := by
  rw [condition_eq_ofTable hg] at read
  exact conditionPhrase_of_condition read

section

variable {R : List Char → List Char → Prop} (seam : SeamOf table g.now R)
include seam

theorem pick_seam {α : Type} (hg : g.lexicon = table.lexicon) (wanted : Symbol → Option α) :
    Leaves R (g.pick wanted) := by
  intro text a rest read
  obtain ⟨_, _, token⟩ := token_of_pick hg read
  exact seam.token token

theorem sign_seam (hg : g.lexicon = table.lexicon) (sign : Punctuation) : Leaves R (g.sign sign) :=
  pick_seam seam hg (exactly (.punctuation sign))

theorem literal_seam (hg : g.lexicon = table.lexicon) (wantsDate : Bool) (depth : Nat) :
    Leaves R (g.literal wantsDate depth) := by
  intro text value rest read
  rw [literal_eq_ofTable hg] at read
  exact seam.literal (valuePhrase_of_literal read)

theorem continuation_seam (hg : g.lexicon = table.lexicon) (accepts : Connective → Bool)
    {operand : Parser Trigger} (h : Leaves R operand) :
    Leaves R (g.continuation accepts operand) := by
  rintro text ⟨connective, trigger⟩ rest read
  obtain ⟨mid, hconnective, hoperand⟩ := continuation_eq_ok read
  exact seam.trans (pick_seam seam hg (connectiveOf accepts) hconnective) (h hoperand)

theorem tier_seam (hg : g.lexicon = table.lexicon) (accepts : Connective → Bool)
    {operand : Parser Trigger} (h : Leaves R operand) : Leaves R (g.tier accepts operand) := by
  intro text trigger rest read
  obtain ⟨first, mid, others, hfirst, hothers, _⟩ := tier_eq_ok read
  exact seam.trans (h hfirst)
    (Leaves.many seam.toTrail (continuation_seam seam hg accepts h) hothers)

theorem tiers_seam (hg : g.lexicon = table.lexicon) {operand : Parser Trigger}
    (h : Leaves R operand) : Leaves R (g.tiers operand) :=
  tier_seam seam hg _ (tier_seam seam hg _ h)

/-- An operand ends at a seam. -/
theorem operand_seam (hg : g.lexicon = table.lexicon) (depth : Nat) :
    Leaves R (g.operand depth) := by
  -- By induction on the levels left: what an operand holds has one less.
  induction depth with
  | zero =>
    intro text trigger rest read
    rcases operand_eq_ok read with ⟨_, _, _, none, _⟩ | ⟨_, _, _, none, _⟩ | ⟨_, condition⟩
    · cases none
    · cases none
    · exact seam.condition (conditionPhrase_of_read hg condition)
  | succ depth ih =>
    intro text trigger rest read
    rcases operand_eq_ok read with ⟨_, mid, _, same, hnot, inner, _⟩ |
      ⟨_, t1, t2, same, _, opening, inner, closing⟩ | ⟨_, condition⟩
    · cases same
      exact seam.trans (pick_seam seam hg (connectiveOf _) hnot) (ih inner)
    · cases same
      exact seam.trans (sign_seam seam hg _ opening)
        (seam.trans (tiers_seam seam hg ih inner) (sign_seam seam hg _ closing))
    · exact seam.condition (conditionPhrase_of_read hg condition)

/-- A rule and the blanks after it end at a seam. -/
theorem rule_seam (hg : g.lexicon = table.lexicon) : Leaves R g.rule := by
  intro text trigger rest read
  obtain ⟨mid, htiers, rfl⟩ := rule_eq_ok.mp read
  obtain ⟨blanks, split, blank⟩ := exists_blanks mid
  have behind : R (blanks ++ skipBlanks mid) (skipBlanks mid) := seam.blanks blank
  rw [← split] at behind
  exact seam.trans (tiers_seam seam hg (operand_seam seam hg maxDepth) htiers) behind

end

/-! ### Clean cuts of readings -/

theorem pick_cuts {α : Type} (hg : g.lexicon = table.lexicon) (wanted : Symbol → Option α) :
    Cuts (g.pick wanted) :=
  pick_seam (CleanCut.seamOf table g.now) hg wanted

theorem sign_cuts (hg : g.lexicon = table.lexicon) (sign : Punctuation) : Cuts (g.sign sign) :=
  pick_cuts hg (exactly (.punctuation sign))

theorem connective_cuts (hg : g.lexicon = table.lexicon) (accepts : Connective → Bool) :
    Cuts (g.connective accepts) :=
  pick_cuts hg (connectiveOf accepts)

theorem literal_cuts (hg : g.lexicon = table.lexicon) (wantsDate : Bool) (depth : Nat) :
    Cuts (g.literal wantsDate depth) :=
  literal_seam (CleanCut.seamOf table g.now) hg wantsDate depth

theorem furtherItem_cuts (hg : g.lexicon = table.lexicon) (wantsDate : Bool) (depth : Nat) :
    Cuts (furtherItem g wantsDate depth) :=
  (sign_cuts hg _).bind fun _ => literal_cuts hg _ _

theorem itemsOf_cuts (hg : g.lexicon = table.lexicon) (wantsDate : Bool) (depth : Nat) :
    Cuts (itemsOf g wantsDate depth) := by
  intro text values rest read
  rcases itemsOf_eq_ok read with ⟨_, rfl, _⟩ | ⟨_, mid, _, _, first, more⟩
  · exact CleanCut.refl rest
  · exact (literal_cuts hg _ _ first).trans ((furtherItem_cuts hg _ _).many more)

theorem continuation_cuts (hg : g.lexicon = table.lexicon) (accepts : Connective → Bool)
    {operand : Parser Trigger} (h : Cuts operand) : Cuts (g.continuation accepts operand) :=
  continuation_seam (CleanCut.seamOf table g.now) hg accepts h

theorem tier_cuts (hg : g.lexicon = table.lexicon) (accepts : Connective → Bool)
    {operand : Parser Trigger} (h : Cuts operand) : Cuts (g.tier accepts operand) :=
  tier_seam (CleanCut.seamOf table g.now) hg accepts h

theorem tiers_cuts (hg : g.lexicon = table.lexicon) {operand : Parser Trigger}
    (h : Cuts operand) : Cuts (g.tiers operand) :=
  tiers_seam (CleanCut.seamOf table g.now) hg h

/-- An operand is cut clean from what follows it. -/
theorem operand_cuts (hg : g.lexicon = table.lexicon) (depth : Nat) : Cuts (g.operand depth) :=
  operand_seam (CleanCut.seamOf table g.now) hg depth

/-- A rule and the blanks after it are cut clean from what follows. -/
theorem rule_cuts (hg : g.lexicon = table.lexicon) : Cuts g.rule :=
  rule_seam (CleanCut.seamOf table g.now) hg

/-- An operand goes over at least one character. -/
theorem operand_length_lt (hg : g.lexicon = table.lexicon) {depth : Nat}
    (read : g.operand depth text = .ok (trigger, rest)) : rest.length < text.length := by
  rcases operand_eq_ok read with ⟨d, mid, _, _, hnot, inner, _⟩ |
    ⟨d, t1, t2, _, _, opening, inner, closing⟩ | ⟨_, condition⟩
  · have := pick_length_lt hg (by rwa [connective_eq] at hnot)
    have := (operand_cuts hg d inner).length_le
    omega
  · have := sign_length_lt hg opening
    have := (tiers_cuts hg (operand_cuts hg d) inner).length_le
    have := sign_length_lt hg closing
    omega
  · exact (conditionPhrase_of_read hg condition).length_lt

/-- A rule goes over at least one character. -/
theorem rule_length_lt (hg : g.lexicon = table.lexicon)
    (read : g.rule text = .ok (trigger, rest)) : rest.length < text.length := by
  obtain ⟨mid, htiers, rfl⟩ := rule_eq_ok.mp read
  obtain ⟨_, t1, _, htier, hor, _⟩ := tier_eq_ok htiers
  obtain ⟨_, t2, _, hoperand, hand, _⟩ := tier_eq_ok htier
  have first := operand_length_lt hg hoperand
  have cuts := operand_cuts hg maxDepth
  have second := ((continuation_cuts hg _ cuts).many hand).length_le
  have third := ((continuation_cuts hg _ (tier_cuts hg _ cuts)).many hor).length_le
  have last := skipBlanks_length_le mid
  omega

/-- What a rule goes over has a first character. -/
theorem exists_first_of_rule (hg : g.lexicon = table.lexicon) {c : Char} {front : List Char}
    (read : g.rule (c :: front) = .ok (trigger, rest)) : ∃ more, front = more ++ rest := by
  obtain ⟨span, split⟩ := (rule_cuts hg read).suffix
  have shorter := rule_length_lt hg read
  cases span with
  | nil =>
    rw [← split] at shorter
    exact absurd shorter (Nat.lt_irrefl _)
  | cons d more => exact ⟨more, (List.cons.inj split).2.symm⟩

end

end Grammar

end ForumModeration
