import ForumModeration.Proofs.Grammar.Contexts
import ForumModeration.Proofs.Grammar.Extension

/-!
# `ForumModeration.Proofs.Grammar.Nesting`: texts that nest too deep

`TokenTable.Opens table n text rest` says that a text starts with `n` signs that open a
level: parentheses and negations in any order, and at the end perhaps a field, an operator
and list brackets. Where one more of them stands than there are levels left, the reader
gives up for good right behind the last of them, whatever comes next.

The refusal wins over every other reading, as each sign that opens a level is read where it
stands: no longer token goes on from it, and no operator goes on with a bracket
(`TokenTable.OpensPlainly`).

* `literal_of_brackets`, `operand_of_opens`: one sign more than there are levels left.
* `rule_of_opens`: 129 of them at the start of a rule.
-/

set_option autoImplicit false

namespace ForumModeration

open Text

/-! ### Signs that open a level -/

/-- What opens a level of nesting, and fields, which stand in front of lists. -/
def Symbol.opens : Symbol → Bool
  | .field _ | .connective .not | .punctuation .leftParen | .punctuation .leftBracket => true
  | _ => false

def Symbol.isOperator : Symbol → Bool
  | .operator _ => true
  | _ => false

namespace TokenTable

/-- Signs that open a level do not go on into longer tokens of their kind, and the character
that a bracket starts with is in no operator. -/
structure OpensPlainly (table : TokenTable) : Prop where
  settled : ∀ entry ∈ table.entries, entry.1.opens = true → ∀ token ∈ entry.2,
    table.settled entry.1 token.toList = true
  apart : ∀ entry ∈ table.entries, entry.1 = .punctuation .leftBracket →
    ∀ other ∈ table.entries, other.1.isOperator = true → ∀ bracket ∈ entry.2,
      ∀ token ∈ other.2,
        bracket.toList.head?.all (fun c => !(lower token.toList).contains c.toLower) = true

theorem opensPlainly_dsl : dsl.OpensPlainly where
  settled := by decide +kernel
  apart := by decide +kernel

theorem opensPlainly_cnl : cnl.OpensPlainly where
  settled := by decide +kernel
  apart := by decide +kernel

variable (table : TokenTable)

/-- A text starts with a number of opening brackets. -/
inductive Brackets : Nat → List Char → List Char → Prop where
  | none (text : List Char) : Brackets 0 text text
  | more {n : Nat} {text mid rest : List Char}
      (bracket : table.Token (.punctuation .leftBracket) text mid) (others : Brackets n mid rest) :
      Brackets (n + 1) text rest

/-- A text starts with a number of signs that open a level. -/
inductive Opens : Nat → List Char → List Char → Prop where
  | none (text : List Char) : Opens 0 text text
  | paren {n : Nat} {text mid rest : List Char}
      (opening : table.Token (.punctuation .leftParen) text mid) (others : Opens n mid rest) :
      Opens (n + 1) text rest
  | negation {n : Nat} {text mid rest : List Char}
      (not_ : table.Token (.connective .not) text mid) (others : Opens n mid rest) :
      Opens (n + 1) text rest
  | list {n : Nat} {text t1 t2 rest : List Char} {field : Field} {operator : Operator}
      (field_ : table.Token (.field field) text t1)
      (operator_ : table.Token (.operator operator) t1 t2)
      (brackets : Brackets table (n + 1) t2 rest) : Opens (n + 1) text rest

variable {table} {n m : Nat} {text rest : List Char}

theorem Brackets.take (h : table.Brackets n text rest) (fewer : m ≤ n) :
    ∃ stop, table.Brackets m text stop := by
  induction m generalizing n text with
  | zero => exact ⟨text, .none text⟩
  | succ m ih =>
    cases h with
    | none => exact absurd fewer (Nat.not_succ_le_zero m)
    | more bracket others =>
      obtain ⟨stop, first⟩ := ih others (Nat.le_of_succ_le_succ fewer)
      exact ⟨stop, .more bracket first⟩

/-- The first of the signs that open a level are such signs. -/
theorem Opens.take (h : table.Opens n text rest) (fewer : m ≤ n) :
    ∃ stop, table.Opens m text stop := by
  induction m generalizing n text with
  | zero => exact ⟨text, .none text⟩
  | succ m ih =>
    cases h with
    | none => exact absurd fewer (Nat.not_succ_le_zero m)
    | paren opening others =>
      obtain ⟨stop, first⟩ := ih others (Nat.le_of_succ_le_succ fewer)
      exact ⟨stop, .paren opening first⟩
    | negation not_ others =>
      obtain ⟨stop, first⟩ := ih others (Nat.le_of_succ_le_succ fewer)
      exact ⟨stop, .negation not_ first⟩
    | list field_ operator_ brackets =>
      obtain ⟨stop, first⟩ := brackets.take fewer
      exact ⟨stop, .list field_ operator_ first⟩

theorem Brackets.suffix (h : table.Brackets n text rest) : rest <:+ text := by
  induction h with
  | none => exact List.suffix_refl _
  | more bracket _ ih => exact ih.trans bracket.cleanCut.suffix

theorem Opens.suffix (h : table.Opens n text rest) : rest <:+ text := by
  induction h with
  | none => exact List.suffix_refl _
  | paren opening _ ih => exact ih.trans opening.cleanCut.suffix
  | negation not_ _ ih => exact ih.trans not_.cleanCut.suffix
  | list field_ operator_ brackets =>
    exact brackets.suffix.trans (operator_.cleanCut.suffix.trans field_.cleanCut.suffix)

end TokenTable

namespace Grammar

open ForumModeration.Parser

variable {table : TokenTable} {g : Grammar} {text mid rest : List Char} {depth : Nat}

/-- A token is picked where it stands, whatever comes next, if all tokens of its symbol are
settled. -/
theorem pick_of_all_settled {α : Type} {wanted : Symbol → Option α} {a : α} {symbol : Symbol}
    (hg : g.lexicon = table.lexicon) (legible : table.Legible)
    (settled : ∀ entry ∈ table.entries, entry.1 = symbol → ∀ token ∈ entry.2,
      table.settled symbol token.toList = true)
    (alone : symbol.further = []) (want : wanted symbol = some a)
    (kind : ∀ t, (wanted t).isSome = true → symbol.alike t = true)
    (token : table.Token symbol text rest) : g.pick wanted text = .ok (a, rest) := by
  obtain ⟨spelled, mem, after⟩ := token.after legible
  obtain ⟨_, entry, hentry, named, spelling, listed, rfl⟩ := TokenTable.exists_entry mem
  refine pick_of_settled hg legible want kind mem (settled entry hentry named spelling listed)
    after ?_
  rw [alone]
  exact fun _ _ => List.not_mem_nil

/-- A sign that opens a level is picked where it stands, whatever comes next. -/
theorem pick_of_opens {α : Type} {wanted : Symbol → Option α} {a : α} {symbol : Symbol}
    (hg : g.lexicon = table.lexicon) (legible : table.Legible) (plain : table.OpensPlainly)
    (want : wanted symbol = some a) (kind : ∀ t, (wanted t).isSome = true → symbol.alike t = true)
    (opens : symbol.opens = true) (token : table.Token symbol text rest) :
    g.pick wanted text = .ok (a, rest) := by
  refine pick_of_all_settled hg legible ?_ ?_ want kind token
  · rintro entry mem rfl
    exact plain.settled entry mem opens
  · cases symbol with
    | operator o => cases opens
    | _ => rfl

theorem sign_of_opens {p : Punctuation} (hg : g.lexicon = table.lexicon) (legible : table.Legible)
    (plain : table.OpensPlainly) (opens : (Symbol.punctuation p).opens = true)
    (token : table.Token (.punctuation p) text rest) : g.sign p text = .ok ((), rest) := by
  rw [sign_eq]
  refine pick_of_opens hg legible plain (by simp [exactly]) ?_ opens token
  intro t want
  rw [eq_of_exactly want]
  exact alike_self _

theorem field_of_opens {field : Field} (hg : g.lexicon = table.lexicon) (legible : table.Legible)
    (plain : table.OpensPlainly) (token : table.Token (.field field) text rest) :
    g.field text = .ok (field, rest) := by
  rw [field_eq]
  exact pick_of_opens hg legible plain rfl (fun _ => alike_of_fieldOf) rfl token

theorem not_of_opens (hg : g.lexicon = table.lexicon) (legible : table.Legible)
    (plain : table.OpensPlainly) (token : table.Token (.connective .not) text rest) :
    g.connective Connective.isUnary text = .ok (.not, rest) := by
  rw [connective_eq]
  refine pick_of_opens hg legible plain rfl ?_ rfl token
  intro t want
  obtain ⟨d, rfl, accepted⟩ := accepts_of_connectiveOf want
  exact tier_alike (.inr (.inr rfl)) rfl accepted

/-- A token is picked in front of another one, with blanks between them or without, if the
other one starts with a character that no token of its own kind holds. -/
theorem pick_before_token {α : Type} {wanted : Symbol → Option α} {a : α} {symbol next : Symbol}
    (hg : g.lexicon = table.lexicon) (legible : table.Legible) (contained : table.Contained)
    (want : wanted symbol = some a) (kind : ∀ t, (wanted t).isSome = true → symbol.alike t = true)
    (apart : ∀ entry ∈ table.entries, entry.1 = next → ∀ other ∈ table.entries,
      symbol.alike other.1 = true → ∀ first ∈ entry.2, ∀ token ∈ other.2,
        first.toList.head?.all (fun c => !(lower token.toList).contains c.toLower) = true)
    (token : table.Token symbol text mid) (next_ : table.Token next mid rest) :
    g.pick wanted text = .ok (a, mid) := by
  refine pick_before_foreign hg legible want kind ?_ token
  rintro c first ⟨other, t⟩ mem alike d held letter
  obtain ⟨blanks, written, spelled, rfl, blank, spells, same, _⟩ := next_
  cases blanks with
  | cons b blanks =>
    -- No token holds the blank in front of the other one.
    cases first
    have notBlank := isBlank_eq_false_of_mem contained mem held
    rw [← isBlank_toLower, letter, isBlank_toLower, blank c (by simp)] at notBlank
    cases notBlank
  | nil =>
    obtain ⟨nonempty, entry, hentry, named, listed⟩ := spells
    obtain ⟨_, entry', hentry', named', spelling, listed', rfl⟩ := TokenTable.exists_entry mem
    obtain ⟨t, spelled, rfl⟩ := List.exists_cons_of_ne_nil nonempty
    cases written with
    | nil => cases same
    | cons e written =>
      cases first
      have apart := apart entry hentry named entry' hentry' (by rw [named']; exact alike) _ listed
        spelling listed'
      rw [String.toList_ofList, List.head?_cons, Option.all_some, Bool.not_eq_true',
        List.contains_eq_mem, decide_eq_false_iff_not] at apart
      have letter' : c.toLower = t.toLower := by simpa using congrArg List.head? same
      refine apart (List.mem_map.mpr ⟨d, held, ?_⟩)
      rw [letter, letter']

theorem isOperator_of_alike {o : Operator} {t : Symbol}
    (alike : (Symbol.operator o).alike t = true) : t.isOperator = true := by
  cases t <;> first | rfl | cases alike

/-- An operator is picked in front of a bracket. -/
theorem operator_before_bracket (hg : g.lexicon = table.lexicon) (legible : table.Legible)
    (contained : table.Contained) (plain : table.OpensPlainly) {operator : Operator}
    (token : table.Token (.operator operator) text mid)
    (bracket : table.Token (.punctuation .leftBracket) mid rest) :
    g.operator text = .ok (operator, mid) := by
  rw [operator_eq]
  refine pick_before_token hg legible contained rfl (fun _ => alike_of_operatorOf) ?_ token bracket
  exact fun entry mem named other mem' alike =>
    plain.apart entry mem named other mem' (isOperator_of_alike alike)

/-! ### Refusals -/

/-- The failure over a level too many, at a place. -/
def tooDeep (stop : List Char) : Failure :=
  ⟨stop, some (.requirement .shallowerNesting), true⟩

/-- One bracket more than there are levels left. -/
theorem literal_of_brackets (hg : g.lexicon = table.lexicon) (legible : table.Legible)
    (plain : table.OpensPlainly) (wantsDate : Bool) (h : table.Brackets (depth + 1) text rest) :
    g.literal wantsDate depth text = .error (tooDeep rest) := by
  have list : ∀ {depth text mid}, table.Token (.punctuation .leftBracket) text mid →
      deeper (itemsOf g wantsDate) depth mid = .error (tooDeep rest) →
      g.literal wantsDate depth text = .error (tooDeep rest) := by
    intro depth text mid bracket failed
    have noQuote := (nonWord_declines g wantsDate legible bracket).1
    have opening := sign_of_opens hg legible plain rfl (bracket.skipped legible)
    rw [literal_apply, literalBody, noQuote.orElse_eq]
    exact orElse_of_final ((bind_of_ok opening).trans (bind_of_error failed)) rfl
  -- By induction on the levels left: what the first bracket holds has one less.
  induction depth generalizing text with
  | zero =>
    cases h with
    | more bracket others =>
      cases others
      exact list bracket rfl
  | succ depth ih =>
    cases h with
    | more bracket others =>
      exact list bracket (bind_of_error (optional_of_final (ih others) rfl))

theorem condition_of_brackets (hg : g.lexicon = table.lexicon) (legible : table.Legible)
    (contained : table.Contained) (plain : table.OpensPlainly) {t1 t2 : List Char} {field : Field}
    {operator : Operator} (field_ : table.Token (.field field) text t1)
    (operator_ : table.Token (.operator operator) t1 t2)
    (h : table.Brackets (depth + 1) t2 rest) : g.condition depth text = .error (tooDeep rest) := by
  have hfield := field_of_opens hg legible plain field_
  have hoperator : g.operator t1 = .ok (operator, t2) := by
    cases h with
    | more bracket _ => exact operator_before_bracket hg legible contained plain operator_ bracket
  have value : g.literal field.isTime depth (skipBlanks t2) = .error (tooDeep rest) := by
    rw [literal_skipBlanks]
    exact literal_of_brackets hg legible plain field.isTime h
  exact condition_of_error hfield hoperator value

/-- One sign more than there are levels left, at the start of an operand. -/
theorem operand_of_opens (hg : g.lexicon = table.lexicon) (legible : table.Legible)
    (contained : table.Contained) (plain : table.OpensPlainly)
    (h : table.Opens (depth + 1) text rest) : g.operand depth text = .error (tooDeep rest) := by
  have paren : ∀ {depth text mid}, table.Token (.punctuation .leftParen) text mid →
      deeper (fun d => commit (g.tiers (g.operand d))) depth mid = .error (tooDeep rest) →
      g.operand depth text = .error (tooDeep rest) := by
    intro depth text mid opening failed
    have noNot := operand_declines_leftParen hg legible opening
    rw [operand_eq, operandWith, bind_of_ok noNot.optional]
    exact orElse_of_final
      ((bind_of_ok (sign_of_opens hg legible plain rfl opening)).trans (bind_of_error failed)) rfl
  have negation : ∀ {depth text mid}, table.Token (.connective .not) text mid →
      deeper (fun d => commit (g.operand d)) depth mid = .error (tooDeep rest) →
      g.operand depth text = .error (tooDeep rest) := by
    intro depth text mid not_ failed
    have found := optional_of_ok (not_of_opens hg legible plain not_)
    rw [operand_eq, operandWith, bind_of_ok found]
    exact bind_of_error failed
  have list : ∀ {depth text t1 t2 field operator}, table.Token (.field field) text t1 →
      table.Token (.operator operator) t1 t2 → table.Brackets (depth + 1) t2 rest →
      g.operand depth text = .error (tooDeep rest) := by
    intro depth text t1 t2 field operator field_ operator_ brackets
    rw [operand_of_field hg legible field_]
    exact condition_of_brackets hg legible contained plain field_ operator_ brackets
  -- By induction on the levels left: what the first sign opens has one less.
  induction depth generalizing text with
  | zero =>
    cases h with
    | paren opening others =>
      cases others
      exact paren opening rfl
    | negation not_ others =>
      cases others
      exact negation not_ rfl
    | list field_ operator_ brackets => exact list field_ operator_ brackets
  | succ depth ih =>
    cases h with
    | paren opening others =>
      have tiers : g.tiers (g.operand depth) _ = .error (tooDeep rest) :=
        bind_of_error (bind_of_error (ih others))
      exact paren opening (commit_of_error tiers)
    | negation not_ others => exact negation not_ (commit_of_error (ih others))
    | list field_ operator_ brackets => exact list field_ operator_ brackets

/-- Where more levels are opened at the start of a rule than there may be, the rule is refused
right behind the first that is too many. -/
theorem rule_of_opens (hg : g.lexicon = table.lexicon) (legible : table.Legible)
    (contained : table.Contained) (plain : table.OpensPlainly)
    (h : table.Opens (maxDepth + 1) text rest) : g.rule text = .error (tooDeep rest) :=
  bind_of_error (bind_of_error (bind_of_error (operand_of_opens hg legible contained plain h)))

end Grammar

end ForumModeration
