import ForumModeration.Proofs.Rendering.Totality

/-!
# `ForumModeration.Proofs.Rendering.Lexemes`: what a written rule is made of

A renderer puts tokens and literals one behind the other. Which ones these are does not
depend on the table: `Trigger.lexemes` lists them for a trigger. How each of them is
spelled and what stands between them does, and may be chosen in other ways as well.
`Composed` says of a text that it is made of given lexemes, where each is spelled in one
of its ways and has blanks in front of it.

* `Renderer.trigger_composed`: what is written for a trigger is made of its lexemes, as
  the renderer spells them.
-/

set_option autoImplicit false

namespace ForumModeration

open Text

/-- What texts are made of: the token of a symbol, or a literal that is neither a word nor
a list. -/
inductive Lexeme where
  | token (symbol : Symbol)
  | literal (value : Value)

/-! ### The lexemes of values and triggers -/

mutual

/-- The lexemes of a value. -/
def Value.lexemes : Value → List Lexeme
  | .bool truth => [.token (.truth truth)]
  | .list [] => [.token (.punctuation .leftBracket), .token (.punctuation .rightBracket)]
  | .list (item :: items) =>
    .token (.punctuation .leftBracket) ::
      (item.lexemes ++ (Value.furtherLexemes items ++ [.token (.punctuation .rightBracket)]))
  | value => [.literal value]

/-- The lexemes of values with a comma in front of each. -/
def Value.furtherLexemes : List Value → List Lexeme
  | [] => []
  | item :: items =>
    .token (.punctuation .comma) :: (item.lexemes ++ Value.furtherLexemes items)

end

/-- The lexemes of a condition. -/
def Condition.lexemes (c : Condition) : List Lexeme :=
  .token (.field c.field) :: .token (.operator c.operator) :: c.value.lexemes

/-- Lexemes in parentheses if they have to be. -/
def parenthesizeLexemes (needed : Bool) (lexemes : List Lexeme) : List Lexeme :=
  if needed then
    .token (.punctuation .leftParen) :: (lexemes ++ [.token (.punctuation .rightParen)])
  else lexemes

mutual

/-- The lexemes of a trigger, which `nested` says to be a child of a group. A group with no
children or a negation of several has none, as it cannot be written. -/
def Trigger.lexemes (nested : Bool) : Trigger → List Lexeme
  | .condition c => c.lexemes
  | .group .not [child] =>
    .token (.connective .not) :: parenthesizeLexemes true (child.lexemes false)
  | .group .not _ => []
  | .group _ [] => []
  | .group _ [child] => child.lexemes nested
  | .group connective (first :: second :: others) =>
    parenthesizeLexemes nested
      (first.lexemes true ++ Trigger.operandLexemes connective (second :: others))

/-- The lexemes of children with a connective in front of each. -/
def Trigger.operandLexemes (connective : Connective) : List Trigger → List Lexeme
  | [] => []
  | child :: rest =>
    .token (.connective connective) ::
      (child.lexemes true ++ Trigger.operandLexemes connective rest)

end

section

variable {connective : Connective} (binary : connective.isUnary = false)

include binary

theorem Trigger.lexemes_single (nested : Bool) (child : Trigger) :
    (Trigger.group connective [child]).lexemes nested = child.lexemes nested := by
  rw [Trigger.lexemes]
  rintro rfl
  cases binary

theorem Trigger.lexemes_many (nested : Bool) (first second : Trigger) (others : List Trigger) :
    (Trigger.group connective (first :: second :: others)).lexemes nested
      = parenthesizeLexemes nested
          (first.lexemes true ++ Trigger.operandLexemes connective (second :: others)) := by
  rw [Trigger.lexemes]
  rintro rfl
  cases binary

end

/-! ### Texts made of lexemes -/

section

variable (spells : Lexeme → List Char → Prop) (parted : List Char → Prop)

/-- A text starts with lexemes, and `rest` comes after them. Each lexeme has blanks in
front of it, is spelled in one of its ways, and is followed by a text from which it is
parted. -/
inductive Composed : List Lexeme → List Char → List Char → Prop where
  | nil {rest : List Char} : Composed [] rest rest
  | cons {lexeme : Lexeme} {lexemes : List Lexeme} {blanks written text rest : List Char}
      (blank : ∀ c ∈ blanks, isBlank c = true) (spelled : spells lexeme written)
      (gap : parted text) (more : Composed lexemes text rest) :
      Composed (lexeme :: lexemes) (blanks ++ (written ++ text)) rest

end

namespace Composed

variable {spells : Lexeme → List Char → Prop} {parted : List Char → Prop}
  {lexemes others : List Lexeme} {text mid rest : List Char}

theorem append (h : Composed spells parted lexemes text mid)
    (more : Composed spells parted others mid rest) :
    Composed spells parted (lexemes ++ others) text rest := by
  induction h with
  | nil => exact more
  | cons blank spelled gap _ ih => exact .cons blank spelled gap (ih more)

/-- Where lexemes stand, the first of them stand, and the others come after these. -/
theorem split (h : Composed spells parted (lexemes ++ others) text rest) :
    ∃ mid, Composed spells parted lexemes text mid ∧ Composed spells parted others mid rest := by
  induction lexemes generalizing text with
  | nil => exact ⟨text, .nil, h⟩
  | cons lexeme lexemes ih =>
    cases h with
    | cons blank spelled gap more =>
      obtain ⟨mid, first, last⟩ := ih more
      exact ⟨mid, .cons blank spelled gap first, last⟩

end Composed

/-! ### What is written -/

namespace Renderer

/-- The way in which a renderer spells a lexeme. -/
def Writes (r : Renderer) : Lexeme → List Char → Prop
  | .token symbol, written => r.token symbol = .ok written
  | .literal value, written => r.value value = .ok written

/-- A text is made of lexemes as the renderer spells them, behind any blanks. -/
def Lays (r : Renderer) (lexemes : List Lexeme) (text : List Char) : Prop :=
  ∀ blanks rest, (∀ c ∈ blanks, isBlank c = true) →
    Composed r.Writes (fun _ => True) lexemes (blanks ++ (text ++ rest)) rest

variable {r : Renderer} {text : List Char}

/-- One lexeme alone. -/
theorem Lays.one {lexeme : Lexeme} (h : r.Writes lexeme text) : r.Lays [lexeme] text :=
  fun _ _ blank => .cons blank h trivial .nil

/-- Lexemes behind others, with blanks between them. -/
theorem Lays.append {lexemes others : List Lexeme} {space more : List Char}
    (blank : ∀ c ∈ space, isBlank c = true) (h : r.Lays lexemes text)
    (next : r.Lays others more) : r.Lays (lexemes ++ others) (text ++ space ++ more) := by
  intro blanks rest blank'
  have same : text ++ space ++ more ++ rest = text ++ (space ++ (more ++ rest)) := by
    simp only [List.append_assoc]
  rw [same]
  exact (h blanks _ blank').append (next space rest blank)

/-- Lexemes right behind others. -/
theorem Lays.join {lexemes others : List Lexeme} {more : List Char} (h : r.Lays lexemes text)
    (next : r.Lays others more) : r.Lays (lexemes ++ others) (text ++ more) := by
  have none : ∀ c ∈ [], isBlank c = true := fun _ mem => absurd mem List.not_mem_nil
  have both := h.append none next
  rwa [List.append_nil] at both

/-! ### Values -/

/-- Values with commas in front of them, behind what is written already. -/
private theorem furtherValues_composed {items : List Value}
    (each : ∀ item ∈ items, ∀ text, r.value item = .ok text → r.Lays item.lexemes text)
    {more : List Char} (written : r.furtherValues items = .ok more) {lexemes : List Lexeme}
    (before : r.Lays lexemes text) :
    r.Lays (lexemes ++ Value.furtherLexemes items) (text ++ more) := by
  induction items generalizing lexemes text more with
  | nil =>
    obtain rfl := pure_eq_ok.mp written
    rwa [Value.furtherLexemes, List.append_nil, List.append_nil]
  | cons item items ih =>
    rw [furtherValues, Renderer.comma] at written
    obtain ⟨separator, hseparator, written⟩ := bind_eq_ok.mp written
    obtain ⟨comma, hcomma, hspace⟩ := bind_eq_ok.mp hseparator
    obtain rfl := pure_eq_ok.mp hspace
    obtain ⟨value, hvalue, written⟩ := bind_eq_ok.mp written
    obtain ⟨others, hothers, written⟩ := bind_eq_ok.mp written
    obtain rfl := pure_eq_ok.mp written
    have comma_ : r.Lays [.token (.punctuation .comma)] comma := .one hcomma
    have step := before.join (comma_.append r.blank_space (each item (by simp) value hvalue))
    have all := ih (fun item mem => each item (List.mem_cons_of_mem _ mem)) hothers step
    simpa only [Value.furtherLexemes, List.append_assoc, List.cons_append, List.nil_append]
      using all

/-- A list is written with its brackets and commas, and any other value as one lexeme. -/
theorem value_composed {v : Value} (written : r.value v = .ok text) : r.Lays v.lexemes text := by
  induction v using Value.induction generalizing text with
  | scalar v noList =>
    cases v with
    | list items => cases noList
    | _ => exact .one written
  | list items ih =>
    cases items with
    | nil =>
      rw [value] at written
      obtain ⟨opening, hopening, written⟩ := bind_eq_ok.mp written
      obtain ⟨closing, hclosing, written⟩ := bind_eq_ok.mp written
      obtain rfl := pure_eq_ok.mp written
      have opening_ : r.Lays [.token (.punctuation .leftBracket)] opening := .one hopening
      exact opening_.join (.one hclosing)
    | cons item items =>
      rw [value] at written
      obtain ⟨opening, hopening, written⟩ := bind_eq_ok.mp written
      obtain ⟨first, hfirst, written⟩ := bind_eq_ok.mp written
      obtain ⟨others, hothers, written⟩ := bind_eq_ok.mp written
      obtain ⟨closing, hclosing, written⟩ := bind_eq_ok.mp written
      obtain rfl := pure_eq_ok.mp written
      have opening_ : r.Lays [.token (.punctuation .leftBracket)] opening := .one hopening
      have inside := furtherValues_composed
        (fun item mem _ => ih item (List.mem_cons_of_mem _ mem)) hothers
        (opening_.join (ih item (by simp) hfirst))
      have closing_ : r.Lays [.token (.punctuation .rightBracket)] closing := .one hclosing
      have all := inside.join closing_
      simpa only [Value.lexemes, List.append_assoc, List.cons_append, List.nil_append] using all

/-! ### Triggers -/

/-- A condition is written as a field, an operator and a value, if its field has a token. -/
theorem condition_composed (hasToken : ∀ symbol, (r.table.primary symbol).isOk = true)
    {c : Condition} (written : r.condition c = .ok text) : r.Lays c.lexemes text := by
  have found := hasToken (.field c.field)
  cases primary : r.table.primary (.field c.field) with
  | error missing =>
    rw [primary] at found
    cases found
  | ok spelling =>
    have field_ : r.Lays [.token (.field c.field)] spelling.toList := by
      refine .one ?_
      rw [Writes, token, primary]
    rw [condition, primary] at written
    obtain ⟨operator, hoperator, written⟩ := bind_eq_ok.mp written
    obtain ⟨value, hvalue, written⟩ := bind_eq_ok.mp written
    obtain rfl := pure_eq_ok.mp written
    have operator_ : r.Lays [.token (.operator c.operator)] operator := .one hoperator
    exact (field_.append r.blank_space operator_).append r.blank_space (value_composed hvalue)

/-- What is put in parentheses has their lexemes around its own. -/
theorem parenthesize_composed {needed : Bool} {inner : Result} {lexemes : List Lexeme}
    (each : ∀ text, inner = .ok text → r.Lays lexemes text)
    (written : r.parenthesize needed inner = .ok text) :
    r.Lays (parenthesizeLexemes needed lexemes) text := by
  cases needed with
  | false => exact each text written
  | true =>
    obtain ⟨opening, hopening, written⟩ := bind_eq_ok.mp written
    obtain ⟨middle, hmiddle, written⟩ := bind_eq_ok.mp written
    obtain ⟨closing, hclosing, written⟩ := bind_eq_ok.mp written
    obtain rfl := pure_eq_ok.mp written
    have opening_ : r.Lays [.token (.punctuation .leftParen)] opening := .one hopening
    have closing_ : r.Lays [.token (.punctuation .rightParen)] closing := .one hclosing
    have all := (opening_.join (each middle hmiddle)).join closing_
    simpa only [parenthesizeLexemes, if_true, List.append_assoc, List.cons_append,
      List.nil_append] using all

/-- Children with connectives in front of them, behind what is written already. -/
private theorem operands_composed {connective : Connective} {token : List Char}
    (connective_ : r.token (.connective connective) = .ok token) {children : List Trigger}
    (each : ∀ child ∈ children, ∀ text, r.trigger true child = .ok text →
      r.Lays (child.lexemes true) text)
    {more : List Char} (written : r.operands token children = .ok more) {lexemes : List Lexeme}
    (before : r.Lays lexemes text) :
    r.Lays (lexemes ++ Trigger.operandLexemes connective children) (text ++ more) := by
  induction children generalizing lexemes text more with
  | nil =>
    obtain rfl := pure_eq_ok.mp written
    rwa [Trigger.operandLexemes, List.append_nil, List.append_nil]
  | cons child children ih =>
    rw [operands] at written
    obtain ⟨operand, hoperand, written⟩ := bind_eq_ok.mp written
    obtain ⟨others, hothers, written⟩ := bind_eq_ok.mp written
    obtain rfl := pure_eq_ok.mp written
    have token_ : r.Lays [.token (.connective connective)] token := .one connective_
    have step := before.append r.blank_space
      (token_.append r.blank_space (each child (by simp) operand hoperand))
    have all := ih (fun child mem => each child (List.mem_cons_of_mem _ mem)) hothers step
    simpa only [Trigger.operandLexemes, List.append_assoc, List.cons_append, List.nil_append]
      using all

/-- What is written for a trigger is made of its lexemes. -/
theorem trigger_composed (hasToken : ∀ symbol, (r.table.primary symbol).isOk = true) {t : Trigger}
    {nested : Bool} (written : r.trigger nested t = .ok text) :
    r.Lays (t.lexemes nested) text := by
  induction t using Trigger.induction generalizing nested text with
  | condition c => exact condition_composed hasToken written
  | group connective children ih =>
    cases binary : connective.isUnary with
    | true =>
      obtain rfl := Connective.isUnary_iff.mp binary
      cases children with
      | nil => cases written
      | cons child others =>
        cases others with
        | cons _ _ => cases written
        | nil =>
          rw [trigger] at written
          obtain ⟨negation, hnegation, written⟩ := bind_eq_ok.mp written
          obtain ⟨inner, hinner, written⟩ := bind_eq_ok.mp written
          obtain rfl := pure_eq_ok.mp written
          have negation_ : r.Lays [.token (.connective .not)] negation := .one hnegation
          exact negation_.append r.blank_space
            (parenthesize_composed (fun _ => ih child (by simp)) hinner)
    | false =>
      cases children with
      | nil => cases connective <;> cases written
      | cons first others =>
        cases others with
        | nil =>
          rw [trigger_single binary] at written
          rw [Trigger.lexemes_single binary]
          exact ih first (by simp) written
        | cons second others =>
          rw [trigger_many binary] at written
          rw [Trigger.lexemes_many binary]
          obtain ⟨token, htoken, written⟩ := bind_eq_ok.mp written
          refine parenthesize_composed ?_ written
          intro text written
          obtain ⟨front, hfront, written⟩ := bind_eq_ok.mp written
          obtain ⟨more, hmore, written⟩ := bind_eq_ok.mp written
          obtain rfl := pure_eq_ok.mp written
          exact operands_composed htoken
            (fun child mem _ => ih child (List.mem_cons_of_mem _ mem)) hmore
            (ih first (by simp) hfront)

end Renderer

end ForumModeration
