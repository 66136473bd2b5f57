import ForumModeration.Proofs.Rendering.Tokens
import ForumModeration.Proofs.Trees

/-!
# `ForumModeration.Proofs.Rendering.Values`: values that are written are read back

Most scalars are read back whatever they are. The exceptions are those of
`Value.Recoverable`: numbers that no text denotes, instants that cannot be written as
a date of four digits, and strings that a field of time takes for dates.

* `value_recovers`: a value whose scalars can be recovered is written as a text that is
  read back as the value, with instants shown in the offset of the renderer. Reading
  it takes as many levels of nesting as the value has (`Value.levels`).
-/

set_option autoImplicit false

namespace ForumModeration

open Text ForumModeration.Grammar

/-- A scalar can be read back from what is written for it, where dates are wanted or not. -/
def Value.Recoverable (offset : Offset) (wantsDate : Bool) : Value → Prop
  | .float number => number.isFinite = true
  | .instant time => time.isLeap = false ∧ hasShortYear (time.withOffset offset) = true
  | .string text =>
    wantsDate = true → ∀ instant, ¬AbsoluteDate offset (trim text.toList) instant
  | _ => True

/-- What is written between single quotes is a string in the sense of the grammar. -/
theorem quotedBody_encode (text : List Char) :
    QuotedBody '\'' (text.flatMap Quoted.encodeChar) text := by
  obtain ⟨body, split, body_⟩ := quotedBody_of_readBody (Quoted.readBody_encode text [])
  rw [List.append_cancel_right split]
  exact body_

/-- What may follow a value does not go on with a word in front of it. -/
theorem Grammar.Ends.boundary {table : TokenTable} {token rest : List Char}
    (legible : table.Legible) (ends : Ends table rest) (loose : Ahead (isIdent · = false) rest) :
    RespectsBoundary token rest := by
  intro _ c first
  exact ⟨loose c first, ne_of_startsNoToken ((ends.detached legible).ahead c first).1 (by decide)⟩

namespace Renderer

/-- A text is read back as a value, up to anything that may follow, and it does not
make an operator in front of it longer. -/
structure Recovers (r : Renderer) (now : Instant) (wantsDate : Bool) (v : Value)
    (text : List Char) : Prop where
  ahead : ∀ rest, Ahead (fun c => c.toLower ∉ ['=', '等']) (text ++ rest)
  costs : ∀ blanks rest, (∀ c ∈ blanks, isBlank c = true) → Ends r.table rest →
    Ahead (isIdent · = false) rest →
    Costs ((ofTable r.table now).literal wantsDate) v.levels (blanks ++ (text ++ rest))
      (v.shownIn r.offset) rest

variable {r : Renderer} {now : Instant} {wantsDate : Bool}

/-! ### Scalars -/

/-- A text that starts with a digit, a sign or a quote stands right behind blanks, and
it is no operator. -/
private theorem start_of_special {c : Char} {tail : List Char} (special : startsNoToken c = true) :
    Ahead (fun c => c.toLower ∉ ['=', '等']) (c :: tail) ∧
      ∀ blanks, (∀ c ∈ blanks, isBlank c = true) →
        skipBlanks (blanks ++ c :: tail) = c :: tail := by
  constructor
  · exact ahead_cons.mpr (toLower_notMem_of_startsNoToken special)
  · intro blanks blank
    rw [skipBlanks_append_of_blank blank,
      skipBlanks_eq_of_not_blank (isBlank_of_startsNoToken special)]

/-- A number is read back from any text of it. -/
theorem recovers_number (legible : r.table.Legible) {v : Value} {text : List Char}
    (number : NumberText text v) : r.Recovers now wantsDate v text := by
  obtain ⟨c, tail, same, special⟩ := number.start
  have start : ∀ rest, text ++ rest = c :: (tail ++ rest) := fun rest => by
    rw [same, List.cons_append]
  refine ⟨?_, ?_⟩
  · intro rest
    rw [start]
    exact (start_of_special special).1
  · intro blanks rest blank ends loose
    have literal : Costs ((ofTable r.table now).literal wantsDate) 0 (blanks ++ (text ++ rest)) v
        rest := by
      refine Costs.number rfl legible ?_ number ends loose
      rw [start]
      exact (start_of_special special).2 blanks blank
    cases number <;> exact literal

/-- A string is read back unless it is taken for a date. -/
theorem recovers_string {text : String}
    (noDate : wantsDate = true → ∀ instant, ¬AbsoluteDate now.offset (trim text.toList) instant) :
    r.Recovers now wantsDate (.string text) (Quoted.encode text.toList) := by
  have start : ∀ rest, Quoted.encode text.toList ++ rest
      = '\'' :: (text.toList.flatMap Quoted.encodeChar ++ '\'' :: rest) := fun rest => by
    rw [Quoted.encode, List.append_assoc, List.cons_append, List.singleton_append]
  refine ⟨?_, ?_⟩
  · intro rest
    rw [start]
    exact (start_of_special (by decide)).1
  · intro blanks rest blank _ _
    refine Costs.string ?_ (.inl rfl) (quotedBody_encode text.toList) ?_
    · rw [start]
      exact (start_of_special (by decide)).2 blanks blank
    · have means := StringMeans.itself noDate
      rw [String.ofList_toList] at means
      exact means

/-- An instant is read back as the same instant in the offset of the renderer. -/
theorem recovers_instant (legible : r.table.Legible) (offset : now.offset = r.offset)
    {time : Instant} (noLeap : time.isLeap = false)
    (short : hasShortYear (time.withOffset r.offset) = true) :
    r.Recovers now wantsDate (.instant time)
      (moment r.table.mode (time.withOffset r.offset).localTime) := by
  have date : AbsoluteDate now.offset (moment r.table.mode (time.withOffset r.offset).localTime)
      (time.withOffset r.offset) := by
    rw [offset]
    exact absoluteDate_moment r.table.mode noLeap short
  obtain ⟨c, tail, same, digit⟩ := date.digit
  have special := startsNoToken_of_isDigit digit
  have start : ∀ rest, moment r.table.mode (time.withOffset r.offset).localTime ++ rest
      = c :: (tail ++ rest) := fun rest => by rw [same, List.cons_append]
  refine ⟨?_, ?_⟩
  · intro rest
    rw [start]
    exact (start_of_special special).1
  · intro blanks rest blank ends _
    refine Costs.date rfl legible ?_ date (ends.detached legible)
    rw [start]
    exact (start_of_special special).2 blanks blank

/-- A truth value is read back from the word that is written for it. -/
theorem recovers_truth (legible : r.table.Legible) {b : Bool} {token : List Char}
    (written : r.table.Written (.truth b) token) : r.Recovers now wantsDate (.bool b) token := by
  refine ⟨fun rest => written.ahead_further legible rfl, ?_⟩
  intro blanks rest blank ends loose
  have boundary : RespectsBoundary token rest := ends.boundary legible loose
  refine Costs.truth rfl legible ((written.stands boundary).prepend blank) ?_
  rw [truth_eq]
  exact written.pick legible rfl (fun _ => alike_of_truthOf) blank boundary
    fun _ _ => List.not_mem_nil

/-- A value that is no list is read back. -/
theorem scalar_recovers (legible : r.table.Legible) (writable : r.table.Writable)
    (offset : now.offset = r.offset) {v : Value} (noList : v.isList = false)
    (recoverable : v.Recoverable r.offset wantsDate) :
    ∃ text, r.value v = .ok text ∧ r.Recovers now wantsDate v text := by
  cases v with
  | bool b =>
    obtain ⟨token, written⟩ := writable.written (.truth b) rfl
    exact ⟨token, token_eq written, recovers_truth legible written⟩
  | int number => exact ⟨_, rfl, recovers_number legible (numberText_int number)⟩
  | float number => exact ⟨_, rfl, recovers_number legible (numberText_float recoverable)⟩
  | instant time =>
    exact ⟨_, rfl, recovers_instant legible offset recoverable.1 recoverable.2⟩
  | string text =>
    refine ⟨_, rfl, recovers_string ?_⟩
    rw [offset]
    exact recoverable
  | list items => cases noList

/-! ### Lists -/

variable {items : List Value}

/-- What is written for an item behind others. -/
theorem furtherValues_cons {item : Value} {comma text more : List Char}
    (comma_ : r.table.Written (.punctuation .comma) comma) (written : r.value item = .ok text)
    (writtenMore : r.furtherValues items = .ok more) :
    r.furtherValues (item :: items) = .ok (comma ++ r.space ++ text ++ more) := by
  unfold furtherValues Renderer.comma sign
  rw [token_eq comma_, written, writtenMore]
  rfl

/-- What is written for a list that is not empty. -/
theorem value_list_cons {item : Value} {opening closing text more : List Char}
    (opening_ : r.table.Written (.punctuation .leftBracket) opening)
    (closing_ : r.table.Written (.punctuation .rightBracket) closing)
    (written : r.value item = .ok text) (writtenMore : r.furtherValues items = .ok more) :
    r.value (.list (item :: items)) = .ok (opening ++ (text ++ more) ++ closing) := by
  unfold value sign
  rw [token_eq opening_, token_eq closing_, written, writtenMore, ← List.append_assoc]
  rfl

/-- Items with a comma in front of each are read back, up to the bracket behind them. -/
private theorem furtherValues_recover (legible : r.table.Legible) (writable : r.table.Writable)
    (recovers : ∀ item ∈ items, ∃ text,
      r.value item = .ok text ∧ r.Recovers now wantsDate item text)
    {closing : List Char} (closing_ : r.table.Written (.punctuation .rightBracket) closing) :
    ∃ text, r.furtherValues items = .ok text ∧ ∀ rest,
      Ends r.table (text ++ (closing ++ rest)) ∧
      Ahead (isIdent · = false) (text ++ (closing ++ rest)) ∧
      Costs (fun d => Parser.many (furtherItem (ofTable r.table now) wantsDate d))
        (Value.levelsOf items) (text ++ (closing ++ rest)) (items.map (Value.shownIn r.offset))
        (closing ++ rest) := by
  -- By induction on the items: behind each stands the next comma or the bracket.
  induction items with
  | nil =>
    refine ⟨[], rfl, ?_⟩
    intro rest
    have token := closing_.sign_stands rest
    have noComma : ((ofTable r.table now).sign .comma).Declines (closing ++ rest) :=
      symbol_declines_at rfl legible token rfl
    exact ⟨.inr ⟨_, _, rfl, token⟩, closing_.ahead_ident rfl,
      Costs.many_nil fun _ => Parser.Declines.bind noComma⟩
  | cons item items ih =>
    obtain ⟨text, written, one⟩ := recovers item (by simp)
    obtain ⟨more, writtenMore, others⟩ :=
      ih fun item mem => recovers item (List.mem_cons_of_mem _ mem)
    obtain ⟨comma, comma_⟩ := writable.written (.punctuation .comma) rfl
    refine ⟨_, furtherValues_cons comma_ written writtenMore, fun rest => ?_⟩
    obtain ⟨ends, loose, further⟩ := others rest
    have literal := one.costs r.space _ r.blank_space ends loose
    simp only [List.append_assoc]
    have token := comma_.sign_stands (r.space ++ (text ++ (more ++ (closing ++ rest))))
    refine ⟨.inr ⟨_, _, rfl, token⟩, comma_.ahead_ident rfl, ?_⟩
    have one := Costs.furtherItem rfl (comma_.sign_read legible _) literal
    exact one.many_cons (Nat.lt_of_le_of_lt literal.shorter token.length_lt) further

/-- Items in brackets with what is written for them, and what reading them costs. -/
private theorem items_recover (legible : r.table.Legible) (writable : r.table.Writable)
    (recovers : ∀ item ∈ items, ∃ text,
      r.value item = .ok text ∧ r.Recovers now wantsDate item text) {opening closing : List Char}
    (opening_ : r.table.Written (.punctuation .leftBracket) opening)
    (closing_ : r.table.Written (.punctuation .rightBracket) closing) :
    ∃ inner, r.value (.list items) = .ok (opening ++ inner ++ closing) ∧
      ∀ rest, Costs (itemsOf (ofTable r.table now) wantsDate) (Value.levelsOf items)
        (inner ++ (closing ++ rest)) (items.map (Value.shownIn r.offset)) (closing ++ rest) := by
  cases items with
  | nil =>
    refine ⟨[], ?_, fun rest => Costs.items_nil ?_⟩
    · unfold value sign
      rw [token_eq opening_, token_eq closing_, List.append_nil]
      rfl
    · intro depth
      exact literal_declines_rightBracket rfl legible (closing_.sign_stands rest) depth
  | cons item items =>
    obtain ⟨text, written, one⟩ := recovers item (by simp)
    obtain ⟨more, writtenMore, others⟩ := furtherValues_recover legible writable
      (fun item mem => recovers item (List.mem_cons_of_mem _ mem)) closing_
    refine ⟨_, value_list_cons opening_ closing_ written writtenMore, fun rest => ?_⟩
    obtain ⟨ends, loose, further⟩ := others rest
    have first := one.costs [] _ (by simp) ends loose
    rw [List.append_assoc]
    exact Costs.items_cons first further

/-- A list is read back, if its items are. -/
private theorem list_recovers (legible : r.table.Legible) (writable : r.table.Writable)
    (recovers : ∀ item ∈ items, ∃ text,
      r.value item = .ok text ∧ r.Recovers now wantsDate item text) :
    ∃ text, r.value (.list items) = .ok text ∧ r.Recovers now wantsDate (.list items) text := by
  obtain ⟨opening, opening_⟩ := writable.written (.punctuation .leftBracket) rfl
  obtain ⟨closing, closing_⟩ := writable.written (.punctuation .rightBracket) rfl
  obtain ⟨inner, written, inside⟩ := items_recover legible writable recovers opening_ closing_
  refine ⟨_, written, ?_, ?_⟩
  · intro rest
    rw [List.append_assoc, List.append_assoc]
    exact opening_.ahead_further legible rfl
  · intro blanks rest blank _ _
    have same : opening ++ inner ++ closing ++ rest = opening ++ (inner ++ (closing ++ rest)) := by
      simp only [List.append_assoc]
    rw [same, Value.shownIn_list]
    have token := (opening_.sign_stands (inner ++ (closing ++ rest))).prepend blank
    refine Costs.list rfl (nonWord_declines (ofTable r.table now) wantsDate legible token).1 ?_
      (inside rest) ?_
    · rw [sign_eq, pick_skipBlanks, ← sign_eq]
      exact opening_.pick_exactly legible rfl blank (opening_.boundary rfl)
    · exact closing_.sign_read legible rest

/-- A value whose scalars can be recovered is written, and what is written is read back
as the value. -/
theorem value_recovers (legible : r.table.Legible) (writable : r.table.Writable)
    (offset : now.offset = r.offset) {v : Value}
    (recoverable : ∀ s ∈ v.scalars, s.Recoverable r.offset wantsDate) :
    ∃ text, r.value v = .ok text ∧ r.Recovers now wantsDate v text := by
  -- The items of a list are values, and the list has their scalars.
  induction v using Value.induction with
  | scalar v noList =>
    refine scalar_recovers legible writable offset noList (recoverable v ?_)
    rw [Value.scalars_of_isList noList]
    exact List.mem_singleton_self v
  | list items ih =>
    refine list_recovers legible writable fun item mem => ih item mem ?_
    intro s found
    refine recoverable s ?_
    rw [Value.scalars_list]
    exact List.mem_flatMap.mpr ⟨item, mem, found⟩

end Renderer

end ForumModeration
