import ForumModeration.Proofs.Grammar.Extension
import ForumModeration.Proofs.Rendering.Calls

/-!
# `ForumModeration.Proofs.Rendering.Infinities`: numbers that are not finite are not read back

A floating-point number that is not finite is written as a word, and no literal starts with
that word. So where such a number stands, reading gets stuck (`Renderer.Stuck`): the number
alone declines, and a list of items refuses in front of the first item that is stuck, where
it wants a closing bracket. `condition_stuck` says that no condition is read where a condition
with such a number was written.
-/

set_option autoImplicit false

namespace ForumModeration

open Text ForumModeration.Grammar ForumModeration.Parser

/-- All floating-point numbers in a value are finite. -/
def Value.IsFinite (v : Value) : Prop :=
  ∀ number, .float number ∈ v.scalars → number.isFinite = true

namespace TokenTable

/-- What reading lists relies on where an item cannot be read. -/
structure Bracketed (table : TokenTable) : Prop where
  /-- No bracket stands where something is written that is no number. -/
  words : ∀ entry ∈ table.entries,
    entry.1 = .punctuation .leftBracket ∨ entry.1 = .punctuation .rightBracket →
      ∀ token ∈ entry.2,
        apart ['N', 'a', 'N'] token.toList = true ∧ apart ['i', 'n', 'f'] token.toList = true
  /-- No closing bracket stands where a comma does. -/
  commas : ∀ entry ∈ table.entries, ∀ other ∈ table.entries,
    entry.1 = .punctuation .comma → other.1 = .punctuation .rightBracket →
      ∀ token ∈ entry.2, ∀ token' ∈ other.2, apart token.toList token'.toList = true

theorem bracketed_dsl : dsl.Bracketed where
  words := by decide +kernel
  commas := by decide +kernel

theorem bracketed_cnl : cnl.Bracketed where
  words := by decide +kernel
  commas := by decide +kernel

/-- A closing bracket does not stand where a comma does. -/
theorem Bracketed.rightBracket_declines_comma {table : TokenTable} (bracketed : table.Bracketed)
    (legible : table.Legible) {g : Grammar} (hg : g.lexicon = table.lexicon)
    {text rest : List Char} (token : table.Token (.punctuation .comma) text rest) :
    (g.sign .rightBracket).Declines text := by
  rw [sign_eq]
  refine pick_declines_of_apart hg legible token fun entry hentry other hother named want => ?_
  exact bracketed.commas entry hentry other hother named (eq_of_exactly want)

end TokenTable

/-! ### Readers that get stuck -/

namespace Parser

variable {α β γ : Type} {p : Parser α} {next : Parser β} {text mid : List Char} {a : α}

/-- Refuses, or leaves a text at which the next reader declines. -/
def Jams (next : Parser β) (p : Parser α) (text : List Char) : Prop :=
  p.Refuses text ∨ ∃ a stop, p text = .ok (a, stop) ∧ next.Declines stop

theorem Jams.map (jams : Jams next p text) (g : α → γ) : Jams next (g <$> p) text := by
  rcases jams with refuses | ⟨a, stop, read, no⟩
  · exact .inl refuses.bind
  · exact .inr ⟨g a, stop, map_eq_ok.mpr ⟨a, read, rfl⟩, no⟩

theorem Jams.after {f : α → Parser γ} (first : p text = .ok (a, mid)) (jams : Jams next (f a) mid) :
    Jams next (p >>= f) text := by
  unfold Jams Refuses
  rw [bind_of_ok first]
  exact jams

/-- A repetition jams where it does after its first reading. -/
theorem Jams.many_cons (first : p text = .ok (a, mid)) (less : mid.length < text.length)
    (more : Jams next (many p) mid) : Jams next (many p) text := by
  rcases more with ⟨failure, failed, final⟩ | ⟨others, stop, read, no⟩
  · refine .inl ⟨failure, ?_, final⟩
    rw [many, first]
    simp only [less, if_true, failed]
  · exact .inr ⟨a :: others, stop, many_of_ok first less read, no⟩

/-- What jams in front of something that has to stand there is refused. -/
theorem Jams.refuses {h : α → β → Parser γ} (jams : Jams next p text) (what : Requirement) :
    (p >>= fun a => required what next >>= h a).Refuses text := by
  rcases jams with refuses | ⟨a, stop, read, failure, failed, -⟩
  · exact refuses.bind
  · exact .after read ((refuses_commit failed).expecting _).bind

end Parser

namespace Renderer

variable {r : Renderer} {now : Instant} {wantsDate : Bool}

/-- No literal is read from a text, nor does a list end where the text stands. It does not make
an operator in front of it longer. -/
structure Stuck (r : Renderer) (now : Instant) (wantsDate : Bool) (text : List Char) : Prop where
  ahead : ∀ rest, Ahead (fun c => c.toLower ∉ ['=', '等']) (text ++ rest)
  stuck : ∀ depth blanks rest, (∀ c ∈ blanks, isBlank c = true) → Ends r.table rest →
    Ahead (isIdent · = false) rest →
    ((ofTable r.table now).literal wantsDate depth).Refuses (blanks ++ (text ++ rest)) ∨
      (((ofTable r.table now).literal wantsDate depth).Declines (blanks ++ (text ++ rest)) ∧
        ((ofTable r.table now).sign .rightBracket).Declines (blanks ++ (text ++ rest)))

/-- A literal that is no argument and no list is none at all. -/
theorem literal_declines_of_scalar {g : Grammar} {text : List Char} (wantsDate : Bool) (depth : Nat)
    (noScalar : g.scalar.Declines text) (noBracket : (g.sign .leftBracket).Declines text) :
    (g.literal wantsDate depth).Declines text := by
  unfold Declines at noScalar noBracket ⊢
  rw [scalar_apply] at noScalar
  rw [sign_eq, ← pick_skipBlanks, ← sign_eq] at noBracket
  rw [literal_apply]
  obtain ⟨noQuote, bare⟩ := Declines.of_orElse noScalar
  -- Whether a date is wanted does not matter where there are no quotes.
  have noQuote : (g.quotedLiteral wantsDate).Declines (skipBlanks text) := by
    rcases Declines.of_bind noQuote with no | ⟨_, mid, _, no⟩
    · exact no.bind
    · exact absurd no (Firm.pure _ mid)
  exact noQuote.orElse (Declines.orElse (Declines.bind noBracket) bare)

variable (legible : r.table.Legible) (writable : r.table.Writable) (callable : r.table.Callable)
  (bracketed : r.table.Bracketed) (offset : now.offset = r.offset)

include legible writable callable bracketed in
/-- Reading gets stuck at a number that is not finite. -/
theorem stuck_float {number : Binary64} (infinite : number.isFinite = false) :
    r.Stuck now wantsDate (NumberStyle.ruleText.write number) := by
  obtain ⟨word, word_, spelled⟩ := NumberStyle.ruleText.write_of_not_isFinite infinite
  constructor
  · intro rest
    rcases spelled with spelled | spelled <;> rw [spelled] <;> rcases word_ with rfl | rfl <;>
      exact ahead_cons.mpr (by decide)
  · intro depth blanks rest blank ends loose
    right
    have boundary : Ahead (fun c => isIdent c = false ∧ c ≠ '.') rest :=
      fun c first => ⟨loose c first,
        ne_of_startsNoToken ((ends.detached legible).ahead c first).1 (by decide)⟩
    have noScalar : (ofTable r.table now).scalar.Declines
        (NumberStyle.ruleText.write number ++ rest) :=
      scalar_declines_of_not_isArgument legible writable callable
        (show r.value (.float number) = .ok _ from rfl)
        (by simpa [Value.IsArgument] using infinite) boundary
    have noBracket : ∀ p, p = .leftBracket ∨ p = .rightBracket →
        ((ofTable r.table now).sign p).Declines (NumberStyle.ruleText.write number ++ rest) := by
      intro p bracket
      rw [sign_eq]
      rcases spelled with plain | negative
      · rw [plain]
        refine pick_declines_noNumber rfl word_ (fun _ => boundary) fun entry mem want => ?_
        exact bracketed.words entry mem (by
          rw [eq_of_exactly want]
          exact bracket.imp (congrArg _) (congrArg _))
      · rw [negative]
        exact pick_declines_ahead rfl legible (by
          rw [List.cons_append, skipBlanks_eq_of_not_blank (by decide)]
          exact ahead_cons.mpr (by decide))
    have skipped : skipBlanks (blanks ++ (NumberStyle.ruleText.write number ++ rest))
        = skipBlanks (NumberStyle.ruleText.write number ++ rest) :=
      skipBlanks_append_of_blank blank
    have none := literal_declines_of_scalar wantsDate depth noScalar
      (noBracket _ (.inl rfl))
    have noClosing := noBracket _ (.inr rfl)
    unfold Declines at none noClosing ⊢
    rw [literal_apply, skipped, ← literal_apply, sign_eq, ← pick_skipBlanks, skipped,
      pick_skipBlanks, ← sign_eq]
    exact ⟨none, noClosing⟩

/-! ### Lists -/

/-- What is written for an item is read back, or reading gets stuck at it. -/
def RecoversOrStuck (r : Renderer) (now : Instant) (wantsDate : Bool) (v : Value) : Prop :=
  ∃ text, r.value v = .ok text ∧ (v.IsFinite → r.Recovers now wantsDate v text) ∧
    (¬v.IsFinite → r.Stuck now wantsDate text)

variable {items : List Value}

omit callable offset in
include legible writable bracketed in
/-- Items with a comma in front of each, up to the bracket behind them: reading jams at the
comma in front of one at which it gets stuck. -/
private theorem furtherValues_jam (each : ∀ item ∈ items, r.RecoversOrStuck now wantsDate item)
    {closing : List Char} (closing_ : r.table.Written (.punctuation .rightBracket) closing) :
    ∃ text, r.furtherValues items = .ok text ∧ ∀ rest,
      Ends r.table (text ++ (closing ++ rest)) ∧
      Ahead (isIdent · = false) (text ++ (closing ++ rest)) ∧
      ((¬∀ item ∈ items, item.IsFinite) → ∀ depth,
        Jams ((ofTable r.table now).sign .rightBracket)
          (Parser.many (furtherItem (ofTable r.table now) wantsDate depth))
          (text ++ (closing ++ rest))) := by
  -- By induction on the items: behind each stands the next comma or the bracket.
  induction items with
  | nil =>
    refine ⟨[], rfl, fun rest => ⟨.inr ⟨_, _, rfl, closing_.sign_stands rest⟩,
      closing_.ahead_ident rfl, fun some => ?_⟩⟩
    exact absurd (List.forall_mem_nil _) some
  | cons item items ih =>
    obtain ⟨text, written, recovers, stuck⟩ := each item (by simp)
    obtain ⟨more, writtenMore, others⟩ := ih fun item mem => each item (List.mem_cons_of_mem _ mem)
    obtain ⟨comma, comma_⟩ := writable.written (.punctuation .comma) rfl
    refine ⟨_, furtherValues_cons comma_ written writtenMore, fun rest => ?_⟩
    obtain ⟨ends, loose, jams⟩ := others rest
    simp only [List.append_assoc]
    have token := comma_.sign_stands (r.space ++ (text ++ (more ++ (closing ++ rest))))
    have read : (ofTable r.table now).sign .comma
        (comma ++ (r.space ++ (text ++ (more ++ (closing ++ rest)))))
          = .ok ((), r.space ++ (text ++ (more ++ (closing ++ rest)))) :=
      comma_.sign_read legible _
    refine ⟨.inr ⟨_, _, rfl, token⟩, comma_.ahead_ident rfl, fun some depth => ?_⟩
    by_cases finite : item.IsFinite
    · have later : ¬∀ item ∈ items, item.IsFinite :=
        fun all => some (List.forall_mem_cons.mpr ⟨finite, all⟩)
      have literal := (recovers finite).costs r.space _ r.blank_space ends loose
      have costs := Costs.furtherItem rfl read literal
      by_cases enough : item.levels ≤ depth
      · exact .many_cons (costs.reads depth enough)
          (Nat.lt_of_le_of_lt literal.shorter token.length_lt) (jams later depth)
      · obtain ⟨stop, failed⟩ := costs.refuses depth (by omega)
        exact .inl (Refuses.many ⟨_, failed, rfl⟩)
    · rcases (stuck finite).stuck depth r.space _ r.blank_space ends loose with refuses | no
      · exact .inl (Refuses.many (Refuses.after read refuses))
      · obtain ⟨failure, failed, soft⟩ : (furtherItem (ofTable r.table now) wantsDate
            depth).Declines (comma ++ (r.space ++ (text ++ (more ++ (closing ++ rest))))) :=
          Declines.after (f := fun _ => _) read no.1
        exact .inr ⟨[], _, many_of_error failed soft,
          bracketed.rightBracket_declines_comma legible rfl token⟩

omit callable offset in
include legible writable bracketed in
/-- Items in brackets, one of which is stuck: reading them jams in front of the bracket that has
to close the list. -/
private theorem items_jam (each : ∀ item ∈ items, r.RecoversOrStuck now wantsDate item)
    (some : ¬∀ item ∈ items, item.IsFinite) {opening closing : List Char}
    (opening_ : r.table.Written (.punctuation .leftBracket) opening)
    (closing_ : r.table.Written (.punctuation .rightBracket) closing) :
    ∃ inner, r.value (.list items) = .ok (opening ++ inner ++ closing) ∧
      ∀ rest depth, Jams ((ofTable r.table now).sign .rightBracket)
        (itemsOf (ofTable r.table now) wantsDate depth) (inner ++ (closing ++ rest)) := by
  cases items with
  | nil => exact absurd (List.forall_mem_nil _) some
  | cons item items =>
    obtain ⟨text, written, recovers, stuck⟩ := each item (by simp)
    obtain ⟨more, writtenMore, others⟩ := furtherValues_jam legible writable bracketed
      (fun item mem => each item (List.mem_cons_of_mem _ mem)) closing_
    refine ⟨_, value_list_cons opening_ closing_ written writtenMore, fun rest depth => ?_⟩
    obtain ⟨ends, loose, jams⟩ := others rest
    rw [List.append_assoc]
    unfold itemsOf separatedOrNone
    by_cases finite : item.IsFinite
    · have later : ¬∀ item ∈ items, item.IsFinite :=
        fun all => some (List.forall_mem_cons.mpr ⟨finite, all⟩)
      have costs := (recovers finite).costs [] _ (List.forall_mem_nil _) ends loose
      by_cases enough : item.levels ≤ depth
      · exact Jams.after (optional_of_ok (costs.reads depth enough))
          ((jams later depth).map (item.shownIn r.offset :: ·))
      · obtain ⟨stop, failed⟩ := costs.refuses depth (by omega)
        exact .inl (Refuses.bind (Refuses.optional ⟨_, failed, rfl⟩))
    · rcases (stuck finite).stuck depth [] _ (List.forall_mem_nil _) ends loose with refuses | no
      · exact .inl (Refuses.bind refuses.optional)
      · exact .inr ⟨[], _, bind_of_ok no.1.optional, no.2⟩

omit callable offset in
include legible writable bracketed in
/-- Reading gets stuck in a list at the first item that holds a number that is not finite. -/
private theorem list_stuck (each : ∀ item ∈ items, r.RecoversOrStuck now wantsDate item)
    (some : ¬∀ item ∈ items, item.IsFinite) :
    ∃ text, r.value (.list items) = .ok text ∧ r.Stuck now wantsDate text := by
  obtain ⟨opening, opening_⟩ := writable.written (.punctuation .leftBracket) rfl
  obtain ⟨closing, closing_⟩ := writable.written (.punctuation .rightBracket) rfl
  obtain ⟨inner, written, jams⟩ :=
    items_jam legible writable bracketed each some opening_ closing_
  refine ⟨_, written, ?_, ?_⟩
  · intro rest
    rw [List.append_assoc, List.append_assoc]
    exact opening_.ahead_further legible rfl
  · intro depth blanks rest blank _ _
    left
    have same : opening ++ inner ++ closing ++ rest = opening ++ (inner ++ (closing ++ rest)) := by
      simp only [List.append_assoc]
    rw [same]
    have token := (opening_.sign_stands (inner ++ (closing ++ rest))).prepend blank
    have noQuote := (nonWord_declines (ofTable r.table now) wantsDate legible token).1
    have read : (ofTable r.table now).sign .leftBracket
        (skipBlanks (blanks ++ (opening ++ (inner ++ (closing ++ rest)))))
          = .ok ((), inner ++ (closing ++ rest)) := by
      rw [sign_eq, pick_skipBlanks, ← sign_eq]
      exact opening_.pick_exactly legible rfl blank (opening_.boundary rfl)
    have list : ((ofTable r.table now).listOf
        (deeper (itemsOf (ofTable r.table now) wantsDate) depth)).Refuses
          (skipBlanks (blanks ++ (opening ++ (inner ++ (closing ++ rest))))) := by
      refine Refuses.after read ?_
      cases depth with
      | zero => exact Refuses.bind ⟨_, rfl, rfl⟩
      | succ depth => exact (jams rest depth).refuses .closingBracket
    unfold Refuses
    rw [literal_apply, literalBody, noQuote.orElse_eq]
    exact list.orElse

section

variable {v : Value}
  (others : ∀ s ∈ v.scalars, (∀ number, s ≠ .float number) → s.Recoverable r.offset wantsDate)

omit callable bracketed in
include legible writable offset others in
/-- A value with finite numbers, and with other scalars that can be recovered, is read back. -/
theorem finite_recovers (finite : v.IsFinite) :
    ∃ text, r.value v = .ok text ∧ r.Recovers now wantsDate v text := by
  refine value_recovers legible writable offset fun s mem => ?_
  cases s with
  | float number => exact finite number mem
  | _ => exact others _ mem nofun

include legible writable callable bracketed offset others in
/-- Where a value is written that holds a number that is not finite, reading gets stuck. -/
theorem value_stuck (infinite : ¬v.IsFinite) :
    ∃ text, r.value v = .ok text ∧ r.Stuck now wantsDate text := by
  -- The items of a list are values, and the list has their scalars.
  induction v using Value.induction with
  | scalar v noList =>
    simp only [Value.IsFinite, Value.scalars_of_isList noList, List.mem_singleton, not_forall,
      Bool.not_eq_true] at infinite
    obtain ⟨number, rfl, infinite⟩ := infinite
    exact ⟨_, rfl, stuck_float legible writable callable bracketed infinite⟩
  | list items ih =>
    rw [Value.scalars_list] at others
    have others : ∀ item ∈ items, ∀ s ∈ item.scalars, (∀ number, s ≠ .float number) →
        s.Recoverable r.offset wantsDate :=
      fun item mem s found => others s (List.mem_flatMap.mpr ⟨item, mem, found⟩)
    refine list_stuck legible writable bracketed (fun item mem => ?_) fun all => infinite ?_
    · by_cases finite : item.IsFinite
      · obtain ⟨text, written, recovers⟩ :=
          finite_recovers legible writable offset (others item mem) finite
        exact ⟨text, written, fun _ => recovers, fun infinite => absurd finite infinite⟩
      · obtain ⟨text, written, stuck⟩ := ih item mem (others item mem) finite
        exact ⟨text, written, fun all => absurd all finite, fun _ => stuck⟩
    · intro number found
      rw [Value.scalars_list] at found
      obtain ⟨item, mem, found⟩ := List.mem_flatMap.mp found
      exact all item mem number found

end

/-! ### Conditions -/

include legible writable in
/-- Where reading gets stuck at the value, the whole condition is written, and no rule is read
from what is written. -/
theorem condition_stuck {c : Condition} {text : List Char} (written : r.value c.value = .ok text)
    (stuck : r.Stuck now c.field.isTime text) :
    ∃ text, r.rule (.condition c) = .ok text ∧ (ofTable r.table now).rule.Refuses text := by
  obtain ⟨front, written_, reads⟩ := condition_written now legible writable written
    stuck.ahead
  refine ⟨front ++ text, written_, ?_⟩
  obtain ⟨noNot, noParen, mid, readField, readOperator⟩ := reads [] [] (List.forall_mem_nil _)
  rw [List.nil_append, List.append_nil] at noNot noParen readField
  have condition : ∀ depth, ((ofTable r.table now).condition depth).Refuses (front ++ text) := by
    intro depth
    obtain ⟨failure, failed⟩ : ∃ failure, (ofTable r.table now).literal c.field.isTime depth
        (skipBlanks (r.space ++ (text ++ []))) = .error failure := by
      rw [literal_apply, skipBlanks_skipBlanks, ← literal_apply]
      rcases stuck.stuck depth r.space [] r.blank_space (.inl rfl) (ahead_nil _) with
        ⟨failure, failed, _⟩ | ⟨⟨failure, failed, _⟩, _⟩ <;> exact ⟨failure, failed⟩
    exact ⟨_, condition_of_error readField readOperator failed, rfl⟩
  have operand : ((ofTable r.table now).operand maxDepth).Refuses (front ++ text) := by
    rw [operand_eq]
    exact Refuses.after noNot.optional
      (Declines.orElse_refuses (Declines.bind noParen) (condition maxDepth))
  exact Refuses.bind (Refuses.bind (Refuses.bind operand))

end Renderer

end ForumModeration
