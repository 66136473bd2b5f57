import ForumModeration.Proofs.Grammar.Completeness
import ForumModeration.Proofs.Grammar.Spans

/-!
# `ForumModeration.Proofs.Grammar.Contexts`: a reading depends on what it goes over

What comes after a span of text may be replaced, and the span is read as before. The
condition is that the new context makes no tokens: within the span the same tokens
stand in front of the old context and of the new one (`Interchangeable`). Longest match
is what makes this a condition, as a longer token may go on from the span into its
context, or may end with the span where the word boundary is all that forbids it.

A span that was read in one context, strictly or leniently, is read strictly in the
other one, with the same result. The rules have the form of `Costs`, one for each
production, and what follows is known from what was read (`EndsWith`).

* `Interchangeable.literal`, `Interchangeable.operand`: a literal and an operand.
* `Interchangeable.tiers`: operands under both tiers, in front of something that closes
  them in the new context.
* `interchangeable_end`: a clean cut may become the end of the text.
* `interchangeable_rightParen`, `interchangeable_blank`: a whole text may be closed by a
  parenthesis, and a blank may come behind it.
* `rule_of_span`: a rule that is read within a text is what its span is read as alone.
-/

set_option autoImplicit false

namespace ForumModeration

open Text

/-- Within the span the same tokens stand in front of the one context as in front of the
other. -/
structure Interchangeable (table : TokenTable) (span context context' : List Char) : Prop where
  /-- A token that is read within the span is read in the other context, too. -/
  keeps : ∀ entry ∈ table.lexicon, ∀ part rest, part <:+ span →
    Grammar.afterToken? entry.1 (part ++ context) = some (rest ++ context) →
      Grammar.afterToken? entry.1 (part ++ context') = some (rest ++ context')
  /-- No token that starts within the span stands in the other context alone. -/
  adds : ∀ entry ∈ table.lexicon, ∀ part, part <:+ span → part ≠ [] →
    Grammar.afterToken? entry.1 (part ++ context) = none →
      Grammar.afterToken? entry.1 (part ++ context') = none
  /-- The other context does not go on with a number. -/
  boundary : Ahead (isIdent · = false) context'

namespace Interchangeable

open ForumModeration.Parser
open ForumModeration.Grammar hiding blanks sign

variable {table : TokenTable} {span context context' part rest : List Char}

/-! ### Tokens -/

/-- Blanks are skipped within a text that has something else. -/
private theorem skipBlanks_append (solid : skipBlanks part ≠ []) (context : List Char) :
    skipBlanks (part ++ context) = skipBlanks part ++ context := by
  unfold skipBlanks at solid ⊢
  rw [List.dropWhile_append, if_neg (by simpa using solid)]

/-- A span of which something is read is more than blanks. -/
private theorem solid_of_length_lt
    (h : (rest ++ context).length < (skipBlanks (part ++ context)).length) :
    skipBlanks part ≠ [] := by
  intro blank
  unfold skipBlanks at h blank
  rw [List.dropWhile_append, if_pos (by simp [blank]), List.length_append] at h
  have := skipBlanks_length_le context
  unfold skipBlanks at this
  omega

theorem suffix_skipBlanks (inside : part <:+ span) : skipBlanks part <:+ span :=
  (List.dropWhile_suffix isBlank).trans inside

/-- A token that is picked within the span is picked in the other context, too. -/
theorem pick (h : Interchangeable table span context context') {α : Type} {g g' : Grammar}
    (hg : g.lexicon = table.lexicon) (hg' : g'.lexicon = table.lexicon)
    {wanted : Symbol → Option α} {a : α} (inside : part <:+ span)
    (read : g.pick wanted (part ++ context) = .ok (a, rest ++ context)) :
    g'.pick wanted (part ++ context') = .ok (a, rest ++ context') := by
  have solid : skipBlanks part ≠ [] := by
    rw [← pick_skipBlanks] at read
    exact solid_of_length_lt (pick_length_lt hg read)
  have inside' := suffix_skipBlanks inside
  unfold Grammar.pick at read ⊢
  simp only [skipBlanks_append solid] at read ⊢
  split at read
  · rename_i result found
    cases read
    rw [hg, List.findSome?_eq_some_iff] at found
    obtain ⟨before, entry, behind, split, here, none⟩ := found
    -- The entries in front are not read in either context, and this one is read in both.
    have found' : table.lexicon.findSome? (fun entry => do
        let a ← wanted entry.2
        let rest ← afterToken? entry.1 (skipBlanks part ++ context')
        return (a, rest)) = some (a, rest ++ context') := by
      refine List.findSome?_eq_some_iff.mpr ⟨before, entry, behind, split, ?_, ?_⟩
      · obtain ⟨b, want, here⟩ := Option.bind_eq_some_iff.mp here
        obtain ⟨rest', after, here⟩ := Option.bind_eq_some_iff.mp here
        cases here
        have mem : entry ∈ table.lexicon := by rw [split]; simp
        simp [want, h.keeps entry mem _ _ inside' after]
      · intro other mem
        have none := none other mem
        have mem : other ∈ table.lexicon := by rw [split]; simp [mem]
        cases want : wanted other.2 with
        | none => rfl
        | some b =>
          cases after : afterToken? other.1 (skipBlanks part ++ context) with
          | none => simp [h.adds other mem _ inside' solid after]
          | some rest' => simp [want, after] at none
    rw [hg', found']
  · cases read

theorem symbol (h : Interchangeable table span context context') {g : Grammar}
    (hg : g.lexicon = table.lexicon) {s : Symbol} (inside : part <:+ span)
    (read : g.symbol s (part ++ context) = .ok ((), rest ++ context)) :
    (ofTable table g.now).symbol s (part ++ context') = .ok ((), rest ++ context') :=
  h.pick hg rfl inside read

/-! ### Parts of the span -/

/-- What a cut leaves of a text that goes on with the context goes on with it, too. -/
theorem exists_part {text : List Char} (inside : part <:+ span)
    (cut : CleanCut (part ++ context) text) (cut' : CleanCut text (rest ++ context)) :
    ∃ mid, text = mid ++ context ∧ mid <:+ span := by
  obtain ⟨between, rfl, _⟩ := cut'
  obtain ⟨before, split, _⟩ := cut
  refine ⟨between ++ rest, by rw [List.append_assoc], ?_⟩
  rw [← List.append_assoc, ← List.append_assoc, List.append_cancel_right_eq] at split
  rw [split, List.append_assoc] at inside
  exact (List.suffix_append _ _).trans inside

/-- A repetition within the span. What holds where it ends and is kept by one reading more
holds where it starts. -/
theorem many_induction {α : Type} {p : Parser α} (cuts : Cuts p)
    {R : List Char → List α → Prop} (nil : R rest [])
    (cons : ∀ {part mid a others}, part <:+ span → mid <:+ span →
      p (part ++ context) = .ok (a, mid ++ context) → R mid others → R part (a :: others))
    {values : List α} (inside : part <:+ span)
    (read : many p (part ++ context) = .ok (values, rest ++ context)) : R part values := by
  have all : CleanCut (part ++ context) (rest ++ context) ∧
      (rest ++ context = rest ++ context → ∀ part', part' <:+ span →
        part ++ context = part' ++ context → R part' values) := by
    refine many_sound (R := fun text values after => CleanCut text after ∧
      (after = rest ++ context → ∀ part', part' <:+ span → text = part' ++ context →
        R part' values)) ?_ ?_ read
    · intro text
      refine ⟨CleanCut.refl text, ?_⟩
      rintro rfl part' _ same
      rw [List.append_cancel_right_eq] at same
      rw [← same]
      exact nil
    · intro text a mid others after first more
      refine ⟨(cuts first).trans more.1, ?_⟩
      rintro rfl part' inside' rfl
      obtain ⟨mid, rfl, inside''⟩ := exists_part inside' (cuts first) more.1
      exact cons inside' inside'' first (more.2 rfl mid inside'' rfl)
  exact all.2 rfl part inside rfl

/-! ### Literals -/

section

variable {now : Instant} {wantsDate : Bool} {value : Value} {depth : Nat}

/-- A relative time within the span, if the word behind it does not come from the other
context. -/
private theorem relative (h : Interchangeable table span context context')
    (legible : table.Legible) {instant : Instant} (inside : part <:+ span)
    (read : (ofTable table now).relative (part ++ context) = .ok (instant, rest ++ context))
    (ends : Ends table (rest ++ context')) :
    ∃ run after unit mid, Digits run ∧ part = run ++ after ∧
      table.Token (.unit unit) (after ++ context') mid ∧ (rest ++ context').length ≤ mid.length ∧
      (ofTable table now).relative (part ++ context') = .ok (instant, rest ++ context') := by
  obtain ⟨run, text, unit, text', digits, split, loose, bounded, hunit, ⟨word, hword⟩, counted⟩ :=
    relative_eq_ok.mp read
  have cut : CleanCut (part ++ context) text := by
    rw [split]
    exact .of_endsNoWord (endsNoWord_of_digits digits.2)
  have ago : CleanCut text' (rest ++ context) := (pick_cuts rfl _).optional hword
  obtain ⟨after, rfl, inside'⟩ := exists_part inside cut ((pick_cuts rfl _ hunit).trans ago)
  obtain ⟨mid, rfl, inside''⟩ := exists_part inside' (pick_cuts rfl _ hunit) ago
  rw [← List.append_assoc, List.append_cancel_right_eq] at split
  subst split
  have hunit' : (ofTable table now).timeUnit (after ++ context') = .ok (unit, mid ++ context') :=
    h.pick rfl rfl inside' hunit
  -- Where no word was read, what may come next is not the word.
  have hword' : optional ((ofTable table now).symbol .ago) (mid ++ context')
        = .ok (word, rest ++ context') := by
    rcases optional_eq_ok.mp hword with ⟨_, rfl, read⟩ | ⟨rfl, same, _⟩
    · exact optional_of_ok (h.symbol rfl inside'' read)
    · rw [List.append_cancel_right_eq] at same
      subst same
      exact (ends.ago_declines rfl legible).optional
  refine ⟨run, after, unit, mid ++ context', digits, rfl, token_of_timeUnit hunit', ?_, ?_⟩
  · have := ago.length_le
    simp only [List.length_append] at this ⊢
    omega
  · refine relative_eq_ok.mpr ⟨run, after ++ context', unit, mid ++ context', digits,
      List.append_assoc .., ?_, bounded, hunit', ⟨word, hword'⟩, counted⟩
    exact ((token_of_timeUnit hunit').plain legible).imp fun _ => isDigit_of_startsNoToken

/-- A bare literal within the span, with no blanks in front. -/
private theorem bareLiteral (h : Interchangeable table span context context')
    (legible : table.Legible) (inside : part <:+ span) {text : List Char}
    (start : skipBlanks text = part ++ context')
    (read : (ofTable table now).bareLiteral (part ++ context) = .ok (value, rest ++ context))
    (ends : Ends table (rest ++ context')) :
    Costs ((ofTable table now).literal wantsDate) 0 text value (rest ++ context') := by
  have hg : (ofTable table now).lexicon = table.lexicon := rfl
  have token : ∀ {symbol : Symbol}, table.Token symbol (part ++ context') (rest ++ context') →
      table.Token symbol text (rest ++ context') := by
    intro symbol token
    obtain ⟨blanks, split, blank⟩ := exists_blanks text
    rw [split, start]
    exact token.prepend blank
  rcases orElse_eq_ok.mp read with hdate | ⟨_, read⟩
  · obtain ⟨instant, date, rfl⟩ := map_eq_ok.mp hdate
    obtain ⟨written, split, date_⟩ := absoluteDate_of_date date
    rw [← List.append_assoc, List.append_cancel_right_eq] at split
    rw [split, List.append_assoc] at start
    exact Costs.date hg legible start date_ (ends.detached legible)
  rcases orElse_eq_ok.mp read with hrelative | ⟨_, read⟩
  · obtain ⟨instant, relative, rfl⟩ := map_eq_ok.mp hrelative
    obtain ⟨run, after, unit, mid, digits, rfl, unit_, shorter, read'⟩ :=
      h.relative legible inside relative ends
    rw [List.append_assoc] at start read'
    exact Costs.relative hg legible start digits unit_ read'
      (Nat.le_trans shorter unit_.length_lt.le)
  rcases orElse_eq_ok.mp read with hnumber | ⟨_, read⟩
  · obtain ⟨written, split, number_, boundary⟩ := numberText_of_number hnumber
    rw [← List.append_assoc, List.append_cancel_right_eq] at split
    rw [split, List.append_assoc] at start
    refine Costs.number hg legible start number_ ends ?_
    -- What follows directly is in the span, or it is the other context.
    cases rest with
    | nil => exact h.boundary
    | cons c rest => exact ahead_cons.mpr (ahead_cons.mp boundary)
  rcases orElse_eq_ok.mp read with htruth | ⟨_, read⟩
  · obtain ⟨b, truth, rfl⟩ := map_eq_ok.mp htruth
    have read' : (ofTable table now).truth (part ++ context') = .ok (b, rest ++ context') :=
      h.pick rfl rfl inside truth
    rw [truth_eq, ← start, pick_skipBlanks, ← truth_eq] at read'
    exact Costs.truth hg legible (token_of_truth read') read'
  · obtain ⟨_, mid, read, hpure⟩ := bind_eq_ok.mp read
    obtain ⟨rfl, rfl⟩ := pure_eq_ok.mp hpure
    have read' := h.symbol rfl inside read
    rw [symbol_eq, ← start, pick_skipBlanks, ← symbol_eq] at read'
    exact Costs.present hg legible (token_of_symbol read') read'

/-- Further items within the span, in front of the bracket that closes the list. -/
private theorem furtherItems (h : Interchangeable table span context context')
    (legible : table.Legible)
    (item : ∀ {part rest value}, part <:+ span →
      (ofTable table now).literal wantsDate depth (part ++ context) = .ok (value, rest ++ context) →
      Ends table (rest ++ context') →
      ∃ n ≤ depth, Costs ((ofTable table now).literal wantsDate) n (part ++ context') value
        (rest ++ context'))
    {after : List Char}
    (closing : table.Token (.punctuation .rightBracket) (rest ++ context') after)
    {values : List Value} (inside : part <:+ span)
    (read : many (furtherItem (ofTable table now) wantsDate depth) (part ++ context)
      = .ok (values, rest ++ context)) :
    (∃ n ≤ depth, Costs (fun d => many (furtherItem (ofTable table now) wantsDate d)) n
      (part ++ context') values (rest ++ context')) ∧ Ends table (part ++ context') := by
  refine many_induction (furtherItem_cuts rfl _ _) (R := fun part values =>
    (∃ n ≤ depth, Costs (fun d => many (furtherItem (ofTable table now) wantsDate d)) n
      (part ++ context') values (rest ++ context')) ∧ Ends table (part ++ context'))
    ?_ ?_ inside read
  · have noComma : ((ofTable table now).sign .comma).Declines (rest ++ context') :=
      symbol_declines_at rfl legible closing rfl
    exact ⟨⟨0, Nat.zero_le _, Costs.many_nil fun _ => Declines.bind noComma⟩,
      .inr ⟨_, _, rfl, closing⟩⟩
  · intro part mid value others inside inside' first more
    obtain ⟨⟨m, hm, further⟩, next⟩ := more
    -- A comma stands in front of the item, in the other context as well.
    obtain ⟨text, comma, read⟩ := furtherItem_eq_ok first
    obtain ⟨start, rfl, inside''⟩ :=
      exists_part inside (sign_cuts rfl _ comma) (literal_cuts rfl _ _ read)
    obtain ⟨n, hn, value_⟩ := item inside'' read next
    have comma' := h.symbol rfl inside comma
    have shorter := (token_of_symbol comma').length_lt
    refine ⟨⟨max n m, by omega, ?_⟩, .inr ⟨_, _, rfl, token_of_symbol comma'⟩⟩
    exact (Costs.furtherItem rfl comma' value_).many_cons
      (Nat.lt_of_le_of_lt value_.shorter shorter) further

/-- A string within the span. -/
private theorem quotedLiteral (solid : skipBlanks part ≠ [])
    (read : (ofTable table now).quotedLiteral wantsDate (skipBlanks part ++ context)
      = .ok (value, rest ++ context)) :
    Costs ((ofTable table now).literal wantsDate) 0 (part ++ context') value
      (rest ++ context') := by
  obtain ⟨mark, text, string, split, mark_, body, means⟩ := quotedLiteral_eq_ok read
  obtain ⟨written, rfl, body_⟩ := quotedBody_of_readBody body
  have start : skipBlanks part = mark :: (written ++ mark :: rest) := by
    rw [← List.append_cancel_right_eq _ context, split]
    simp only [List.cons_append, List.append_assoc]
  refine Costs.string ?_ mark_ body_ (stringMeans_iff.mp means)
  rw [skipBlanks_append solid, start]
  simp only [List.cons_append, List.append_assoc]

/-- The forms of a literal within the span, with lists of items that are read alike. -/
private theorem literalForms (h : Interchangeable table span context context')
    (legible : table.Legible)
    (item : ∀ {d part rest value}, depth = d + 1 → part <:+ span →
      (ofTable table now).literal wantsDate d (part ++ context) = .ok (value, rest ++ context) →
      Ends table (rest ++ context') →
      ∃ n ≤ d, Costs ((ofTable table now).literal wantsDate) n (part ++ context') value
        (rest ++ context'))
    (inside : part <:+ span)
    (read : (ofTable table now).literal wantsDate depth (part ++ context)
      = .ok (value, rest ++ context)) (ends : Ends table (rest ++ context')) :
    ∃ n ≤ depth, Costs ((ofTable table now).literal wantsDate) n (part ++ context') value
      (rest ++ context') := by
  have solid : skipBlanks part ≠ [] := by
    rw [← literal_skipBlanks] at read
    exact solid_of_length_lt (valuePhrase_of_literal read).length_lt
  have start := skipBlanks_append solid context'
  have inside' := suffix_skipBlanks inside
  rw [literal_apply, skipBlanks_append solid] at read
  rcases orElse_eq_ok.mp read with string | ⟨_, read⟩
  · exact ⟨0, Nat.zero_le _, quotedLiteral solid string⟩
  rcases orElse_eq_ok.mp read with list | ⟨_, bare⟩
  · obtain ⟨t1, t2, values, opening, items, closing, rfl⟩ := listOf_eq_ok list
    cases depth with
    | zero => cases items
    | succ d =>
      -- The brackets and what they hold are parts of the span.
      have cut := (itemsOf_cuts rfl wantsDate d items).trans (sign_cuts rfl _ closing)
      obtain ⟨t1, rfl, inside1⟩ := exists_part inside' (sign_cuts rfl _ opening) cut
      obtain ⟨t2, rfl, inside2⟩ :=
        exists_part inside1 (itemsOf_cuts rfl wantsDate d items) (sign_cuts rfl _ closing)
      have closing' := h.symbol rfl inside2 closing
      have opening' : (ofTable table now).sign .leftBracket (skipBlanks (part ++ context'))
          = .ok ((), t1 ++ context') := by
        rw [start]
        exact h.symbol rfl inside' opening
      have token : table.Token (.punctuation .leftBracket) (part ++ context') (t1 ++ context') := by
        rw [sign_eq, pick_skipBlanks, ← sign_eq] at opening'
        exact token_of_symbol opening'
      have noQuote := (nonWord_declines (ofTable table now) wantsDate legible token).1
      rcases itemsOf_eq_ok items with ⟨rfl, same, _⟩ | ⟨first, mid, others, rfl, one, more⟩
      · rw [List.append_cancel_right_eq] at same
        subst same
        refine ⟨1, by omega, Costs.list rfl noQuote opening' (Costs.items_nil ?_) closing'⟩
        intro d
        exact literal_declines_rightBracket rfl legible (token_of_symbol closing') d
      · obtain ⟨mid, rfl, inside3⟩ := exists_part inside1 (literal_cuts rfl _ _ one)
          ((furtherItem_cuts rfl _ _).many more)
        obtain ⟨⟨m, hm, further⟩, next⟩ :=
          h.furtherItems legible (item rfl) (token_of_symbol closing') inside3 more
        obtain ⟨n, hn, value_⟩ := item rfl inside1 one next
        exact ⟨max n m + 1, by omega,
          Costs.list rfl noQuote opening' (Costs.items_cons value_ further) closing'⟩
  · exact ⟨0, Nat.zero_le _, h.bareLiteral legible inside' start bare ends⟩

/-- A literal within the span is read in the other context, if what comes next there may
come after a value. -/
theorem literal (h : Interchangeable table span context context') (legible : table.Legible)
    (inside : part <:+ span)
    (read : (ofTable table now).literal wantsDate depth (part ++ context)
      = .ok (value, rest ++ context)) (ends : Ends table (rest ++ context')) :
    ∃ n ≤ depth, Costs ((ofTable table now).literal wantsDate) n (part ++ context') value
      (rest ++ context') := by
  -- By induction on the levels left: the items of a list have one less.
  induction depth generalizing part rest value with
  | zero => exact h.literalForms legible (fun same => by cases same) inside read ends
  | succ depth ih =>
    refine h.literalForms legible ?_ inside read ends
    intro d part rest value same inside read ends
    cases same
    exact ih inside read ends

end

/-! ### Triggers -/

section

variable {g : Grammar} {trigger : Trigger} {depth : Nat} {symbols : Symbol → Bool}
  {accepts : Connective → Bool} {p : Parser Trigger} {q : Nat → Parser Trigger}

/-- A condition within the span. -/
theorem condition (h : Interchangeable table span context context') (legible : table.Legible)
    (hg : g.lexicon = table.lexicon) (inside : part <:+ span)
    (read : g.condition depth (part ++ context) = .ok (trigger, rest ++ context))
    (ends : Ends table (rest ++ context')) :
    ∃ n ≤ depth, Costs (ofTable table g.now).operand n (part ++ context') trigger
      (rest ++ context') := by
  rw [condition_eq_ofTable hg] at read
  obtain ⟨field, operator, value, t1, t2, hfield, hoperator, hvalue, membership, rfl⟩ :=
    condition_eq_ok read
  have valueCut := literal_cuts rfl _ _ hvalue
  have operatorCut := pick_cuts rfl _ hoperator
  obtain ⟨t1, rfl, inside1⟩ :=
    exists_part inside (pick_cuts rfl _ hfield) (operatorCut.trans valueCut)
  obtain ⟨t2, rfl, inside2⟩ := exists_part inside1 operatorCut valueCut
  have hfield' : (ofTable table g.now).field (part ++ context') = .ok (field, t1 ++ context') :=
    h.pick rfl rfl inside hfield
  have hoperator' : (ofTable table g.now).operator (t1 ++ context')
      = .ok (operator, t2 ++ context') := h.pick rfl rfl inside1 hoperator
  obtain ⟨n, hn, costs⟩ := h.literal legible inside2 hvalue ends
  obtain ⟨noNot, noParen⟩ :=
    operand_declines_field (g := ofTable table g.now) rfl legible (token_of_field hfield')
  exact ⟨n, hn, Costs.operand_condition noNot noParen
    (Costs.condition rfl hfield' hoperator' costs membership)⟩

/-- Further operands of a tier within the span. Where the repetition ends, no connective
of the tier stands in the other context. -/
private theorem furtherOperands (h : Interchangeable table span context context')
    (hg : g.lexicon = table.lexicon) (cuts : Cuts p)
    (operand : ∀ {part rest trigger}, part <:+ span →
      p (part ++ context) = .ok (trigger, rest ++ context) →
      EndsWith table (orConnective symbols accepts) (rest ++ context') →
      ∃ n ≤ depth, Costs q n (part ++ context') trigger (rest ++ context'))
    (stop : ((ofTable table g.now).connective accepts).Declines (rest ++ context'))
    (ends : EndsWith table symbols (rest ++ context'))
    {others : List (Connective × Trigger)} (inside : part <:+ span)
    (read : many (g.continuation accepts p) (part ++ context) = .ok (others, rest ++ context)) :
    (∃ n ≤ depth, Costs (fun d => many ((ofTable table g.now).continuation accepts (q d))) n
      (part ++ context') others (rest ++ context')) ∧
      EndsWith table (orConnective symbols accepts) (part ++ context') := by
  refine many_induction (continuation_cuts hg accepts cuts) (R := fun part others =>
    (∃ n ≤ depth, Costs (fun d => many ((ofTable table g.now).continuation accepts (q d))) n
      (part ++ context') others (rest ++ context')) ∧
      EndsWith table (orConnective symbols accepts) (part ++ context')) ?_ ?_ inside read
  · exact ⟨⟨0, Nat.zero_le _, Costs.many_nil fun _ => Declines.bind stop⟩,
      ends.orConnective accepts⟩
  · intro part mid next others inside inside' first more
    obtain ⟨connective, trigger⟩ := next
    obtain ⟨⟨m, hm, further⟩, next⟩ := more
    -- The connective is read in the other context as well, and then its operand.
    obtain ⟨text, hconnective, hoperand⟩ := continuation_eq_ok first
    obtain ⟨start, rfl, inside''⟩ :=
      exists_part inside (connective_cuts hg accepts hconnective) (cuts hoperand)
    obtain ⟨n, hn, operand_⟩ := operand inside'' hoperand next
    have hconnective' : (ofTable table g.now).connective accepts (part ++ context')
        = .ok (connective, start ++ context') := h.pick hg rfl inside hconnective
    obtain ⟨accepted, token⟩ := token_of_connective hconnective'
    refine ⟨⟨max n m, by omega, ?_⟩, .inr ⟨.connective connective, _, ?_, token⟩⟩
    · exact (Costs.continuation rfl rfl hconnective' operand_).many_cons
        (Nat.lt_of_le_of_lt operand_.shorter token.length_lt) further
    · show (symbols (.connective connective) || accepts connective) = true
      rw [accepted, Bool.or_true]

/-- A tier within the span. -/
private theorem tier (h : Interchangeable table span context context')
    (hg : g.lexicon = table.lexicon) (cuts : Cuts p)
    (operand : ∀ {part rest trigger}, part <:+ span →
      p (part ++ context) = .ok (trigger, rest ++ context) →
      EndsWith table (orConnective symbols accepts) (rest ++ context') →
      ∃ n ≤ depth, Costs q n (part ++ context') trigger (rest ++ context'))
    (stop : ((ofTable table g.now).connective accepts).Declines (rest ++ context'))
    (ends : EndsWith table symbols (rest ++ context')) (inside : part <:+ span)
    (read : g.tier accepts p (part ++ context) = .ok (trigger, rest ++ context)) :
    ∃ n ≤ depth, Costs (fun d => (ofTable table g.now).tier accepts (q d)) n (part ++ context')
      trigger (rest ++ context') := by
  obtain ⟨first, text, others, hfirst, hothers, rfl⟩ := tier_eq_ok read
  obtain ⟨mid, rfl, inside'⟩ :=
    exists_part inside (cuts hfirst) ((continuation_cuts hg accepts cuts).many hothers)
  obtain ⟨⟨m, hm, further⟩, next⟩ :=
    h.furtherOperands hg cuts operand stop ends inside' hothers
  obtain ⟨n, hn, first_⟩ := operand inside hfirst next
  exact ⟨max n m, by omega, Costs.tier first_ further⟩

/-- Operands under both tiers within the span, in front of what closes them in the other
context. -/
theorem tiers (h : Interchangeable table span context context') (legible : table.Legible)
    (hg : g.lexicon = table.lexicon) (cuts : Cuts p)
    (operand : ∀ {part rest trigger}, part <:+ span →
      p (part ++ context) = .ok (trigger, rest ++ context) → Ends table (rest ++ context') →
      ∃ n ≤ depth, Costs (ofTable table g.now).operand n (part ++ context') trigger
        (rest ++ context'))
    (inside : part <:+ span)
    (read : g.tiers p (part ++ context) = .ok (trigger, rest ++ context))
    (ends : EndsWith table closes (rest ++ context')) :
    ∃ n ≤ depth, Costs (fun d => (ofTable table g.now).tiers ((ofTable table g.now).operand d)) n
      (part ++ context') trigger (rest ++ context') := by
  refine h.tier hg (tier_cuts hg _ cuts) ?_ (ends.orTier_declines rfl legible) ends inside read
  intro part rest trigger inside read ends
  refine h.tier hg cuts ?_ (ends.andTier_declines rfl legible) ends inside read
  intro part rest trigger inside read ends
  exact operand inside read ends.ends

/-- An operand within the span is read strictly in the other context, if what comes next
there may come after a value. -/
theorem operand (h : Interchangeable table span context context') (legible : table.Legible)
    (hg : g.lexicon = table.lexicon) (inside : part <:+ span)
    (read : g.operand depth (part ++ context) = .ok (trigger, rest ++ context))
    (ends : Ends table (rest ++ context')) :
    ∃ n ≤ depth, Costs (ofTable table g.now).operand n (part ++ context') trigger
      (rest ++ context') := by
  -- By induction on the levels left: what an operand holds has one less.
  induction depth generalizing part rest trigger with
  | zero =>
    rcases operand_eq_ok read with ⟨_, _, _, none, _⟩ | ⟨_, _, _, none, _⟩ | ⟨_, read⟩
    · cases none
    · cases none
    · exact h.condition legible hg inside read ends
  | succ depth ih =>
    rcases operand_eq_ok read with ⟨_, text, negated, same, hnot, inner, rfl⟩ |
      ⟨_, t1, t2, same, _, opening, inner, closing⟩ | ⟨_, read⟩
    · cases same
      obtain ⟨mid, rfl, inside'⟩ :=
        exists_part inside (connective_cuts hg _ hnot) (operand_cuts hg depth inner)
      have hnot' : (ofTable table g.now).connective Connective.isUnary (part ++ context')
          = .ok (.not, mid ++ context') := h.pick hg rfl inside hnot
      obtain ⟨n, hn, costs⟩ := ih inside' inner ends
      exact ⟨n + 1, by omega, Costs.negation rfl hnot' costs⟩
    · cases same
      have innerCut := tiers_cuts hg (operand_cuts hg depth) inner
      have closingCut := sign_cuts hg _ closing
      obtain ⟨t1, rfl, inside1⟩ :=
        exists_part inside (sign_cuts hg _ opening) (innerCut.trans closingCut)
      obtain ⟨t2, rfl, inside2⟩ := exists_part inside1 innerCut closingCut
      have opening' : (ofTable table g.now).sign .leftParen (part ++ context')
          = .ok ((), t1 ++ context') := h.symbol hg inside opening
      have closing' : (ofTable table g.now).sign .rightParen (t2 ++ context')
          = .ok ((), rest ++ context') := h.symbol hg inside2 closing
      have noNot := operand_declines_leftParen (g := ofTable table g.now) rfl legible
        (token_of_symbol opening')
      obtain ⟨n, hn, costs⟩ := h.tiers legible hg (operand_cuts hg depth)
        (fun inside read ends => ih inside read ends) inside1 inner
        (.inr ⟨_, _, rfl, token_of_symbol closing'⟩)
      exact ⟨n + 1, by omega, Costs.parentheses rfl noNot opening' costs closing'⟩
    · exact h.condition legible hg inside read ends

end

end Interchangeable

/-! ### Two contexts -/

/-- Tokens that no context can get hold of: none of them ends in a digit, holds a blank, or
holds the sign that closes parentheses among other characters. -/
structure TokenTable.Contained (table : TokenTable) : Prop where
  noDigit : ∀ entry ∈ table.entries, ∀ token ∈ entry.2,
    token.toList.getLast?.all (fun c => !c.isDigit) = true
  noBlank : ∀ entry ∈ table.entries, ∀ token ∈ entry.2,
    token.toList.all (fun c => !isBlank c) = true
  noParen : ∀ entry ∈ table.entries, ∀ token ∈ entry.2,
    ')' ∈ token.toList → token.toList = [')']

theorem TokenTable.contained_dsl : TokenTable.dsl.Contained where
  noDigit := by decide +kernel
  noBlank := by decide +kernel
  noParen := by decide +kernel

theorem TokenTable.contained_cnl : TokenTable.cnl.Contained where
  noDigit := by decide +kernel
  noBlank := by decide +kernel
  noParen := by decide +kernel

namespace Grammar

open ForumModeration.Parser

variable {table : TokenTable} {span context : List Char}

/-- Where a text is cut clean, it may end. -/
theorem interchangeable_end (contained : table.Contained) (cut : Severed span context) :
    Interchangeable table span context [] where
  keeps := by
    intro entry _ part rest _ after
    obtain ⟨⟨written, split, same⟩, boundary⟩ := afterToken?_eq_some_iff.mp after
    rw [← List.append_assoc, List.append_cancel_right_eq] at split
    rw [List.append_nil, List.append_nil]
    exact afterToken?_eq_some_iff.mpr ⟨⟨written, split, same⟩, boundary.of_append⟩
  adds := by
    intro entry mem part inside nonempty none
    by_contra found
    obtain ⟨rest, after⟩ := Option.ne_none_iff_exists'.mp found
    obtain ⟨⟨written, split, same⟩, boundary⟩ := afterToken?_eq_some_iff.mp after
    rw [List.append_nil] at split
    have boundary' : RespectsBoundary entry.1 (rest ++ context) := by
      refine boundary.append ?_
      rintro rfl ident
      -- The token ends with the span, in no digit, so nothing goes on there.
      obtain ⟨c, last, identc⟩ := (Option.any_eq_true _ _).mp ident
      obtain ⟨d, last', letter⟩ := exists_getLast?_of_lower same last
      obtain ⟨_, entry', hentry, _, spelling, listed, spelled⟩ :=
        TokenTable.exists_entry (show (entry.1, entry.2) ∈ table.lexicon from mem)
      have noDigit := contained.noDigit entry' hentry spelling listed
      rw [spelled, last, Option.all_some, Bool.not_eq_true', ← isDigit_toLower, ← letter,
        isDigit_toLower] at noDigit
      rw [← isIdent_toLower, ← letter, isIdent_toLower] at identc
      rw [List.append_nil] at split
      obtain ⟨before, rfl⟩ := inside
      refine cut d ?_ identc noDigit
      rw [Option.mem_def, List.getLast?_append_of_ne_nil _ nonempty, split, last']
    rw [afterToken?_eq_some_iff.mpr ⟨⟨written, by rw [split, List.append_assoc], same⟩, boundary'⟩]
      at none
    cases none
  boundary := ahead_nil _

/-- Behind a whole text another one may come, if it starts with a character that tokens do
not have among others. -/
theorem interchangeable_of_start {c : Char} (apart : isIdent c = false ∧ c ≠ '.')
    (alone : ∀ entry ∈ table.lexicon, ∀ d ∈ entry.1, d.toLower = c.toLower → entry.1.length = 1)
    (span more : List Char) : Interchangeable table span [] (c :: more) where
  keeps := by
    intro entry _ part rest _ after
    rw [List.append_nil, List.append_nil] at after
    obtain ⟨⟨written, split, same⟩, boundary⟩ := afterToken?_eq_some_iff.mp after
    refine afterToken?_eq_some_iff.mpr ⟨⟨written, by rw [split, List.append_assoc], same⟩, ?_⟩
    exact boundary.append fun _ _ => ahead_cons.mpr apart
  adds := by
    intro entry mem part _ nonempty none
    by_contra found
    obtain ⟨rest, after⟩ := Option.ne_none_iff_exists'.mp found
    obtain ⟨⟨written, split, same⟩, boundary⟩ := afterToken?_eq_some_iff.mp after
    have within : ∀ beyond, part = written ++ beyond → RespectsBoundary entry.1 beyond → False := by
      intro beyond split' boundary'
      rw [List.append_nil, afterToken?_eq_some_iff.mpr ⟨⟨written, split', same⟩, boundary'⟩] at none
      cases none
    rcases List.append_eq_append_iff.mp split with ⟨beyond, split', rest'⟩ | ⟨beyond, split', rfl⟩
    · cases beyond with
      | nil =>
        rw [List.append_nil] at split'
        exact within [] (by rw [List.append_nil, split']) fun _ => ahead_nil _
      | cons d beyond =>
        -- The token would hold the character and what stands in front of it.
        rw [List.cons_append, List.cons.injEq] at rest'
        have held : c.toLower ∈ lower entry.1 := by
          rw [← same, split', ← rest'.1]
          exact List.mem_map_of_mem (by simp)
        obtain ⟨e, held, letter⟩ := List.mem_map.mp held
        have length := congrArg List.length same
        rw [length_lower, length_lower, alone entry mem e held letter, split'] at length
        simp only [List.length_append, List.length_cons] at length
        exact nonempty (List.length_eq_zero_iff.mp (by omega))
    · exact within beyond split' boundary.of_append
  boundary := ahead_cons.mpr apart.1

/-- Behind a whole text parentheses may be closed. -/
theorem interchangeable_rightParen (contained : table.Contained) (span more : List Char) :
    Interchangeable table span [] (')' :: more) := by
  refine interchangeable_of_start (by decide) ?_ span more
  rintro ⟨token, symbol⟩ mem d held letter
  obtain ⟨_, entry, hentry, _, spelling, listed, rfl⟩ := TokenTable.exists_entry mem
  rw [((toLower_eq_iff (by decide)).mp letter).1] at held
  show spelling.toList.length = 1
  rw [contained.noParen entry hentry spelling listed held]
  rfl

/-- No token holds a blank. -/
theorem isBlank_eq_false_of_mem (contained : table.Contained) {token : List Char}
    {symbol : Symbol} (mem : (token, symbol) ∈ table.lexicon) {d : Char}
    (held : d ∈ token) : isBlank d = false := by
  obtain ⟨_, entry, hentry, _, spelling, listed, rfl⟩ := TokenTable.exists_entry mem
  simpa using List.all_eq_true.mp (contained.noBlank entry hentry spelling listed) d held

/-- Behind a whole text blanks may come and anything behind them. -/
theorem interchangeable_blank (contained : table.Contained) {c : Char} (blank : isBlank c = true)
    (span more : List Char) : Interchangeable table span [] (c :: more) := by
  refine interchangeable_of_start ⟨isIdent_eq_false_of_isBlank blank, ?_⟩ ?_ span more
  · rintro rfl
    exact absurd blank (by decide)
  · intro entry mem d held letter
    have notBlank := isBlank_eq_false_of_mem contained mem held
    rw [← isBlank_toLower, letter, isBlank_toLower, blank] at notBlank
    cases notBlank

/-- A token in front of a blank or at the end of the text is picked, as no token holds a
blank. -/
theorem pick_before_blank {α : Type} {g : Grammar} {wanted : Symbol → Option α} {a : α}
    {symbol : Symbol} {text rest : List Char} (hg : g.lexicon = table.lexicon)
    (legible : table.Legible) (contained : table.Contained) (want : wanted symbol = some a)
    (kind : ∀ t, (wanted t).isSome = true → symbol.alike t = true)
    (blank : Ahead (isBlank · = true) rest) (token : table.Token symbol text rest) :
    g.pick wanted text = .ok (a, rest) := by
  refine pick_before_foreign hg legible want kind ?_ token
  intro c first entry mem _ d held letter
  have notBlank := isBlank_eq_false_of_mem contained mem held
  rw [← isBlank_toLower, letter, isBlank_toLower, blank c first] at notBlank
  cases notBlank

/-! ### Rules -/

/-- A rule that is read within a text, strictly or leniently, is read strictly when it is
all there is. -/
theorem rule_of_span (legible : table.Legible) (contained : table.Contained) {g : Grammar}
    (hg : g.lexicon = table.lexicon) {trigger : Trigger}
    (read : g.rule (span ++ context) = .ok (trigger, context)) :
    complete (ofTable table g.now).rule span = .ok trigger := by
  have severed : Severed span context := by
    obtain ⟨before, split, cut⟩ := rule_cuts hg read
    rw [List.append_cancel_right_eq] at split
    rwa [split]
  have h := interchangeable_end contained severed
  obtain ⟨text, htiers, rest⟩ := rule_eq_ok.mp read
  obtain ⟨blanks, split, blank⟩ := exists_blanks text
  have blanksCut : CleanCut text ([] ++ context) := by
    rw [split, ← rest]
    exact CleanCut.blanks blank
  -- What the operands leave of the span are the blanks behind them.
  obtain ⟨mid, rfl, _⟩ := Interchangeable.exists_part (List.suffix_refl span)
    (tiers_cuts hg (operand_cuts hg maxDepth) htiers) blanksCut
  rw [← rest, List.append_cancel_right_eq] at split
  have nothing : skipBlanks (mid ++ []) = [] := by
    rw [List.append_nil, split, ← List.append_nil blanks, skipBlanks_append_of_blank blank]
    rfl
  obtain ⟨n, hn, costs⟩ := h.tiers legible hg (operand_cuts hg maxDepth)
    (fun inside read ends => h.operand legible hg inside read ends) (List.suffix_refl span) htiers
    (.inl nothing)
  rw [List.append_nil] at costs
  exact (rule_of_costs costs nothing).1 hn

end Grammar

end ForumModeration
