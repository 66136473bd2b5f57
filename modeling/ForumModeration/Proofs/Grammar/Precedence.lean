import ForumModeration.Proofs.Grammar.Contexts

/-!
# `ForumModeration.Proofs.Grammar.Precedence`: operands in parentheses with connectives between

A rule may be made of other rules: each of them in parentheses, and connectives between
them. What it is read as does not depend on the texts of the operands but on what they
are read as alone, and on the connectives.

`precedence` says what that is. The operands are cut into pieces at the connectives of the
looser tier, each piece is folded from the left, and then the pieces are. A fold step
appends to the group that the fold built last, or makes a new group of two (`Fold.step`).
An operand is never taken apart, be it a group of the same connective.

* `chain_eq_fold`: a tier folds its operands this way.
* `costs_parenthesized`: a text in parentheses is an operand, whatever comes behind.
* `rule_joined`: what such a rule is read as, if there are enough levels of nesting.
-/

set_option autoImplicit false

namespace ForumModeration

open Text

/-! ### Precedence -/

/-- What a fold has made so far: the operand it started with, or a group that it built. -/
inductive Fold where
  | operand (trigger : Trigger)
  | group (connective : Connective) (children : List Trigger)

namespace Fold

/-- The trigger that has been made. -/
def trigger : Fold → Trigger
  | operand trigger => trigger
  | group connective children => .group connective children

/-- Takes in one more operand. The group that was built last takes it if its connective
is the same, and becomes the first child of a new group if it is not. -/
def step : Fold → Connective × Trigger → Fold
  | operand first, (connective, second) => group connective [first, second]
  | group built children, (connective, next) =>
    if built = connective then group built (children ++ [next])
    else group connective [.group built children, next]

end Fold

/-- Folds operands with their connectives from the left. -/
def fold (first : Trigger) (others : List (Connective × Trigger)) : Trigger :=
  (others.foldl Fold.step (.operand first)).trigger

/-- Cuts operands in front of each connective of the looser tier, which are all but `AND` and
`NAND`: into those that belong to the piece before, and the pieces behind it, each with the
connective it is cut at, its first operand and its others. -/
def cut : List (Connective × Trigger) →
    List (Connective × Trigger) × List (Connective × Trigger × List (Connective × Trigger))
  | [] => ([], [])
  | (connective, trigger) :: rest =>
    if connective ∈ [Connective.or, .nor, .xor, .xnor] then
      ([], (connective, trigger, (cut rest).1) :: (cut rest).2)
    else ((connective, trigger) :: (cut rest).1, (cut rest).2)

/-- What operands with connectives between them mean. -/
def precedence (first : Trigger) (others : List (Connective × Trigger)) : Trigger :=
  fold (fold first (cut others).1) ((cut others).2.map fun (connective, operand, piece) =>
    (connective, fold operand piece))

section

variable {connective : Connective} (trigger : Trigger) (rest : List (Connective × Trigger))

/-- A connective of the tighter tier goes on with the piece. -/
theorem cut_of_tight (tight : connective.inOrTier = false) :
    cut ((connective, trigger) :: rest)
      = ((connective, trigger) :: (cut rest).1, (cut rest).2) := by
  rw [cut, if_neg]
  rw [← Connective.inOrTier_iff, tight]
  exact Bool.false_ne_true

/-- A connective of the looser tier starts a new piece. -/
theorem cut_of_loose (loose : connective.inOrTier = true) :
    cut ((connective, trigger) :: rest)
      = ([], (connective, trigger, (cut rest).1) :: (cut rest).2) := by
  rw [cut, if_pos (Connective.inOrTier_iff.mp loose)]

end

/-- An operand alone is itself. -/
example (a : Trigger) : precedence a [] = a := rfl

/-- Connectives of the tighter tier bind first. A group in parentheses is not merged. -/
example (a b c d : Trigger) :
    precedence (.group .or [a, b]) [(.or, c), (.and, d)]
      = .group .or [.group .or [a, b], .group .and [c, d]] := rfl

namespace Grammar

open ForumModeration.Parser

/-! ### Tiers -/

/-- What a fold has made, with the connective that it built last. -/
def chainOf : Fold → Chain
  | .operand trigger => ⟨trigger, none⟩
  | .group connective children => ⟨.group connective children, some connective⟩

theorem add_chainOf (f : Fold) (operand : Connective × Trigger) :
    (chainOf f).add operand = chainOf (f.step operand) := by
  obtain ⟨connective, next⟩ := operand
  cases f with
  | operand first => cases first <;> rfl
  | group built children =>
    by_cases same : built = connective
    · simp [chainOf, Fold.step, Chain.add, same]
    · simp [chainOf, Fold.step, Chain.add, same]

/-- A tier folds its operands from the left. -/
theorem chain_eq_fold (first : Trigger) (others : List (Connective × Trigger)) :
    chain first others = fold first others := by
  show (others.foldl Chain.add (chainOf (.operand first))).trigger = _
  rw [List.foldl_hom chainOf add_chainOf, fold]
  cases others.foldl Fold.step (.operand first) <;> rfl

end Grammar

/-! ### Texts -/

/-- A connective as it is spelled, the text of the operand behind it, and what that text
is read as alone. -/
structure Link where
  connective : Connective
  spelling : String
  text : String
  trigger : Trigger

/-- The connective and the operand of a link. -/
def Link.operand (link : Link) : Connective × Trigger :=
  (link.connective, link.trigger)

/-- Connectives and operands in parentheses, with single spaces around the connectives. -/
def further : List Link → String
  | [] => ""
  | link :: rest => " " ++ link.spelling ++ " (" ++ link.text ++ ")" ++ further rest

/-- A text made of operands in parentheses with connectives between them. -/
def joined (first : String) (links : List Link) : String :=
  "(" ++ first ++ ")" ++ further links

theorem toList_joined (first : String) (links : List Link) :
    (joined first links).toList = '(' :: (first.toList ++ ')' :: (further links).toList) := by
  simp [joined]

theorem toList_further_cons (link : Link) (rest : List Link) :
    (further (link :: rest)).toList = [' '] ++ (link.spelling.toList ++
      ' ' :: '(' :: (link.text.toList ++ ')' :: (further rest).toList)) := by
  simp [further]

/-- The link has a connective between operands, spelled as the table lists it, and its
text is read as its trigger. -/
structure Link.Fits (table : TokenTable) (now : Instant) (link : Link) : Prop where
  binary : link.connective.isUnary = false
  spelled : ∃ entry ∈ table.entries, entry.1 = .connective link.connective ∧
    link.spelling ∈ entry.2
  read : (Grammar.ofTable table now).rule.complete link.text.toList = .ok link.trigger

/-- Parentheses of which neither goes on into another token. -/
structure TokenTable.Parenthesizes (table : TokenTable) : Prop where
  opens : (['('], .punctuation .leftParen) ∈ table.lexicon
  closes : ([')'], .punctuation .rightParen) ∈ table.lexicon
  opensAlone : table.settled (.punctuation .leftParen) ['('] = true
  closesAlone : table.settled (.punctuation .rightParen) [')'] = true

theorem TokenTable.parenthesizes_dsl : TokenTable.dsl.Parenthesizes where
  opens := by decide +kernel
  closes := by decide +kernel
  opensAlone := by decide +kernel
  closesAlone := by decide +kernel

theorem TokenTable.parenthesizes_cnl : TokenTable.cnl.Parenthesizes where
  opens := by decide +kernel
  closes := by decide +kernel
  opensAlone := by decide +kernel
  closesAlone := by decide +kernel

namespace Grammar

open ForumModeration.Parser

variable {table : TokenTable} {now : Instant} {text rest : List Char}

/-- A sign that is one character stands and is read, whatever comes behind it. -/
theorem sign_of_settled (now : Instant) (legible : table.Legible) {p : Punctuation} {c : Char}
    {blanks : List Char} (mem : ([c], .punctuation p) ∈ table.lexicon)
    (settled : table.settled (.punctuation p) [c] = true) (loose : isIdent c = false)
    (blank : ∀ d ∈ blanks, isBlank d = true) (rest : List Char) :
    table.Token (.punctuation p) (blanks ++ c :: rest) rest ∧
      (ofTable table now).sign p (blanks ++ c :: rest) = .ok ((), rest) := by
  have boundary : RespectsBoundary [c] rest := by
    intro ends
    rw [List.getLast?_singleton, Option.any_some, loose] at ends
    cases ends
  have token : table.Token (.punctuation p) (blanks ++ c :: rest) rest :=
    ⟨blanks, [c], [c], by simp, blank, TokenTable.mem_lexicon_iff.mp mem, rfl, boundary⟩
  refine ⟨token, ?_⟩
  rw [sign_eq]
  refine pick_behind_blanks rfl legible (by simp [exactly]) ?_ mem settled blank boundary ?_
  · intro t want
    rw [eq_of_exactly want]
    exact alike_self _
  · exact fun _ _ => List.not_mem_nil

/-- A text that is read as a rule is an operand when it stands in parentheses, whatever
comes behind them. -/
theorem costs_parenthesized (legible : table.Legible) (contained : table.Contained)
    (parens : table.Parenthesizes) {trigger : Trigger}
    (read : complete (ofTable table now).rule text = .ok trigger) {blanks : List Char}
    (blank : ∀ d ∈ blanks, isBlank d = true) (more : List Char) :
    ∃ n, Costs (ofTable table now).operand n (blanks ++ '(' :: (text ++ ')' :: more)) trigger
      more := by
  obtain ⟨mid, htiers, nothing⟩ := rule_eq_ok.mp (complete_eq_ok.mp read)
  -- What the operands leave of the text is blank, so the parenthesis closes them.
  have blank' : ∀ d ∈ mid, isBlank d = true := by
    obtain ⟨blanks', split, blank'⟩ := exists_blanks mid
    rwa [split, ← nothing, List.append_nil]
  obtain ⟨opening, opens⟩ := sign_of_settled now legible parens.opens parens.opensAlone
    (by decide) blank (text ++ ')' :: more)
  obtain ⟨closing, closes⟩ := sign_of_settled now legible parens.closes parens.closesAlone
    (by decide) blank' more
  have h := interchangeable_rightParen contained text more
  rw [← List.append_nil text, ← List.append_nil mid] at htiers
  obtain ⟨n, _, costs⟩ := h.tiers legible rfl (operand_cuts rfl maxDepth)
    (fun inside read ends => h.operand legible rfl inside read ends) (List.suffix_refl text) htiers
    (.inr ⟨_, _, rfl, closing⟩)
  have noNot := operand_declines_leftParen (g := ofTable table now) rfl legible opening
  exact ⟨n + 1, Costs.parentheses rfl noNot opens costs closes⟩

/-- The connective of a link stands in front of its operand, and is read by the tier that
it belongs to. -/
theorem connective_of_fits (legible : table.Legible) (contained : table.Contained)
    (writable : table.Writable) {link : Link} (fits : link.Fits table now) (rest : List Char) :
    table.Token (.connective link.connective) ([' '] ++ (link.spelling.toList ++ ' ' :: rest))
        (' ' :: rest) ∧
      ∀ accepts, accepts = Connective.inOrTier ∨ accepts = Connective.inAndTier →
        accepts link.connective = true →
        (ofTable table now).connective accepts ([' '] ++ (link.spelling.toList ++ ' ' :: rest))
          = .ok (link.connective, ' ' :: rest) := by
  obtain ⟨entry, hentry, named, listed⟩ := fits.spelled
  have token : table.Token (.connective link.connective)
      ([' '] ++ (link.spelling.toList ++ ' ' :: rest)) (' ' :: rest) :=
    .spaced ⟨entry, hentry, named, by rwa [String.ofList_toList]⟩
      (writable.nonempty entry hentry _ listed) fun _ => ahead_cons.mpr (by decide)
  refine ⟨token, ?_⟩
  intro accepts tier accepted
  rw [connective_eq]
  refine pick_before_blank rfl legible contained (by simp [connectiveOf, accepted]) ?_
    (ahead_cons.mpr (by decide)) token
  intro t want
  obtain ⟨d, rfl, accepted'⟩ := accepts_of_connectiveOf want
  exact tier_alike (tier.imp_right .inl) accepted accepted'

/-- The operands behind the first one: those that belong to its piece, and then the pieces
behind it. -/
theorem costs_further (legible : table.Legible) (contained : table.Contained)
    (writable : table.Writable) (parens : table.Parenthesizes) {links : List Link}
    (fits : ∀ link ∈ links, link.Fits table now) :
    ∃ mid n m,
      Costs (fun d => many ((ofTable table now).continuation Connective.inAndTier
        ((ofTable table now).operand d))) n (further links).toList
        (cut (links.map Link.operand)).1 mid ∧
      Costs (fun d => many ((ofTable table now).continuation Connective.inOrTier
        ((ofTable table now).tier Connective.inAndTier ((ofTable table now).operand d)))) m mid
        ((cut (links.map Link.operand)).2.map fun (connective, operand, piece) =>
          (connective, fold operand piece)) [] := by
  -- By induction on the links: one more goes on with the piece behind it or ends it.
  induction links with
  | nil =>
    have none : ∀ accepts, ((ofTable table now).connective accepts).Declines [] :=
      fun _ => pick_declines_ahead rfl legible (ahead_nil _)
    have nothing : (further []).toList = [] := by simp [further]
    rw [nothing]
    exact ⟨[], 0, 0, Costs.many_nil fun _ => Declines.bind (none Connective.inAndTier),
      Costs.many_nil fun _ => Declines.bind (none Connective.inOrTier)⟩
  | cons link links ih =>
    obtain ⟨mid, n, m, piece, pieces⟩ := ih fun link mem => fits link (List.mem_cons_of_mem _ mem)
    have fits := fits link (by simp)
    rw [toList_further_cons, List.map_cons]
    obtain ⟨token, reads⟩ := connective_of_fits legible contained writable fits
      ('(' :: (link.text.toList ++ ')' :: (further links).toList))
    obtain ⟨k, operand⟩ := costs_parenthesized legible contained parens fits.read
      isBlank_of_mem_space (further links).toList
    have shorter := token.length_lt
    cases loose : link.connective.inOrTier with
    | false =>
      have tight : link.connective.inAndTier = true := by
        have := link.connective.unary_or_tier.1
        rw [fits.binary, loose] at this
        simpa using this
      have first := Costs.continuation (g := ofTable table now) rfl rfl
        (reads _ (.inr rfl) tight) operand
      rw [Link.operand, cut_of_tight _ _ loose]
      exact ⟨mid, max k n, m, first.many_cons (Nat.lt_of_le_of_lt operand.shorter shorter) piece,
        pieces⟩
    | true =>
      have declines : ((ofTable table now).connective Connective.inAndTier).Declines
          ([' '] ++ (link.spelling.toList ++
            ' ' :: '(' :: (link.text.toList ++ ')' :: (further links).toList))) := by
        refine connective_declines_at rfl legible token ?_
        intro c tight
        show (link.connective.inAndTier && c.inOrTier || link.connective.inOrTier && c.inAndTier)
          = true
        rw [loose, tight, Bool.true_and, Bool.or_true]
      -- The operand starts a piece, and the others of the piece follow it.
      have whole := Costs.tier operand piece
      have first := Costs.continuation (g := ofTable table now) rfl rfl
        (reads _ (.inl rfl) loose) whole
      rw [chain_eq_fold] at first
      rw [Link.operand, cut_of_loose _ _ loose]
      exact ⟨_, 0, max (max k n) m, Costs.many_nil fun _ => Declines.bind declines,
        first.many_cons (Nat.lt_of_le_of_lt whole.shorter shorter) pieces⟩

/-- Operands in parentheses with connectives between them are read by precedence, if there
are enough levels of nesting for the operands. -/
theorem rule_joined (legible : table.Legible) (contained : table.Contained)
    (writable : table.Writable) (parens : table.Parenthesizes) {first : String} {trigger : Trigger}
    (read : complete (ofTable table now).rule first.toList = .ok trigger) {links : List Link}
    (fits : ∀ link ∈ links, link.Fits table now) :
    complete (ofTable table now).rule (joined first links).toList
        = .ok (precedence trigger (links.map Link.operand)) ∨
      ∃ stop, complete (ofTable table now).rule (joined first links).toList
        = .error ⟨stop, some (.requirement .shallowerNesting), true⟩ := by
  obtain ⟨mid, n, m, piece, pieces⟩ := costs_further legible contained writable parens fits
  obtain ⟨k, operand⟩ := costs_parenthesized legible contained parens read
    (fun _ mem => absurd mem List.not_mem_nil) (further links).toList
  have costs := Costs.tier (Costs.tier operand piece) pieces
  rw [List.nil_append, ← toList_joined, chain_eq_fold, chain_eq_fold] at costs
  obtain ⟨reads, refuses⟩ := rule_of_costs costs rfl
  rcases Nat.lt_or_ge maxDepth (max (max k n) m) with tooDeep | enough
  · exact .inr (refuses tooDeep)
  · exact .inl (reads enough)

end Grammar

end ForumModeration
