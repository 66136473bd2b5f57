import ForumModeration.Proofs.Grammar.Soundness

/-!
# `ForumModeration.Proofs.Grammar.Extension`: readers that read a little more

A reader that knows one token more than another may read where the other declines, and take
alternatives that the other never comes to. Both may come to differ on texts that the new
token starts. `Extends` keeps count of such texts by two marks, one for the text in front of a
reader and one for the text that it leaves. Off the marks, the second reader reads what the
first one reads and declines what it declines; and the first one, once on a marked text, does
not get off the marks again. Where it reads a whole text in spite of that, it never was on a
marked one, so the second reader reads the same.

The rules (`Extends.bind`, `Extends.orElse`, `Extends.optional`, `Extends.many`) are like
those of a program logic for two runs: the mark behind one reader is the mark in front of the
next. A reader that declines after it has read something puts its alternatives back at a text
in front of the mark, so a sequence needs `soft`, which holds at once of a `Firm` second reader.
-/

set_option autoImplicit false

namespace ForumModeration.Parser

variable {α β γ : Type} {p q p' q' : Parser α} {f h : α → Parser β}
  {before between after before' after' : List Char → Prop}

/-! ### What declines -/

theorem Declines.not_ok {text rest : List Char} {a : α} (no : p.Declines text) :
    p text ≠ .ok (a, rest) := by
  obtain ⟨failure, failed, _⟩ := no
  rw [failed]
  exact nofun

/-- A choice declines if both of its readings do. -/
theorem Declines.of_orElse {text : List Char} (no : (p.orElse p').Declines text) :
    p.Declines text ∧ p'.Declines text := by
  obtain ⟨failure, failed, soft⟩ := no
  cases hp : p text with
  | ok result =>
    rw [orElse_of_ok (show p text = .ok (result.1, result.2) from hp)] at failed
    cases failed
  | error inner =>
    by_cases final : inner.committed = true
    · have same : inner = failure := by simpa [Parser.orElse, hp, final] using failed
      rw [same, soft] at final
      cases final
    · have no : p.Declines text := ⟨inner, hp, by simpa using final⟩
      rw [no.orElse_eq] at failed
      exact ⟨no, failure, failed, soft⟩

/-- A sequence declines with its first reading or with its second. -/
theorem Declines.of_bind {text : List Char} (no : (p >>= f).Declines text) :
    p.Declines text ∨ ∃ a mid, p text = .ok (a, mid) ∧ (f a).Declines mid := by
  obtain ⟨failure, failed, soft⟩ := no
  cases hp : p text with
  | error inner =>
    rw [bind_of_error hp] at failed
    cases failed
    exact .inl ⟨failure, hp, soft⟩
  | ok result =>
    obtain ⟨a, mid⟩ := result
    rw [bind_of_ok hp] at failed
    exact .inr ⟨a, mid, rfl, failure, failed, soft⟩

theorem Declines.of_bind_ok {text mid : List Char} {a : α} (first : p text = .ok (a, mid))
    (no : (p >>= f).Declines text) : (f a).Declines mid := by
  obtain ⟨failure, failed, soft⟩ := no
  rw [bind_of_ok first] at failed
  exact ⟨failure, failed, soft⟩

theorem Declines.of_map {g : α → γ} {text : List Char} (no : (g <$> p).Declines text) :
    p.Declines text := by
  rcases Declines.of_bind no with no | ⟨_, _, _, failure, failed, _⟩
  · exact no
  · cases failed

theorem Declines.of_expecting {text : List Char} {what : Expectation}
    (no : (p.expecting what).Declines text) : p.Declines text := by
  obtain ⟨failure, failed, soft⟩ := no
  unfold Parser.expecting at failed
  cases hp : p text with
  | ok result =>
    rw [hp] at failed
    cases failed
  | error inner =>
    rw [hp] at failed
    cases failed
    exact ⟨inner, hp, soft⟩

/-! ### Readers that never decline -/

/-- Reads or refuses, and leaves no room for another reading. -/
def Firm (p : Parser α) : Prop :=
  ∀ text, ¬p.Declines text

namespace Firm

theorem pure (a : α) : Firm (Pure.pure a : Parser α) := by
  rintro text ⟨failure, failed, _⟩
  cases failed

theorem reject (what : Requirement) : Firm (reject what : Parser α) := by
  rintro text ⟨failure, failed, soft⟩
  cases failed
  cases soft

theorem commit (p : Parser α) : Firm (commit p) := by
  rintro text ⟨failure, failed, soft⟩
  unfold Parser.commit at failed
  cases read : p text with
  | ok result =>
    rw [read] at failed
    cases failed
  | error inner =>
    rw [read] at failed
    cases failed
    cases soft

theorem expecting (firm : Firm p) (what : Expectation) : Firm (p.expecting what) :=
  fun text no => firm text no.of_expecting

theorem required (what : Requirement) (p : Parser α) : Firm (required what p) :=
  (Firm.commit p).expecting _

theorem bind (first : Firm p) (second : ∀ a, Firm (f a)) : Firm (p >>= f) := by
  intro text no
  rcases no.of_bind with no | ⟨a, mid, _, no⟩
  · exact first text no
  · exact second a mid no

theorem ite {P : Prop} [Decidable P] (first : Firm p) (second : Firm q) :
    Firm (if P then p else q) := by
  split
  · exact first
  · exact second

theorem map (firm : Firm p) (g : α → γ) : Firm (g <$> p) :=
  firm.bind fun _ => .pure _

theorem optional (p : Parser α) : Firm p.optional := by
  rintro text ⟨failure, failed, soft⟩
  unfold Parser.optional at failed
  cases read : p text with
  | ok result =>
    rw [read] at failed
    cases failed
  | error inner =>
    by_cases final : inner.committed = true
    · simp only [read, final, if_true, Except.error.injEq] at failed
      rw [failed, soft] at final
      cases final
    · simp [read, final] at failed

/-- A repetition ends where its reader declines. -/
theorem many (p : Parser α) : Firm (many p) := by
  intro text
  -- By induction on the length of the text, which every reading shortens.
  induction length : text.length using Nat.strong_induction_on generalizing text with
  | _ n ih =>
    subst length
    rintro ⟨failure, failed, soft⟩
    rw [Parser.many] at failed
    cases read : p text with
    | error inner =>
      by_cases final : inner.committed = true
      · simp only [read, final, if_true, Except.error.injEq] at failed
        rw [failed, soft] at final
        cases final
      · simp [read, final] at failed
    | ok result =>
      obtain ⟨a, mid⟩ := result
      by_cases shorter : mid.length < text.length
      · cases more : Parser.many p mid with
        | ok others => simp [read, shorter, more] at failed
        | error inner =>
          simp only [read, shorter, if_true, more, Except.error.injEq] at failed
          rw [failed] at more
          exact ih mid.length shorter mid rfl ⟨failure, more, soft⟩
      · simp [read, shorter] at failed

theorem separatedOrNone (p : Parser α) (s : Parser γ) : Firm (separatedOrNone p s) := by
  refine (Firm.optional p).bind fun found => ?_
  cases found with
  | none => exact .pure _
  | some _ => exact (Firm.many _).bind fun _ => .pure _

end Firm

/-! ### Values that are checked -/

/-- Reads a value and refuses it for good, at the place where it starts, if it is bad. -/
def checked (p : Parser α) (bad : α → Prop) [DecidablePred bad] (what : Requirement)
    (make : α → γ) : Parser γ := fun text => do
  let (a, rest) ← p text
  if bad a then Parser.reject what text else .ok (make a, rest)

section

variable {bad : α → Prop} [DecidablePred bad] {what : Requirement} {make : α → γ}

theorem checked_of_error {text : List Char} {failure : Failure} (h : p text = .error failure) :
    checked p bad what make text = .error failure := by
  simp [checked, h, bind, Except.bind]

theorem checked_eq_ok {text rest : List Char} {c : γ} :
    checked p bad what make text = .ok (c, rest) ↔
      ∃ a, p text = .ok (a, rest) ∧ ¬bad a ∧ make a = c := by
  unfold checked
  cases hp : p text with
  | error failure => exact ⟨nofun, nofun⟩
  | ok result =>
    obtain ⟨a, mid⟩ := result
    change (if bad a then _ else Except.ok (make a, mid)) = _ ↔ _
    by_cases refused : bad a
    · rw [if_pos refused]
      refine ⟨nofun, ?_⟩
      rintro ⟨a', same, good, _⟩
      cases same
      exact absurd refused good
    · rw [if_neg refused]
      constructor
      · intro same
        cases same
        exact ⟨a, rfl, refused, rfl⟩
      · rintro ⟨a', same, _, rfl⟩
        cases same
        rfl

theorem Firm.checked (firm : Firm p) : Firm (checked p bad what make) := by
  rintro text ⟨failure, failed, soft⟩
  unfold Parser.checked at failed
  cases hp : p text with
  | error inner =>
    rw [hp] at failed
    cases failed
    exact firm text ⟨_, hp, soft⟩
  | ok result =>
    rw [hp] at failed
    change (if bad result.1 then _ else Except.ok (make result.1, result.2)) = _ at failed
    by_cases refused : bad result.1
    · rw [if_pos refused] at failed
      cases failed
      cases soft
    · rw [if_neg refused] at failed
      cases failed

end

/-! ### Readers that extend others -/

/-- Off the marked texts, `q` reads what `p` reads and declines what `p` declines; and on
a marked text `p` reads nothing that gets it off the marks. -/
structure Extends (before after : List Char → Prop) (q p : Parser α) : Prop where
  reads : ∀ {text a rest}, p text = .ok (a, rest) → q text = .ok (a, rest) ∨ after rest
  declines : ∀ {text}, p.Declines text → q.Declines text ∨ before text
  keeps : ∀ {text a rest}, before text → p text = .ok (a, rest) → after rest

namespace Extends

/-- A reader extends itself if it cannot get off the marks. -/
theorem refl (keeps : ∀ {text a rest}, before text → p text = .ok (a, rest) → after rest) :
    Extends before after p p :=
  ⟨.inl, .inl, keeps⟩

theorem pure (a : α) : Extends before before (Pure.pure a : Parser α) (Pure.pure a) :=
  refl fun marked read => (pure_eq_ok.mp read).2 ▸ marked

theorem reject (what : Requirement) :
    Extends before after (Parser.reject what : Parser α) (Parser.reject what) :=
  refl fun _ read => nomatch read

/-- More texts may be marked behind a reader. -/
theorem weaken (ext : Extends before after q p) (more : ∀ text, after text → after' text) :
    Extends before after' q p where
  reads read := (ext.reads read).imp_right (more _)
  declines := ext.declines
  keeps marked read := more _ (ext.keeps marked read)

/-- Fewer texts may be marked in front of a reader that never declines. -/
theorem restrict (ext : Extends before after q p) (firm : Firm p)
    (fewer : ∀ text, before' text → before text) : Extends before' after q p where
  reads := ext.reads
  declines no := absurd no (firm _)
  keeps marked := ext.keeps (fewer _ marked)

/-- No text has to be marked in front of a reader that declines the same texts. -/
theorem unmarked (ext : Extends before after q p)
    (same : ∀ text, p.Declines text → q.Declines text) : Extends (fun _ => False) after q p where
  reads := ext.reads
  declines no := .inl (same _ no)
  keeps marked := marked.elim

theorem reads_bind (first : Extends before between q p)
    (second : ∀ a, Extends between after (h a) (f a)) {text rest : List Char} {b : β}
    (read : (p >>= f) text = .ok (b, rest)) : (q >>= h) text = .ok (b, rest) ∨ after rest := by
  obtain ⟨a, mid, hp, hf⟩ := bind_eq_ok.mp read
  rcases first.reads hp with hq | marked
  · exact ((second a).reads hf).imp_left fun hh => bind_eq_ok.mpr ⟨a, mid, hq, hh⟩
  · exact .inr ((second a).keeps marked hf)

/-- The second reader starts on the marks where the first one leaves them. Where it declines
on a marked text, the sequence has to have started on one. -/
theorem bind (first : Extends before between q p) (second : ∀ a, Extends between after (h a) (f a))
    (soft : ∀ {text a mid}, p text = .ok (a, mid) → (f a).Declines mid → between mid →
      before text) : Extends before after (q >>= h) (p >>= f) where
  reads := first.reads_bind second
  declines {text} no := by
    rcases no.of_bind with no | ⟨a, mid, hp, no⟩
    · exact (first.declines no).imp_left Declines.bind
    · rcases first.reads hp with hq | marked
      · exact ((second a).declines no).imp (Declines.after hq) (soft hp no)
      · exact .inr (soft hp no marked)
  keeps marked read := by
    obtain ⟨a, mid, hp, hf⟩ := bind_eq_ok.mp read
    exact (second a).keeps (first.keeps marked hp) hf

theorem bind_firm (first : Extends before between q p)
    (second : ∀ a, Extends between after (h a) (f a)) (firm : ∀ a, Firm (f a)) :
    Extends before after (q >>= h) (p >>= f) :=
  first.bind second fun _ no => absurd no (firm _ _)

theorem map (ext : Extends before after q p) (g : α → γ) :
    Extends before after (g <$> q) (g <$> p) :=
  ext.bind_firm (fun _ => pure _) fun _ => .pure _

theorem orElse (first : Extends before after q p) (second : Extends before after q' p') :
    Extends before after (q.orElse q') (p.orElse p') where
  reads {text a rest} read := by
    rcases orElse_eq_ok.mp read with hp | ⟨no, hp⟩
    · exact (first.reads hp).imp_left fun hq => orElse_of_ok hq
    · rcases first.declines no with no | marked
      · exact (second.reads hp).imp_left fun hq => orElse_eq_ok.mpr (.inr ⟨no, hq⟩)
      · exact .inr (second.keeps marked hp)
  declines no := by
    rcases first.declines no.of_orElse.1 with noFirst | marked
    · exact (second.declines no.of_orElse.2).imp_left noFirst.orElse
    · exact .inr marked
  keeps marked read := by
    rcases orElse_eq_ok.mp read with hp | ⟨_, hp⟩
    · exact first.keeps marked hp
    · exact second.keeps marked hp

/-- Where nothing is read, the text in front is left. -/
theorem optional (ext : Extends before after q p) (left : ∀ text, before text → after text) :
    Extends before after q.optional p.optional where
  reads {text a rest} read := by
    rcases optional_eq_ok.mp read with ⟨b, rfl, hp⟩ | ⟨rfl, rfl, no⟩
    · exact (ext.reads hp).imp_left fun hq => optional_of_ok hq
    · exact (ext.declines no).imp Declines.optional (left _)
  declines no := absurd no (Firm.optional p _)
  keeps marked read := by
    rcases optional_eq_ok.mp read with ⟨b, rfl, hp⟩ | ⟨rfl, rfl, _⟩
    · exact ext.keeps marked hp
    · exact left _ marked

theorem commit (ext : Extends before after q p) :
    Extends before after (Parser.commit q) (Parser.commit p) where
  reads read := (ext.reads (commit_eq_ok.mp read)).imp_left commit_eq_ok.mpr
  declines no := absurd no (Firm.commit p _)
  keeps marked read := ext.keeps marked (commit_eq_ok.mp read)

theorem expecting (ext : Extends before after q p) (what : Expectation) :
    Extends before after (q.expecting what) (p.expecting what) where
  reads read := (ext.reads (expecting_eq_ok.mp read)).imp_left expecting_eq_ok.mpr
  declines no := (ext.declines no.of_expecting).imp_left Declines.expecting
  keeps marked read := ext.keeps marked (expecting_eq_ok.mp read)

theorem required (ext : Extends before after q p) (what : Requirement) :
    Extends before after (Parser.required what q) (Parser.required what p) :=
  ext.commit.expecting _

private theorem many_keeps (ext : Extends before before q p) {text rest : List Char} {as : List α}
    (marked : before text) (read : Parser.many p text = .ok (as, rest)) : before rest := by
  refine Grammar.many_sound (R := fun text _ rest => before text → before rest)
    (fun _ marked => marked) ?_ read marked
  intro text a mid others rest hp more marked
  exact more (ext.keeps marked hp)

/-- A repetition goes the same way until its reader gets to a marked text. -/
theorem many (ext : Extends before before q p)
    (shorter : ∀ {text a rest}, p text = .ok (a, rest) → rest.length < text.length) :
    Extends before before (Parser.many q) (Parser.many p) where
  reads {text as rest} read := by
    -- By induction on the length of the text, which every reading shortens.
    induction length : text.length using Nat.strong_induction_on generalizing text as with
    | _ n ih =>
      subst length
      cases hp : p text with
      | error failure =>
        by_cases final : failure.committed = true
        · rw [Parser.many, hp] at read
          simp [final] at read
        · have soft : failure.committed = false := by simpa using final
          rw [many_of_error hp soft] at read
          cases read
          rcases ext.declines ⟨failure, hp, soft⟩ with ⟨_, hq, soft⟩ | marked
          · exact .inl (many_of_error hq soft)
          · exact .inr marked
      | ok result =>
        obtain ⟨a, mid⟩ := result
        have less := shorter hp
        rw [Parser.many, hp] at read
        simp only [less, if_true] at read
        cases hmore : Parser.many p mid with
        | error failure =>
          rw [hmore] at read
          cases read
        | ok result =>
          rw [hmore] at read
          cases read
          rcases ext.reads hp with hq | marked
          · exact (ih mid.length less hmore rfl).imp_left (many_of_ok hq less)
          · exact .inr (ext.many_keeps marked hmore)
  declines no := absurd no (Firm.many p _)
  keeps := ext.many_keeps

theorem checked (ext : Extends before after q p) (firm : Firm p) {bad : α → Prop}
    [DecidablePred bad] (what : Requirement) (make : α → γ) :
    Extends before after (checked q bad what make) (checked p bad what make) where
  reads read := by
    obtain ⟨a, hp, good, rfl⟩ := checked_eq_ok.mp read
    exact (ext.reads hp).imp_left fun hq => checked_eq_ok.mpr ⟨a, hq, good, rfl⟩
  declines no := absurd no (firm.checked _)
  keeps marked read := by
    obtain ⟨a, hp, _⟩ := checked_eq_ok.mp read
    exact ext.keeps marked hp

theorem separated {s s' : Parser γ} (item : Extends before after q p)
    (further : Extends after after (do let _ ← s'; q) (do let _ ← s; p))
    (shorter : ∀ {text a rest}, (do let _ ← s; p) text = .ok (a, rest) →
      rest.length < text.length) :
    Extends before after (Parser.separated q s') (Parser.separated p s) :=
  item.bind_firm (fun _ => (further.many shorter).bind_firm (fun _ => pure _) fun _ => .pure _)
    fun _ => (Firm.many _).bind fun _ => .pure _

theorem separatedOrNone {s s' : Parser γ} (item : Extends before after q p)
    (left : ∀ text, before text → after text)
    (further : Extends after after (do let _ ← s'; q) (do let _ ← s; p))
    (shorter : ∀ {text a rest}, (do let _ ← s; p) text = .ok (a, rest) →
      rest.length < text.length) :
    Extends before after (Parser.separatedOrNone q s') (Parser.separatedOrNone p s) := by
  refine (item.optional left).bind_firm (fun found => ?_) fun found => ?_
  · cases found with
    | none => exact pure _
    | some _ => exact (further.many shorter).bind_firm (fun _ => pure _) fun _ => .pure _
  · cases found with
    | none => exact .pure _
    | some _ => exact (Firm.many _).bind fun _ => .pure _

end Extends

end ForumModeration.Parser

namespace ForumModeration.Grammar

open Text ForumModeration.Parser

/-! ### Relative times and conditions taken apart -/

/-- Digits that are declined as a relative time, though not for being too many, have no unit
behind them: after the unit, failures are final. -/
theorem timeUnit_declines_of_relative {g : Grammar} {run after : List Char} (digits : Digits run)
    (ends : Ahead (Char.isDigit · = false) after) (bounded : numberOf run ≤ maxAmount)
    (no : g.relative.Declines (run ++ after)) : g.timeUnit.Declines after := by
  replace no := no.of_bind_ok (run_eq_ok.mpr ⟨digits.1, rfl, digits.2, ends⟩)
  rw [if_neg (Nat.not_lt.mpr bounded)] at no
  rcases no.of_bind with noUnit | ⟨unit, mid, _, noRest⟩
  · exact noUnit
  · refine absurd noRest (Firm.bind (Firm.optional _) (fun _ => ?_) mid)
    cases g.backFromNow? unit (numberOf run) with
    | some instant => exact .pure _
    | none => exact .reject _

/-- The value of a condition is checked for being a list. -/
theorem condition_eq (g : Grammar) (depth : Nat) :
    g.condition depth = (do
      let field ← word .field g.field
      let operator ← (Parser.commit g.operator).word .operator
      blanks
      checked ((Parser.commit (g.literal field.isTime depth)).word .literal)
        (fun value => operator = .among ∧ ¬value.isList) .listAfterIn
        fun value => .condition ⟨field, operator, value⟩) :=
  rfl

/-- A condition whose value is refused is refused for good, at the place where the value is. -/
theorem condition_of_error {g : Grammar} {depth : Nat} {text t1 t2 : List Char} {field : Field}
    {operator : Operator} {failure : Failure} (hfield : g.field text = .ok (field, t1))
    (hoperator : g.operator t1 = .ok (operator, t2))
    (value : g.literal field.isTime depth (skipBlanks t2) = .error failure) :
    g.condition depth text
      = .error ⟨failure.rest, failure.expected <|> some (.word .literal), true⟩ := by
  rw [condition_eq]
  refine (bind_of_ok (expecting_eq_ok.mpr hfield)).trans ?_
  refine (bind_of_ok (expecting_eq_ok.mpr (commit_eq_ok.mpr hoperator))).trans ?_
  refine (bind_of_ok (show blanks t2 = .ok ((), skipBlanks t2) from rfl)).trans ?_
  exact checked_of_error (expecting_of_error (commit_of_error value))

end ForumModeration.Grammar
