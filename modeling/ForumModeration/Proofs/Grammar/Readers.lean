import Mathlib
import ForumModeration.Grammar.Parser

/-!
# `ForumModeration.Proofs.Grammar.Readers`: what each reader accepts and declines

A reader succeeds, declines or refuses. It *declines* a text (`Declines`) when it
fails without being committed, so that another reading may be tried. For every
reader of `Grammar/Parser.lean` this file says when it succeeds, as an equivalence
`…_eq_ok`, and when it declines. The two sides serve two directions of use:

* read from left to right, `bind_eq_ok`, `orElse_eq_ok`, `optional_eq_ok`,
  `run_eq_ok`, `runBetween_eq_ok`, `satisfying_eq_ok` take a reading apart;
* read from right to left they put one together, and the `declines` lemmas settle
  the alternatives that come before it.

A run of characters is longest, which both `run_eq_ok` and `runBetween_eq_ok`
express by what must not come next (`Ahead`).
-/

set_option autoImplicit false

namespace ForumModeration

/-- What holds of the first character of a text, if it has one. -/
def Ahead (P : Char → Prop) (text : List Char) : Prop :=
  ∀ c ∈ text.head?, P c

@[simp] theorem ahead_nil (P : Char → Prop) : Ahead P [] := by
  intro c h
  cases h

@[simp] theorem ahead_cons {P : Char → Prop} {c : Char} {text : List Char} :
    Ahead P (c :: text) ↔ P c := by
  simp [Ahead]

theorem Ahead.imp {P Q : Char → Prop} {text : List Char} (h : ∀ c, P c → Q c)
    (ahead : Ahead P text) : Ahead Q text := by
  intro c hc
  exact h c (ahead c hc)

/-- A text and a beginning of it start alike. -/
theorem ahead_take {P : Char → Prop} {text : List Char} {n : Nat} (positive : 0 < n) :
    Ahead P (text.take n) ↔ Ahead P text := by
  unfold Ahead
  rw [List.head?_take, if_neg (by omega)]

/-- The longest run at the start of a text, given where it ends. -/
theorem takeWhile_append_of_ahead {accepts : Char → Bool} {written rest : List Char}
    (all : ∀ c ∈ written, accepts c = true) (ends : Ahead (accepts · = false) rest) :
    (written ++ rest).takeWhile accepts = written := by
  induction written with
  | nil =>
    cases rest with
    | nil => rfl
    | cons c rest =>
      have : accepts c = false := by simpa using ends
      simp [this]
  | cons c written ih =>
    have hc : accepts c = true := all c (by simp)
    have hw : ∀ d ∈ written, accepts d = true := fun d hd => all d (by simp [hd])
    rw [List.cons_append, List.takeWhile_cons, if_pos hc, ih hw]

/-- What the longest run leaves, given where it ends. -/
theorem dropWhile_append_of_ahead {accepts : Char → Bool} {written rest : List Char}
    (all : ∀ c ∈ written, accepts c = true) (ends : Ahead (accepts · = false) rest) :
    (written ++ rest).dropWhile accepts = rest := by
  have split := List.takeWhile_append_dropWhile (p := accepts) (l := written ++ rest)
  rw [takeWhile_append_of_ahead all ends] at split
  exact List.append_cancel_left split

/-- The longest run ends where a character is not accepted. -/
theorem ahead_dropWhile (accepts : Char → Bool) (text : List Char) :
    Ahead (accepts · = false) (text.dropWhile accepts) := by
  intro c hc
  have := List.head?_dropWhile_not accepts text
  rw [Option.mem_def.mp hc] at this
  simpa using this

namespace Parser

variable {α β : Type} {p q : Parser α} {f : α → Parser β} {text rest : List Char} {a : α}

/-- Fails and leaves room for another reading. -/
def Declines (p : Parser α) (text : List Char) : Prop :=
  ∃ failure, p text = .error failure ∧ failure.committed = false

/-! ### Sequences -/

/-- A sequence succeeds if both of its readings do. -/
theorem bind_eq_ok {b : β} :
    (p >>= f) text = .ok (b, rest) ↔ ∃ a mid, p text = .ok (a, mid) ∧ f a mid = .ok (b, rest) := by
  constructor
  · intro h
    cases hp : p text with
    | error failure =>
      rw [bind_of_error hp] at h
      cases h
    | ok result =>
      rw [bind_of_ok (show p text = .ok (result.1, result.2) from hp)] at h
      exact ⟨result.1, result.2, rfl, h⟩
  · rintro ⟨a, mid, hp, hf⟩
    rw [bind_of_ok hp, hf]

theorem pure_eq_ok {b : α} : (pure a : Parser α) text = .ok (b, rest) ↔ a = b ∧ text = rest := by
  rw [pure_apply]
  simp

/-- A result is computed from what was read. -/
theorem map_eq_ok {g : α → β} {b : β} :
    (g <$> p) text = .ok (b, rest) ↔ ∃ a, p text = .ok (a, rest) ∧ g a = b := by
  show (p >>= fun a => pure (g a)) text = _ ↔ _
  rw [bind_eq_ok]
  constructor
  · rintro ⟨a, mid, hp, hb⟩
    obtain ⟨rfl, rfl⟩ := pure_eq_ok.mp hb
    exact ⟨a, hp, rfl⟩
  · rintro ⟨a, hp, rfl⟩
    exact ⟨a, rest, hp, rfl⟩

/-- A sequence declines with its first reading. -/
theorem Declines.bind (h : p.Declines text) : (p >>= f).Declines text := by
  obtain ⟨failure, hp, soft⟩ := h
  exact ⟨failure, bind_of_error hp, soft⟩

/-- A sequence declines with its second reading. -/
theorem Declines.after {mid : List Char} (hp : p text = .ok (a, mid)) (h : (f a).Declines mid) :
    (p >>= f).Declines text := by
  obtain ⟨failure, hf, soft⟩ := h
  exact ⟨failure, by rw [bind_of_ok hp, hf], soft⟩

theorem Declines.map {g : α → β} (h : p.Declines text) : (g <$> p).Declines text :=
  Declines.bind h

/-! ### Choices -/

/-- A choice succeeds with its first reading, or with its second if the first
declines. -/
theorem orElse_eq_ok :
    (p.orElse q) text = .ok (a, rest)
      ↔ p text = .ok (a, rest) ∨ (p.Declines text ∧ q text = .ok (a, rest)) := by
  unfold orElse Declines
  cases hp : p text with
  | ok result => simp
  | error failure =>
    cases hc : failure.committed <;> simp [hc]

theorem orElse_of_ok (h : p text = .ok (a, rest)) : (p.orElse q) text = .ok (a, rest) :=
  orElse_eq_ok.mpr (.inl h)

/-- A choice whose first reading declines is its second reading. -/
theorem Declines.orElse_eq (h : p.Declines text) : (p.orElse q) text = q text := by
  obtain ⟨failure, hp, soft⟩ := h
  simp [orElse, hp, soft]

/-- A failure that is final ends a choice. -/
theorem orElse_of_final {failure : Failure} (h : p text = .error failure)
    (final : failure.committed = true) : (p.orElse q) text = .error failure := by
  simp [Parser.orElse, h, final]

theorem Declines.orElse (hp : p.Declines text) (hq : q.Declines text) :
    (p.orElse q).Declines text := by
  obtain ⟨failure, hq, soft⟩ := hq
  exact ⟨failure, by rw [hp.orElse_eq, hq], soft⟩

/-- An optional reading takes what it can, and nothing where it declines. -/
theorem optional_eq_ok {result : Option α} :
    p.optional text = .ok (result, rest) ↔
      (∃ a, result = some a ∧ p text = .ok (a, rest)) ∨
        (result = none ∧ rest = text ∧ p.Declines text) := by
  unfold optional Declines
  cases hp : p text with
  | ok read =>
    obtain ⟨b, mid⟩ := read
    simp only [Except.ok.injEq, Prod.mk.injEq, reduceCtorEq, false_and, exists_false, and_false,
      or_false]
    constructor
    · rintro ⟨rfl, rfl⟩
      exact ⟨b, rfl, rfl, rfl⟩
    · rintro ⟨c, rfl, rfl, rfl⟩
      exact ⟨rfl, rfl⟩
  | error failure =>
    by_cases hc : failure.committed = true
    · simp [hc]
    · show (if failure.committed = true then Except.error failure else .ok (none, text)) = _ ↔ _
      rw [if_neg hc, Except.ok.injEq, Prod.mk.injEq]
      constructor
      · rintro ⟨rfl, rfl⟩
        exact .inr ⟨rfl, rfl, failure, rfl, by simpa using hc⟩
      · rintro (⟨_, _, failed⟩ | ⟨rfl, rfl, _⟩)
        · cases failed
        · exact ⟨rfl, rfl⟩

theorem optional_of_ok (h : p text = .ok (a, rest)) : p.optional text = .ok (some a, rest) :=
  optional_eq_ok.mpr (.inl ⟨a, rfl, h⟩)

theorem Declines.optional (h : p.Declines text) : p.optional text = .ok (none, text) :=
  optional_eq_ok.mpr (.inr ⟨rfl, rfl, h⟩)

theorem optional_of_final {failure : Failure} (h : p text = .error failure)
    (final : failure.committed = true) : p.optional text = .error failure := by
  simp [Parser.optional, h, final]

/-! ### Readings that say more about their failures -/

theorem commit_eq_ok : (commit p) text = .ok (a, rest) ↔ p text = .ok (a, rest) := by
  unfold commit
  cases p text <;> simp

theorem expecting_eq_ok {what : Expectation} :
    (p.expecting what) text = .ok (a, rest) ↔ p text = .ok (a, rest) := by
  unfold expecting
  cases p text <;> simp

theorem required_eq_ok {what : Requirement} :
    (required what p) text = .ok (a, rest) ↔ p text = .ok (a, rest) :=
  expecting_eq_ok.trans commit_eq_ok

theorem commit_of_error {failure : Failure} (h : p text = .error failure) :
    commit p text = .error { failure with committed := true } := by
  rw [commit, h]

theorem expecting_of_error {what : Expectation} {failure : Failure} (h : p text = .error failure) :
    p.expecting what text = .error { failure with expected := failure.expected <|> some what } := by
  rw [Parser.expecting, h]

/-- Saying what was needed does not commit a reader. -/
theorem Declines.expecting {what : Expectation} (h : p.Declines text) :
    (p.expecting what).Declines text := by
  obtain ⟨failure, hp, soft⟩ := h
  exact ⟨_, expecting_of_error hp, soft⟩

/-! ### Characters -/

theorem satisfying_eq_ok {accepts : Char → Bool} {c : Char} :
    satisfying accepts text = .ok (c, rest) ↔ text = c :: rest ∧ accepts c = true := by
  unfold satisfying
  cases text with
  | nil => simp
  | cons d text =>
    show (if accepts d = true then Except.ok (d, text) else _) = _ ↔ _
    by_cases h : accepts d = true
    · rw [if_pos h, Except.ok.injEq, Prod.mk.injEq, List.cons.injEq]
      constructor
      · rintro ⟨rfl, rfl⟩
        exact ⟨⟨rfl, rfl⟩, h⟩
      · rintro ⟨same, _⟩
        exact same
    · rw [if_neg h]
      constructor
      · intro failed
        cases failed
      · rintro ⟨same, accepted⟩
        rw [List.cons.injEq] at same
        rw [same.1] at h
        exact absurd accepted h

theorem char_eq_ok {c d : Char} : char c text = .ok (d, rest) ↔ text = c :: rest ∧ d = c := by
  rw [char, satisfying_eq_ok]
  constructor
  · rintro ⟨rfl, h⟩
    have : d = c := of_decide_eq_true h
    exact ⟨by rw [this], this⟩
  · rintro ⟨rfl, rfl⟩
    exact ⟨rfl, decide_eq_true rfl⟩

theorem satisfying_declines {accepts : Char → Bool} (h : Ahead (accepts · = false) text) :
    (satisfying accepts).Declines text := by
  cases text with
  | nil => exact ⟨_, rfl, rfl⟩
  | cons c text =>
    have hc : accepts c = false := by simpa using h
    exact ⟨⟨c :: text, none, false⟩, by simp [satisfying, hc], rfl⟩

theorem char_declines {c : Char} (h : Ahead (· ≠ c) text) : (char c).Declines text :=
  satisfying_declines (h.imp fun _ hd => decide_eq_false hd)

/-- A run is not empty, and it ends where it cannot go on. -/
theorem run_eq_ok {accepts : Char → Bool} {written : List Char} :
    run accepts text = .ok (written, rest) ↔
      written ≠ [] ∧ text = written ++ rest ∧ (∀ c ∈ written, accepts c = true) ∧
        Ahead (accepts · = false) rest := by
  unfold run
  constructor
  · intro h
    by_cases empty : (text.takeWhile accepts).isEmpty = true
    · rw [if_pos empty] at h
      cases h
    · rw [if_neg empty] at h
      cases h
      refine ⟨by simpa using empty, List.takeWhile_append_dropWhile.symm, ?_,
        ahead_dropWhile accepts text⟩
      intro c hc
      exact List.mem_takeWhile_imp hc
  · rintro ⟨nonempty, rfl, all, ends⟩
    rw [takeWhile_append_of_ahead all ends, dropWhile_append_of_ahead all ends]
    simp [nonempty]

theorem run_declines {accepts : Char → Bool} (h : Ahead (accepts · = false) text) :
    (run accepts).Declines text := by
  have empty : text.takeWhile accepts = [] := by
    exact takeWhile_append_of_ahead (List.forall_mem_nil _) h
  exact ⟨⟨text, none, false⟩, by simp [run, empty], rfl⟩

/-- A bounded run ends where it cannot go on, or because it is full. -/
theorem runBetween_eq_ok {accepts : Char → Bool} {least most : Nat} {written : List Char} :
    runBetween least most accepts text = .ok (written, rest) ↔
      least ≤ written.length ∧ written.length ≤ most ∧ text = written ++ rest ∧
        (∀ c ∈ written, accepts c = true) ∧
        (written.length < most → Ahead (accepts · = false) rest) := by
  unfold runBetween
  constructor
  · intro h
    have begins : (text.take most).takeWhile accepts <+: text :=
      (List.takeWhile_prefix accepts).trans (List.take_prefix most text)
    have full := List.takeWhile_append_dropWhile (p := accepts) (l := text.take most)
    have accepted : ∀ c ∈ (text.take most).takeWhile accepts, accepts c = true :=
      fun c hc => List.mem_takeWhile_imp hc
    have next := ahead_dropWhile accepts (text.take most)
    generalize (text.take most).takeWhile accepts = taken at h begins full accepted
    generalize (text.take most).dropWhile accepts = left at full next
    by_cases short : taken.length < least
    · simp only [short, if_true, reduceCtorEq] at h
    · simp only [short, if_false, Except.ok.injEq, Prod.mk.injEq] at h
      obtain ⟨rfl, rfl⟩ := h
      have bound : taken.length ≤ most := by
        have total := congrArg List.length full
        rw [List.length_append, List.length_take] at total
        omega
      refine ⟨by omega, bound, (List.prefix_iff_eq_append.mp begins).symm, accepted,
        ?_⟩
      intro notFull
      -- The run is not full, so it ended at a character of the text.
      have tail : left = (text.drop taken.length).take (most - taken.length) := by
        rw [← List.drop_take, ← full, List.drop_left]
      rw [← ahead_take (show 0 < most - taken.length by omega), ← tail]
      exact next
  · rintro ⟨low, high, rfl, all, ends⟩
    have taken : ((written ++ rest).take most).takeWhile accepts = written := by
      rw [List.take_append, List.take_of_length_le high]
      refine takeWhile_append_of_ahead all ?_
      by_cases notFull : written.length < most
      · exact (ahead_take (by omega)).mpr (ends notFull)
      · rw [show most - written.length = 0 by omega]
        exact ahead_nil _
    have notShort : ¬written.length < least := by omega
    simp only [taken, notShort, if_false, List.drop_left]

theorem runBetween_declines {accepts : Char → Bool} {least most : Nat} (positive : 0 < least)
    (h : Ahead (accepts · = false) text) : (runBetween least most accepts).Declines text := by
  have empty : (text.take most).takeWhile accepts = [] := by
    cases text with
    | nil => simp
    | cons c text =>
      have hc : accepts c = false := by simpa using h
      cases most with
      | zero => simp
      | succ most => simp [hc]
  exact ⟨⟨text, none, false⟩, by simp [runBetween, empty, positive], rfl⟩

theorem notBefore_eq_ok {accepts : Char → Bool} :
    notBefore accepts text = .ok ((), rest) ↔ rest = text ∧ Ahead (accepts · = false) text := by
  unfold notBefore
  cases text with
  | nil =>
    show Except.ok ((), ([] : List Char)) = _ ↔ _
    simp only [Except.ok.injEq, Prod.mk.injEq, true_and, ahead_nil, and_true]
    exact eq_comm
  | cons c text =>
    show (if accepts c = true then _ else Except.ok ((), c :: text)) = _ ↔ _
    rw [ahead_cons]
    by_cases h : accepts c = true
    · rw [if_pos h]
      simp [h]
    · rw [if_neg h, Except.ok.injEq, Prod.mk.injEq, and_iff_right rfl, eq_comm]
      simp [h]

/-! ### Whole texts -/

theorem complete_eq_ok : p.complete text = .ok a ↔ p text = .ok (a, []) := by
  unfold complete
  rcases p text with failure | ⟨b, rest⟩
  · simp
  · cases rest <;> simp

end Parser

end ForumModeration
