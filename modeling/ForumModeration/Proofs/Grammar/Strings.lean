import ForumModeration.Proofs.Grammar.Soundness
import ForumModeration.Proofs.Grammar.Values

/-!
# `ForumModeration.Proofs.Grammar.Strings`: where a string ends

A string ends at the first quote of its kind that no backslash takes. Backslashes take
the character behind them, whichever it is, and pair up from the left, so a character is
taken exactly if an odd number of backslashes stands in front of it (`Escapes`).

* `quotedBody_iff`: what stands between the quotes of a string, by that count.
* `quoted_contained`: a string that was written between quotes is read back with any text
  behind it, and whatever is read as a string ends where it should.
-/

set_option autoImplicit false

namespace ForumModeration

open Text

namespace Text.Quoted

/-! ### Characters that a backslash takes -/

/-- The character behind `front` is the second one of a pair that a backslash opens. -/
def Escapes (front : List Char) : Prop :=
  (front.reverse.takeWhile (· = '\\')).length % 2 = 1

/-- The mark behind `body` is the first one that no backslash takes. -/
def ClosedBehind (mark : Char) (body : List Char) : Prop :=
  ¬Escapes body ∧ ∀ front back, body = front ++ mark :: back → Escapes front

theorem not_escapes_nil : ¬Escapes [] := by
  show ¬0 % 2 = 1
  decide

theorem escapes_backslash : Escapes ['\\'] := by
  show 1 % 2 = 1
  decide

/-- One character more in front lengthens the backslashes at the end only if there is nothing
else. -/
private theorem length_backslashes_cons (c : Char) (front : List Char) :
    ((c :: front).reverse.takeWhile (· = '\\')).length
      = if (front.reverse.takeWhile (· = '\\')).length = front.length
        then front.length + (if c = '\\' then 1 else 0)
        else (front.reverse.takeWhile (· = '\\')).length := by
  rw [List.reverse_cons, List.takeWhile_append, List.length_reverse]
  by_cases all : (front.reverse.takeWhile (· = '\\')).length = front.length
  · rw [if_pos all, if_pos all, List.length_append, List.length_reverse]
    by_cases backslash : c = '\\' <;> simp [backslash]
  · rw [if_neg all, if_neg all]

theorem escapes_cons {c : Char} (plain : c ≠ '\\') (front : List Char) :
    Escapes (c :: front) ↔ Escapes front := by
  unfold Escapes
  rw [length_backslashes_cons, if_neg plain]
  split <;> omega

/-- A pair in front does not matter. -/
theorem escapes_pair (c : Char) (front : List Char) :
    Escapes ('\\' :: c :: front) ↔ Escapes front := by
  unfold Escapes
  have short := (List.takeWhile_prefix (· = '\\') (l := front.reverse)).length_le
  rw [List.length_reverse] at short
  rw [length_backslashes_cons, length_backslashes_cons, if_pos rfl, List.length_cons]
  by_cases all : (front.reverse.takeWhile (· = '\\')).length = front.length
  · rw [if_pos all]
    by_cases backslash : c = '\\'
    · rw [if_pos backslash, if_pos rfl]
      omega
    · rw [if_neg backslash, if_neg (by omega)]
      omega
  · rw [if_neg all]
    split <;> omega

/-- Some mark that is not taken is the first of its kind. -/
theorem exists_closedBehind {mark : Char} (body : List Char) (free : ¬Escapes body)
    (rest : List Char) :
    ∃ first behind, body ++ mark :: rest = first ++ mark :: behind ∧ ClosedBehind mark first := by
  -- By induction on the length: a mark further in front takes the place of this one.
  induction length : body.length using Nat.strong_induction_on generalizing body rest with
  | _ n ih =>
    by_cases closed : ClosedBehind mark body
    · exact ⟨body, rest, rfl, closed⟩
    · obtain ⟨front, back, split, free'⟩ :
          ∃ front back, body = front ++ mark :: back ∧ ¬Escapes front := by
        by_contra none
        refine closed ⟨free, fun front back split => ?_⟩
        by_contra free'
        exact none ⟨front, back, split, free'⟩
      have shorter : front.length < n := by
        rw [← length, split, List.length_append, List.length_cons]
        omega
      obtain ⟨first, behind, same, closed'⟩ :=
        ih front.length shorter front free' (back ++ mark :: rest) rfl
      refine ⟨first, behind, ?_, closed'⟩
      rw [split, List.append_assoc, List.cons_append, same]

end Text.Quoted

open Text.Quoted

/-! ### The body of a string -/

variable {mark : Char} {body string : List Char}

/-- The quote behind a body is the first that closes it. -/
theorem QuotedBody.closedBehind (noEscape : mark ≠ '\\') (h : QuotedBody mark body string) :
    ClosedBehind mark body := by
  induction h with
  | nil =>
    refine ⟨not_escapes_nil, fun front back split => ?_⟩
    cases front <;> cases split
  | escape c _ ih =>
    refine ⟨mt (escapes_pair c _).mp ih.1, fun front back split => ?_⟩
    -- The mark is the backslash, the character it takes, or it stands further behind.
    match front with
    | [] => exact absurd (List.cons.inj split).1.symm noEscape
    | [d] =>
      rw [← (List.cons.inj split).1]
      exact escapes_backslash
    | d :: e :: front =>
      obtain ⟨first, split⟩ := List.cons.inj split
      rw [← first]
      exact (escapes_pair e front).mpr (ih.2 front back (List.cons.inj split).2)
  | plain noMark plain _ ih =>
    refine ⟨mt (escapes_cons plain _).mp ih.1, fun front back split => ?_⟩
    cases front with
    | nil => exact absurd (List.cons.inj split).1 noMark
    | cons d front =>
      obtain ⟨first, split⟩ := List.cons.inj split
      rw [← first]
      exact (escapes_cons plain front).mpr (ih.2 front back split)

/-- What the first quote closes is the body of a string. -/
theorem exists_quotedBody : (body : List Char) → ClosedBehind mark body →
    ∃ string, QuotedBody mark body string
  | [], _ => ⟨[], .nil⟩
  | [c], ⟨free, first⟩ => by
    have noMark : c ≠ mark := fun same => not_escapes_nil (first [] [] (by rw [same]; rfl))
    have plain : c ≠ '\\' := by
      rintro rfl
      exact free escapes_backslash
    exact ⟨[c], .plain noMark plain .nil⟩
  | c :: d :: body, ⟨free, first⟩ => by
    have noMark : c ≠ mark := fun same => not_escapes_nil (first [] (d :: body) (by rw [same]; rfl))
    by_cases backslash : c = '\\'
    · subst backslash
      obtain ⟨string, inside⟩ := exists_quotedBody body
        ⟨mt (escapes_pair d body).mpr free, fun front back split =>
          (escapes_pair d front).mp (first ('\\' :: d :: front) back (by rw [split]; rfl))⟩
      exact ⟨_, .escape d inside⟩
    · obtain ⟨string, inside⟩ := exists_quotedBody (d :: body)
        ⟨mt (escapes_cons backslash _).mpr free, fun front back split =>
          (escapes_cons backslash front).mp (first (c :: front) back (by rw [split]; rfl))⟩
      exact ⟨_, .plain noMark backslash inside⟩

theorem quotedBody_iff (noEscape : mark ≠ '\\') :
    (∃ string, QuotedBody mark body string) ↔ ClosedBehind mark body :=
  ⟨fun ⟨_, inside⟩ => inside.closedBehind noEscape, exists_quotedBody body⟩

/-! ### Strings -/

namespace Grammar

open ForumModeration.Parser

variable {text rest : List Char}

private theorem ne_backslash (mark_ : mark = '\'' ∨ mark = '"') : mark ≠ '\\' := by
  rcases mark_ with rfl | rfl <;> decide

/-- A string is read up to the quote that closes its body. -/
theorem quoted_eq_ok : quoted text = .ok (string, rest) ↔
    ∃ mark body, (mark = '\'' ∨ mark = '"') ∧ text = mark :: (body ++ mark :: rest) ∧
      QuotedBody mark body string := by
  constructor
  · intro whole
    obtain ⟨mark, inside, opening, read⟩ := bind_eq_ok.mp whole
    obtain ⟨rfl, mark_⟩ := satisfying_eq_ok.mp opening
    split at read
    · rename_i found
      cases read
      obtain ⟨body, rfl, body_⟩ := quotedBody_of_readBody found
      exact ⟨mark, body, by simpa using mark_, rfl, body_⟩
    · cases read
  · rintro ⟨mark, body, mark_, rfl, body_⟩
    refine bind_eq_ok.mpr
      ⟨mark, body ++ mark :: rest, satisfying_eq_ok.mpr ⟨rfl, by simpa using mark_⟩, ?_⟩
    simp only [readBody_of_quotedBody (ne_backslash mark_) body_]

/-- Quoting contains a string. What is written between quotes is read back as it was, and what
stands behind it is left, whatever that is. A text starts with a string exactly if it starts
with a quote and has another one of its kind later on that no backslash takes; the string
ends behind the first of these. -/
theorem quoted_contained :
    (∀ string rest, quoted (Quoted.encode string ++ rest) = .ok (string, rest)) ∧
      (∀ text, (∃ string rest, quoted text = .ok (string, rest)) ↔
        ∃ mark body rest, (mark = '\'' ∨ mark = '"') ∧ text = mark :: (body ++ mark :: rest) ∧
          ¬Escapes body) ∧
      ∀ text rest, (∃ string, quoted text = .ok (string, rest)) ↔
        ∃ mark body, (mark = '\'' ∨ mark = '"') ∧ text = mark :: (body ++ mark :: rest) ∧
          ClosedBehind mark body := by
  have ends : ∀ text rest, (∃ string, quoted text = .ok (string, rest)) ↔
      ∃ mark body, (mark = '\'' ∨ mark = '"') ∧ text = mark :: (body ++ mark :: rest) ∧
        ClosedBehind mark body := by
    intro text rest
    constructor
    · rintro ⟨string, read⟩
      obtain ⟨mark, body, mark_, split, body_⟩ := quoted_eq_ok.mp read
      exact ⟨mark, body, mark_, split, (quotedBody_iff (ne_backslash mark_)).mp ⟨string, body_⟩⟩
    · rintro ⟨mark, body, mark_, split, closed⟩
      obtain ⟨string, body_⟩ := (quotedBody_iff (ne_backslash mark_)).mpr closed
      exact ⟨string, quoted_eq_ok.mpr ⟨mark, body, mark_, split, body_⟩⟩
  refine ⟨fun string rest => ?_, fun text => ⟨?_, ?_⟩, ends⟩
  · obtain ⟨body, split, body_⟩ := quotedBody_of_readBody (readBody_encode string rest)
    refine quoted_eq_ok.mpr ⟨'\'', body, .inl rfl, ?_, body_⟩
    rw [← split, Quoted.encode, List.cons_append, List.cons_append, List.append_assoc]
    rfl
  · rintro ⟨string, rest, read⟩
    obtain ⟨mark, body, mark_, split, closed⟩ := (ends text rest).mp ⟨string, read⟩
    exact ⟨mark, body, rest, mark_, split, closed.1⟩
  · rintro ⟨mark, body, rest, mark_, rfl, free⟩
    obtain ⟨first, behind, split, closed⟩ := exists_closedBehind body free rest
    obtain ⟨string, read⟩ := (ends _ behind).mpr ⟨mark, first, mark_, rfl, closed⟩
    exact ⟨string, behind, by rw [split, read]⟩

end Grammar

end ForumModeration
