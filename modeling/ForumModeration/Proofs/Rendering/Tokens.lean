import ForumModeration.Proofs.Grammar.Completeness
import ForumModeration.Rendering

/-!
# `ForumModeration.Proofs.Rendering.Tokens`: tokens that are written are read

A renderer writes one token for each symbol (`TokenTable.Written`). Where such a token
stands, the grammar of the same table picks it, whatever comes before it in the way of
blanks, if what comes after is not taken for more of it (`Written.pick`).

What comes after depends on the language. The compact language writes a space after
fields, operators and connectives, and a space ends every token. The Chinese language
writes its tokens back to back. There operators and connectives have no identifier
characters at their ends (`TokenTable.joins`), so a field that ends in one is ended by
the operator after it (`Renderer.ahead_middle`).
-/

set_option autoImplicit false

namespace ForumModeration

open Text ForumModeration.Grammar

namespace TokenTable.Written

variable {α : Type} {table : TokenTable} {symbol : Symbol} {token rest blanks : List Char}
  {now : Instant}

/-- A token is listed in the table, so it stands where it is written. -/
theorem stands (h : table.Written symbol token) (boundary : RespectsBoundary token rest) :
    table.Token symbol (token ++ rest) rest :=
  ⟨[], token, token, rfl, by simp, mem_lexicon_iff.mp h.mem, rfl, boundary⟩

/-- The token that is written is picked by every reader that wants its symbol. -/
theorem pick (legible : table.Legible) (h : table.Written symbol token)
    {wanted : Symbol → Option α} {a : α} (want : wanted symbol = some a)
    (kind : ∀ t, (wanted t).isSome = true → symbol.alike t = true)
    (blank : ∀ c ∈ blanks, isBlank c = true) (boundary : RespectsBoundary token rest)
    (ahead : Ahead (fun c => c.toLower ∉ symbol.further) rest) :
    (ofTable table now).pick wanted (blanks ++ (token ++ rest)) = .ok (a, rest) :=
  pick_behind_blanks rfl legible want kind h.mem h.settled blank boundary ahead

/-- A single symbol is read. -/
theorem pick_exactly (legible : table.Legible) (h : table.Written symbol token)
    (plain : symbol.further = []) (blank : ∀ c ∈ blanks, isBlank c = true)
    (boundary : RespectsBoundary token rest) :
    (ofTable table now).symbol symbol (blanks ++ (token ++ rest)) = .ok ((), rest) := by
  rw [symbol_eq]
  refine h.pick legible (by simp [exactly]) ?_ blank boundary ?_
  · intro t want
    rw [eq_of_exactly want]
    exact alike_self symbol
  · rw [plain]
    exact fun _ _ => List.not_mem_nil

/-- A connective is read where connectives of its class are wanted. -/
theorem pick_connective (legible : table.Legible) {c : Connective}
    (h : table.Written (.connective c) token) {accepts : Connective → Bool}
    (accepted : accepts c = true)
    (tier : ∀ d, accepts d = true → (Symbol.connective c).alike (.connective d) = true)
    (blank : ∀ c ∈ blanks, isBlank c = true) (boundary : RespectsBoundary token rest) :
    (ofTable table now).connective accepts (blanks ++ (token ++ rest)) = .ok (c, rest) := by
  rw [connective_eq]
  refine h.pick legible (by simp [connectiveOf, accepted]) ?_ blank boundary ?_
  · intro t want
    obtain ⟨d, rfl, accepted'⟩ := accepts_of_connectiveOf want
    exact tier d accepted'
  · exact fun _ _ => List.not_mem_nil

/-- No token starts with a point. -/
theorem ahead_point (legible : table.Legible) (h : table.Written symbol token) :
    Ahead (· ≠ '.') (token ++ rest) := by
  obtain ⟨c, tail, rfl, _, plain, _⟩ := legible.first h.mem
  exact ahead_cons.mpr (ne_of_startsNoToken plain (by decide))

/-- What starts a value does not go on with an operator. -/
theorem ahead_further (legible : table.Legible) (h : table.Written symbol token)
    (starts : symbol.startsValue = true) :
    Ahead (fun c => c.toLower ∉ ['=', '等']) (token ++ rest) := by
  obtain ⟨c, tail, rfl, _, _, _, noFurther⟩ := legible.first h.mem
  exact ahead_cons.mpr (noFurther starts)

/-- A token that joins others starts with no identifier character. -/
theorem ahead_ident (h : table.Written symbol token) (joins : table.joins symbol = true) :
    Ahead (isIdent · = false) (token ++ rest) := by
  have first := (h.joined joins).1
  cases token with
  | nil => exact absurd rfl (mem_lexicon_iff.mp h.mem).1
  | cons c token =>
    rw [List.head?_cons, Option.any_some] at first
    exact ahead_cons.mpr first

/-- A token that joins others may be followed by anything. -/
theorem boundary (h : table.Written symbol token) (joins : table.joins symbol = true) :
    RespectsBoundary token rest := by
  intro ends
  rw [(h.joined joins).2] at ends
  cases ends

/-- A sign that is written stands there, whatever comes after it. -/
theorem sign_stands {p : Punctuation} (h : table.Written (.punctuation p) token)
    (rest : List Char) : table.Token (.punctuation p) (token ++ rest) rest :=
  h.stands (h.boundary rfl)

/-- A sign that is written is read, whatever comes after it. -/
theorem sign_read (legible : table.Legible) {p : Punctuation}
    (h : table.Written (.punctuation p) token) (rest : List Char) :
    (ofTable table now).sign p (token ++ rest) = .ok ((), rest) :=
  h.pick_exactly legible rfl (fun _ mem => absurd mem List.not_mem_nil) (h.boundary rfl)

end TokenTable.Written

namespace Renderer

variable {r : Renderer} {symbol : Symbol} {token rest : List Char}

/-- What is written for a symbol. -/
theorem token_eq (h : r.table.Written symbol token) : r.token symbol = .ok token := by
  obtain ⟨spelling, primary, rfl⟩ := h.primary
  unfold Renderer.token
  rw [primary]

/-- What stands between tokens is blank. -/
theorem blank_space (r : Renderer) : ∀ c ∈ r.space, isBlank c = true := by
  intro c mem
  unfold space at mem
  split at mem
  · rw [List.mem_singleton.mp mem]
    decide
  · cases mem

/-- An operator or a connective. -/
def isMiddle : Symbol → Bool
  | .operator _ | .connective _ => true
  | _ => false

/-- Where no spaces are written, operators and connectives join other tokens. -/
theorem joins_of_isMiddle {table : TokenTable} (middle : isMiddle symbol = true)
    (unspaced : table.spaced = false) : table.joins symbol = true := by
  cases symbol with
  | operator o => simp [TokenTable.joins, unspaced]
  | connective c => simp [TokenTable.joins, unspaced]
  | _ => cases middle

/-- An operator or a connective with a space in front of it, where one is written, does
not go on with the token before it. -/
theorem ahead_middle (legible : r.table.Legible) (h : r.table.Written symbol token)
    (middle : isMiddle symbol = true) :
    Ahead (fun c => isIdent c = false ∧ c ≠ '.') (r.space ++ (token ++ rest)) := by
  unfold space
  -- Either a space comes first, or the token itself, which joins what is before it.
  split
  · exact ahead_cons.mpr (by decide)
  · rename_i unspaced
    rw [List.nil_append]
    have ident : Ahead (isIdent · = false) (token ++ rest) :=
      h.ahead_ident (joins_of_isMiddle middle (by simpa using unspaced))
    exact fun c first => ⟨ident c first, h.ahead_point legible c first⟩

/-- An operator or a connective does not go on with what comes after the space behind
it, where one is written. -/
theorem boundary_middle (h : r.table.Written symbol token) (middle : isMiddle symbol = true) :
    RespectsBoundary token (r.space ++ rest) := by
  unfold space
  split
  · exact fun _ => ahead_cons.mpr (by decide)
  · rename_i unspaced
    exact h.boundary (joins_of_isMiddle middle (by simpa using unspaced))

end Renderer

end ForumModeration
