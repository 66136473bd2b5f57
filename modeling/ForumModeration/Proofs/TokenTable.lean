import Mathlib
import ForumModeration.TokenTable.Basic

/-!
# `ForumModeration.Proofs.TokenTable`: what a synonym changes in a table

A synonym is one token more in the entries of a table, and its lexicon is put in order anew.
All the same the lexicon only gains the new token, and the others stay in their order
(`lexicon_withSynonym`). The token that is written for a symbol is the first of its first
entry, and a synonym goes to the end of that (`primary_withSynonym`).
-/

set_option autoImplicit false

namespace ForumModeration

/-! ### One element more -/

/-- The second list is the first one with `x` put in somewhere. -/
def OneMore {α : Type} (x : α) (fewer more : List α) : Prop :=
  ∃ front back, fewer = front ++ back ∧ more = front ++ x :: back

namespace OneMore

variable {α β : Type} {x : α} {fewer more : List α}

theorem prepend (h : OneMore x fewer more) (others : List α) :
    OneMore x (others ++ fewer) (others ++ more) := by
  obtain ⟨front, back, rfl, rfl⟩ := h
  exact ⟨others ++ front, back, by rw [List.append_assoc], by rw [List.append_assoc]⟩

theorem append (h : OneMore x fewer more) (others : List α) :
    OneMore x (fewer ++ others) (more ++ others) := by
  obtain ⟨front, back, rfl, rfl⟩ := h
  exact ⟨front, back ++ others, by rw [List.append_assoc], by rw [List.append_assoc]; rfl⟩

theorem filter (h : OneMore x fewer more) {keep : α → Bool} (kept : keep x = true) :
    OneMore x (fewer.filter keep) (more.filter keep) := by
  obtain ⟨front, back, rfl, rfl⟩ := h
  refine ⟨front.filter keep, back.filter keep, List.filter_append .., ?_⟩
  rw [List.filter_append, List.filter_cons_of_pos kept]

theorem mem_iff (h : OneMore x fewer more) {y : α} : y ∈ more ↔ y ∈ fewer ∨ y = x := by
  obtain ⟨front, back, rfl, rfl⟩ := h
  rw [List.mem_append, List.mem_cons, List.mem_append, or_assoc, or_comm (a := y = x)]

/-- Where the new element is not found, what is found stays the same. -/
theorem findSome?_eq (h : OneMore x fewer more) {f : α → Option β} (missing : f x = none) :
    more.findSome? f = fewer.findSome? f := by
  obtain ⟨front, back, rfl, rfl⟩ := h
  rw [List.findSome?_append, List.findSome?_append, List.findSome?_cons, missing]

end OneMore

namespace TokenTable

variable {x : List Char × Symbol} {fewer more : List (List Char × Symbol)}

/-! ### The order of the lexicon -/

/-- A token goes to the same place whether or not another one is there, as long as the
tokens are in order. -/
theorem insertToken_oneMore (h : OneMore x fewer more)
    (sorted : more.Pairwise fun a b => b.1.length ≤ a.1.length) (token : List Char × Symbol) :
    OneMore x (insertToken token fewer) (insertToken token more) := by
  obtain ⟨front, back, rfl, rfl⟩ := h
  induction front with
  | nil =>
    rw [List.nil_append, List.nil_append] at *
    by_cases shorter : x.1.length ≤ token.1.length
    · -- What stands behind the new token is no longer than it, so the token goes in front of both.
      have first : insertToken token back = token :: back := by
        cases back with
        | nil => rfl
        | cons other rest =>
          have less := (List.pairwise_cons.mp sorted).1 other List.mem_cons_self
          rw [insertToken, if_pos (Nat.le_trans less shorter)]
      rw [first, insertToken, if_pos shorter]
      exact ⟨[token], back, rfl, rfl⟩
    · rw [insertToken.eq_2, if_neg shorter]
      exact ⟨[], insertToken token back, rfl, rfl⟩
  | cons other front ih =>
    rw [List.cons_append, List.cons_append, insertToken, insertToken]
    by_cases shorter : other.1.length ≤ token.1.length
    · rw [if_pos shorter, if_pos shorter]
      exact ⟨token :: other :: front, back, rfl, rfl⟩
    · rw [if_neg shorter, if_neg shorter]
      exact (ih (List.pairwise_cons.mp sorted).2).prepend [other]

/-- A token is put in somewhere. -/
private theorem oneMore_inserted (token : List Char × Symbol)
    (tokens : List (List Char × Symbol)) : OneMore token tokens (insertToken token tokens) := by
  induction tokens with
  | nil => exact ⟨[], [], rfl, rfl⟩
  | cons other rest ih =>
    rw [insertToken]
    by_cases shorter : other.1.length ≤ token.1.length
    · rw [if_pos shorter]
      exact ⟨[], other :: rest, rfl, rfl⟩
    · rw [if_neg shorter]
      exact ih.prepend [other]

theorem longestFirst_oneMore (h : OneMore x fewer more) :
    OneMore x (longestFirst fewer) (longestFirst more) := by
  obtain ⟨front, back, rfl, rfl⟩ := h
  induction front with
  | nil => exact oneMore_inserted x (longestFirst back)
  | cons token front ih => exact insertToken_oneMore ih (longestFirst_sorted _) token

/-! ### Synonyms -/

variable {symbol : Symbol} {token : String}

/-- A synonym is one token more. -/
theorem tokens_withSynonym (table : TokenTable) (symbol : Symbol) (token : String) :
    OneMore (token.toList, symbol) table.tokens (table.withSynonym symbol token).tokens := by
  unfold tokens withSynonym
  induction table.entries with
  | nil => exact ⟨[], [], rfl, rfl⟩
  | cons entry rest ih =>
    obtain ⟨named, listed⟩ := entry
    rw [addToken]
    by_cases same : named = symbol
    · rw [if_pos same]
      simp only [List.flatMap_cons, List.map_append, List.map_cons, List.map_nil]
      rw [same]
      exact OneMore.append ⟨_, [], (List.append_nil _).symm, rfl⟩ _
    · rw [if_neg same]
      exact ih.prepend _

/-- A synonym that is not empty is one token more in the lexicon, and nothing else changes
there. -/
theorem lexicon_withSynonym (table : TokenTable) (symbol : Symbol) (nonempty : token.toList ≠ []) :
    OneMore (token.toList, symbol) table.lexicon (table.withSynonym symbol token).lexicon := by
  refine longestFirst_oneMore ((tokens_withSynonym table symbol token).filter ?_)
  simpa using nonempty

/-- The first entry of the symbol takes the synonym at its end. If there is no entry, one is
made. -/
theorem find?_addToken (symbol : Symbol) (token : String) (entries : List (Symbol × List String)) :
    (addToken symbol token entries).find? (·.1 = symbol)
      = some (symbol, (entries.find? (·.1 = symbol)).elim [] Prod.snd ++ [token]) := by
  induction entries with
  | nil =>
    rw [addToken, List.find?_cons_of_pos (by simp)]
    rfl
  | cons head rest ih =>
    rw [addToken]
    by_cases same : head.1 = symbol
    · rw [if_pos same, List.find?_cons_of_pos (by simpa using same),
        List.find?_cons_of_pos (by simpa using same), same]
      rfl
    · rw [if_neg same, List.find?_cons_of_neg (by simpa using same),
        List.find?_cons_of_neg (by simpa using same), ih]

/-- The entries of other symbols are as they were. -/
theorem find?_addToken_of_ne {other : Symbol} (differs : other ≠ symbol)
    (entries : List (Symbol × List String)) :
    (addToken symbol token entries).find? (·.1 = other) = entries.find? (·.1 = other) := by
  induction entries with
  | nil =>
    rw [addToken, List.find?_cons_of_neg]
    simpa using differs.symm
  | cons head rest ih =>
    rw [addToken]
    by_cases same : head.1 = symbol
    · have ne : head.1 ≠ other := fun h => differs (h.symm.trans same)
      rw [if_pos same, List.find?_cons_of_neg (by simpa using ne),
        List.find?_cons_of_neg (by simpa using ne)]
    · rw [if_neg same, List.find?_cons, List.find?_cons, ih]

/-- Where the first entry of a symbol has a token, a synonym does not take its place. -/
theorem primary_withSynonym {table : TokenTable} {tokens : List String}
    (first : table.alternatives symbol = .ok tokens) (nonempty : tokens ≠ []) (other : Symbol) :
    (table.withSynonym symbol token).primary other = table.primary other := by
  obtain ⟨written, more, rfl⟩ := List.exists_cons_of_ne_nil nonempty
  by_cases same : other = symbol
  · subst same
    have before : table.primary other = .ok written := by
      rw [primary, first]
      rfl
    rw [before]
    unfold alternatives at first
    cases found : table.entries.find? (·.1 = other) with
    | none =>
      rw [found] at first
      cases first
    | some entry =>
      rw [found] at first
      have listed : entry.2 = written :: more := Except.ok.inj first
      have after : (table.withSynonym other token).alternatives other
          = .ok (written :: (more ++ [token])) := by
        rw [alternatives, withSynonym, find?_addToken, found, Option.elim_some, listed]
        rfl
      rw [primary, after]
      rfl
  · have alike :
        (table.withSynonym symbol token).alternatives other = table.alternatives other := by
      rw [alternatives, alternatives, withSynonym, find?_addToken_of_ne same]
    rw [primary, primary, alike]
    rfl

end TokenTable

end ForumModeration
