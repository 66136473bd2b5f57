import ForumModeration.Proofs.Grammar.Tokens
import ForumModeration.Proofs.TokenTable.Lookup

/-!
# `ForumModeration.Proofs.Grammar.LongestMatch`: which token is picked

Where several tokens stand at one place, the longest of them is read, and of equally long
ones the one that the table lists first. Reading goes through the lexicon, which has longer
tokens in front, and takes the first token that stands. So equally long tokens have to be in
the lexicon in the order of the table.

* `filter_longestFirst`: putting longer tokens in front keeps equally long ones in order.
* `exists_split_of_lexicon`: what the table lists in front of a token, and is as long, is in
  front of it in the lexicon.
* `pick_takes_longest`: when a token is picked, and which one.
-/

set_option autoImplicit false

namespace ForumModeration

open Text

namespace TokenTable

/-! ### The order of the lexicon -/

private theorem filter_insertToken (n : Nat) (token : List Char × Symbol)
    (tokens : List (List Char × Symbol)) :
    (insertToken token tokens).filter (·.1.length = n)
      = (token :: tokens).filter (·.1.length = n) := by
  induction tokens with
  | nil => rfl
  | cons other rest ih =>
    rw [insertToken]
    by_cases shorter : other.1.length ≤ token.1.length
    · rw [if_pos shorter]
    · -- The new token goes behind a longer one, so at most one of them has the length.
      rw [if_neg shorter, List.filter_cons, ih]
      by_cases same : other.1.length = n
      · have differs : ¬token.1.length = n := by omega
        simp [same, differs]
      · simp [List.filter_cons, same]

/-- Equally long tokens stay in their order. -/
theorem filter_longestFirst (n : Nat) (tokens : List (List Char × Symbol)) :
    (longestFirst tokens).filter (·.1.length = n) = tokens.filter (·.1.length = n) := by
  induction tokens with
  | nil => rfl
  | cons token rest ih =>
    show (insertToken token (longestFirst rest)).filter _ = _
    rw [filter_insertToken, List.filter_cons, ih, List.filter_cons]

/-- The tokens of an entry that are not empty, with the entry's symbol. -/
def entryTokens (entry : Symbol × List String) : List (List Char × Symbol) :=
  (entry.2.map fun token => (token.toList, entry.1)).filter fun token => !token.1.isEmpty

theorem mem_entryTokens {entry : Symbol × List String} {token : List Char} {symbol : Symbol} :
    (token, symbol) ∈ entryTokens entry ↔
      token ≠ [] ∧ entry.1 = symbol ∧ String.ofList token ∈ entry.2 := by
  unfold entryTokens
  rw [List.mem_filter, List.mem_map]
  constructor
  · rintro ⟨⟨spelling, listed, same⟩, nonempty⟩
    cases same
    exact ⟨by simpa using nonempty, rfl, by simpa using listed⟩
  · rintro ⟨nonempty, rfl, listed⟩
    exact ⟨⟨_, listed, by rw [String.toList_ofList]⟩, by simpa using nonempty⟩

/-- A place in what is made of entries one after another lies in one of them. -/
private theorem exists_entry_of_flatMap {entries : List (Symbol × List String)}
    {front back : List (List Char × Symbol)} {x : List Char × Symbol}
    (split : entries.flatMap entryTokens = front ++ x :: back) :
    ∃ before entry behind, entries = before ++ entry :: behind ∧ x ∈ entryTokens entry ∧
      ∀ other ∈ before, entryTokens other ⊆ front := by
  induction entries generalizing front with
  | nil => exact absurd split.symm (by simp)
  | cons first entries ih =>
    rw [List.flatMap_cons] at split
    -- The place is behind the first entry, or within it.
    rcases List.append_eq_append_iff.mp split with ⟨more, rfl, later⟩ | ⟨more, inside, later⟩
    · obtain ⟨before, entry, behind, rfl, mem, others⟩ := ih later
      refine ⟨first :: before, entry, behind, rfl, mem, List.forall_mem_cons.mpr ⟨?_, ?_⟩⟩
      · exact List.subset_append_left _ _
      · intro other hother
        exact List.subset_append_of_subset_right _ (others other hother)
    · cases more with
      | nil =>
        have later : entries.flatMap entryTokens = [] ++ x :: back := later.symm
        obtain ⟨before, entry, behind, rfl, mem, others⟩ := ih later
        refine ⟨first :: before, entry, behind, rfl, mem, List.forall_mem_cons.mpr ⟨?_, ?_⟩⟩
        · rw [inside, List.append_nil]
          exact List.Subset.refl _
        · intro other hother
          exact List.Subset.trans (others other hother) (List.nil_subset _)
      | cons y more =>
        obtain ⟨rfl, _⟩ := List.cons.inj later
        refine ⟨[], first, entries, rfl, ?_, fun _ none => absurd none List.not_mem_nil⟩
        rw [inside]
        exact List.mem_append_right _ List.mem_cons_self

/-- A token of the lexicon belongs to an entry such that tokens of the same length in earlier
entries are earlier in the lexicon. -/
theorem exists_split_of_lexicon {table : TokenTable} {front back : List (List Char × Symbol)}
    {x : List Char × Symbol} (split : table.lexicon = front ++ x :: back) :
    ∃ before entry behind, table.entries = before ++ entry :: behind ∧ x ∈ entryTokens entry ∧
      ∀ other ∈ before, ∀ y ∈ entryTokens other, y.1.length = x.1.length → y ∈ front := by
  have listed : table.tokens.filter (fun token => !token.1.isEmpty)
      = table.entries.flatMap entryTokens := List.filter_flatMap
  have order := filter_longestFirst x.1.length (table.entries.flatMap entryTokens)
  rw [← listed, ← lexicon, split, listed, List.filter_append,
    List.filter_cons_of_pos (by simp)] at order
  -- Among the tokens of the length of `x` the lexicon has the order of the entries.
  obtain ⟨early, late, whole, earlier, later⟩ := List.filter_eq_append_iff.mp order.symm
  obtain ⟨others, rest, rfl, longer, _, _⟩ := List.filter_eq_cons_iff.mp later
  rw [← List.append_assoc] at whole
  obtain ⟨before, entry, behind, split', mem, inFront⟩ := exists_entry_of_flatMap whole
  refine ⟨before, entry, behind, split', mem, fun other hother y hy same => ?_⟩
  rcases List.mem_append.mp (inFront other hother hy) with hy | hy
  · have kept : y ∈ early.filter (·.1.length = x.1.length) :=
      List.mem_filter.mpr ⟨hy, decide_eq_true same⟩
    rw [earlier] at kept
    exact (List.mem_filter.mp kept).1
  · exact absurd (decide_eq_true same) (longer y hy)

end TokenTable

/-! ### Picking -/

namespace Grammar

open ForumModeration.Parser

/-- An entry of a table offers a token at the start of a text: its symbol is wanted, and the
token is one of its own, is not empty, and stands there in any letter case. If it ends in an
identifier character, neither another one nor a point follows. -/
structure Offers {α : Type} (wanted : Symbol → Option α) (text : List Char)
    (entry : Symbol × List String) (token : String) (rest : List Char) : Prop where
  selected : (wanted entry.1).isSome = true
  listed : token ∈ entry.2
  nonempty : token ≠ ""
  stands : ∃ written, text = written ++ rest ∧ lower written = lower token.toList
  boundary : RespectsBoundary token.toList rest

variable {α : Type} {g : Grammar} {table : TokenTable} {wanted : Symbol → Option α}
  {text rest : List Char} {a : α} {entry : Symbol × List String} {token : String}

namespace Offers

theorem after (h : Offers wanted text entry token rest) :
    afterToken? token.toList text = some rest :=
  afterToken?_eq_some_iff.mpr ⟨h.stands, h.boundary⟩

theorem length_eq (h : Offers wanted text entry token rest) :
    text.length = token.length + rest.length := by
  rw [← String.length_toList]
  exact afterLetters?_length (Option.filter_eq_some_iff.mp h.after).1

theorem mem_entryTokens (h : Offers wanted text entry token rest) :
    (token.toList, entry.1) ∈ TokenTable.entryTokens entry :=
  TokenTable.mem_entryTokens.mpr ⟨mt String.toList_eq_nil_iff.mp h.nonempty, rfl,
    by rw [String.ofList_toList]; exact h.listed⟩

theorem mem_lexicon (h : Offers wanted text entry token rest) (mem : entry ∈ table.entries) :
    (token.toList, entry.1) ∈ table.lexicon :=
  TokenTable.mem_lexicon_iff.mpr ⟨mt String.toList_eq_nil_iff.mp h.nonempty, entry, mem, rfl,
    by rw [String.ofList_toList]; exact h.listed⟩

end Offers

/-- What is picked is the first entry of the lexicon that is wanted and stands there. -/
theorem exists_first_of_pick (h : g.pick wanted text = .ok (a, rest)) :
    ∃ front token symbol back, g.lexicon = front ++ (token, symbol) :: back ∧
      wanted symbol = some a ∧ afterToken? token (skipBlanks text) = some rest ∧
      ∀ other ∈ front, (wanted other.2).isSome = true →
        afterToken? other.1 (skipBlanks text) = none := by
  unfold pick at h
  dsimp only at h
  split at h
  · rename_i result found
    cases h
    obtain ⟨front, ⟨token, symbol⟩, back, split, read, first⟩ := List.findSome?_eq_some_iff.mp found
    obtain ⟨b, want, read⟩ := Option.bind_eq_some_iff.mp read
    obtain ⟨rest', after, same⟩ := Option.bind_eq_some_iff.mp read
    cases same
    refine ⟨front, token, symbol, back, split, want, after, fun other mem wanted' => ?_⟩
    obtain ⟨c, want'⟩ := Option.isSome_iff_exists.mp wanted'
    have none := first other mem
    rw [Option.eq_none_iff_forall_ne_some]
    intro rest' after'
    simp [want', after'] at none
  · cases h

/-- Something is picked exactly where something is offered. -/
theorem exists_pick_iff (hg : g.lexicon = table.lexicon) :
    (∃ a rest, g.pick wanted text = .ok (a, rest)) ↔
      ∃ entry ∈ table.entries, ∃ token rest, Offers wanted (skipBlanks text) entry token rest := by
  constructor
  · rintro ⟨a, rest, read⟩
    obtain ⟨token, symbol, mem, want, after⟩ := mem_of_pick read
    rw [hg] at mem
    obtain ⟨nonempty, entry, listed, rfl, spelled⟩ := TokenTable.mem_lexicon_iff.mp mem
    obtain ⟨stands, boundary⟩ := afterToken?_eq_some_iff.mp after
    exact ⟨entry, listed, String.ofList token, rest, by rw [want]; rfl, spelled,
      by simpa using nonempty, by rwa [String.toList_ofList], by rwa [String.toList_ofList]⟩
  · rintro ⟨entry, mem, token, rest, offers⟩
    obtain ⟨a, want⟩ := Option.isSome_iff_exists.mp offers.selected
    have inside : (token.toList, entry.1) ∈ g.lexicon := hg ▸ offers.mem_lexicon mem
    obtain ⟨b, rest', read⟩ := exists_pick inside want offers.after
    exact ⟨b, rest', read⟩

/-- The token that is picked is as long as any that is offered, and longer than those that
earlier entries offer. -/
theorem exists_longest_of_pick (hg : g.lexicon = table.lexicon)
    (read : g.pick wanted text = .ok (a, rest)) :
    ∃ before entry behind token, table.entries = before ++ entry :: behind ∧
      wanted entry.1 = some a ∧ Offers wanted (skipBlanks text) entry token rest ∧
      (∀ other ∈ table.entries, ∀ token' rest', Offers wanted (skipBlanks text) other token' rest' →
        token'.length ≤ token.length) ∧
      ∀ other ∈ before, ∀ token' rest', Offers wanted (skipBlanks text) other token' rest' →
        token'.length < token.length := by
  obtain ⟨front, token, symbol, back, split, want, after, first⟩ := exists_first_of_pick read
  rw [hg] at split
  obtain ⟨before, entry, behind, split', mem, earlier⟩ := TokenTable.exists_split_of_lexicon split
  obtain ⟨nonempty, rfl, listed⟩ := TokenTable.mem_entryTokens.mp mem
  obtain ⟨stands, boundary⟩ := afterToken?_eq_some_iff.mp after
  have offers : Offers wanted (skipBlanks text) entry (String.ofList token) rest :=
    ⟨by rw [want]; rfl, listed, by simpa using nonempty, by rwa [String.toList_ofList],
      by rwa [String.toList_ofList]⟩
  have longest : ∀ other ∈ table.entries, ∀ token' rest',
      Offers wanted (skipBlanks text) other token' rest' →
      token'.length ≤ (String.ofList token).length := by
    intro other hother token' rest' offers'
    have := pick_longest hg read (offers'.mem_lexicon hother) offers'.selected offers'.after
    have := offers.length_eq
    have := offers'.length_eq
    omega
  refine ⟨before, entry, behind, _, split', want, offers, longest, ?_⟩
  intro other hother token' rest' offers'
  have mem' : other ∈ table.entries := by
    rw [split']
    exact List.mem_append_left _ hother
  refine lt_of_le_of_ne (longest other mem' token' rest' offers') fun same => ?_
  -- A token of the same length would have been found first.
  have inFront : (token'.toList, other.1) ∈ front :=
    earlier other hother _ offers'.mem_entryTokens
      (by rw [String.length_toList, same, String.length_ofList])
  have missed : afterToken? token'.toList (skipBlanks text) = none :=
    first _ inFront offers'.selected
  rw [offers'.after] at missed
  cases missed

/-- The longest match. Behind the blanks, something is picked exactly if some wanted symbol has
a token there. What is picked is a longest such token, and of equally long ones the one that
comes first in the entries of the table, which may be any that is made of entries and of
synonyms added to them. -/
theorem pick_takes_longest {α : Type} (table : TokenTable) (synonyms : List (Symbol × String))
    (now : Instant) (wanted : Symbol → Option α) (text : List Char) :
    let g := ofTable (table.withSynonyms synonyms) now
    let entries := (table.withSynonyms synonyms).entries
    let start := skipBlanks text
    ((∃ a rest, g.pick wanted text = .ok (a, rest)) ↔
      ∃ entry ∈ entries, ∃ token rest, Offers wanted start entry token rest) ∧
      ∀ a rest, g.pick wanted text = .ok (a, rest) →
        ∃ before entry behind token, entries = before ++ entry :: behind ∧
          wanted entry.1 = some a ∧ Offers wanted start entry token rest ∧
          (∀ other ∈ entries, ∀ token' rest', Offers wanted start other token' rest' →
            token'.length ≤ token.length) ∧
          ∀ other ∈ before, ∀ token' rest', Offers wanted start other token' rest' →
            token'.length < token.length :=
  ⟨exists_pick_iff rfl, fun _ _ read => exists_longest_of_pick rfl read⟩

end Grammar

end ForumModeration
