import ForumModeration.Proofs.TokenTable

/-!
# `ForumModeration.Proofs.TokenTable.Lookup`: what a table lists and what it recognizes

The tokens of a symbol are looked up in its first entry, and the lexicon has the tokens of all
entries. A symbol that has several entries may therefore have tokens that are recognized and
not listed. Synonyms go to the first entry, so they are always both.

`listed_iff_recognized` says for all tables that are made of entries and synonyms where the
two agree. What is not recognized in any case is the empty token, which may still be listed
and even be the one that is written.
-/

set_option autoImplicit false

namespace ForumModeration.TokenTable

variable {table : TokenTable} {symbol other : Symbol} {token new : String}

/-- A table to which synonyms are added one after another. -/
def withSynonyms (table : TokenTable) (synonyms : List (Symbol × String)) : TokenTable :=
  synonyms.foldl (fun table synonym => table.withSynonym synonym.1 synonym.2) table

/-- A token is among those that are listed for a symbol. -/
def Lists (table : TokenTable) (symbol : Symbol) (token : String) : Prop :=
  ∃ tokens, table.alternatives symbol = .ok tokens ∧ token ∈ tokens

/-- A token is one of those that are tried when a symbol is read. -/
def Recognizes (table : TokenTable) (symbol : Symbol) (token : String) : Prop :=
  (token.toList, symbol) ∈ table.lexicon

/-- What is listed for a symbol is its first entry. -/
theorem lists_iff : table.Lists symbol token ↔
    token ∈ (table.entries.find? (·.1 = symbol)).elim [] Prod.snd := by
  unfold Lists alternatives
  cases table.entries.find? (·.1 = symbol) with
  | none => exact ⟨fun ⟨_, same, _⟩ => (nomatch same), fun mem => absurd mem List.not_mem_nil⟩
  | some entry => exact ⟨fun ⟨_, same, mem⟩ => by cases same; exact mem, fun mem => ⟨_, rfl, mem⟩⟩

/-- What is recognized are the tokens of all entries but the empty one. -/
theorem recognizes_iff : table.Recognizes symbol token ↔
    token ≠ "" ∧ ∃ entry ∈ table.entries, entry.1 = symbol ∧ token ∈ entry.2 := by
  rw [Recognizes, mem_lexicon_iff, String.ofList_toList, ne_eq, String.toList_eq_nil_iff]

theorem recognizes_iff_mem_tokens :
    table.Recognizes symbol token ↔ token ≠ "" ∧ (token.toList, symbol) ∈ table.tokens := by
  rw [Recognizes, lexicon, (longestFirst_perm _).mem_iff, List.mem_filter, and_comm]
  simp

/-- A token that is listed and not empty is recognized. -/
theorem Lists.recognizes (h : table.Lists symbol token) (nonempty : token ≠ "") :
    table.Recognizes symbol token := by
  rw [lists_iff] at h
  cases found : table.entries.find? (·.1 = symbol) with
  | none =>
    rw [found] at h
    exact absurd h List.not_mem_nil
  | some entry =>
    rw [found] at h
    exact recognizes_iff.mpr ⟨nonempty, entry, List.mem_of_find?_eq_some found,
      by simpa using List.find?_some found, h⟩

/-! ### Synonyms -/

/-- A synonym is listed, and nothing else that was not. -/
theorem lists_withSynonym : (table.withSynonym other new).Lists symbol token ↔
    table.Lists symbol token ∨ (other = symbol ∧ new = token) := by
  rw [lists_iff, lists_iff, withSynonym]
  by_cases same : other = symbol
  · subst same
    rw [find?_addToken, Option.elim_some, List.mem_append, List.mem_singleton]
    exact or_congr_right ⟨fun h => ⟨rfl, h.symm⟩, fun h => h.2.symm⟩
  · rw [find?_addToken_of_ne (Ne.symm same)]
    exact ⟨.inl, fun h => h.resolve_right fun both => same both.1⟩

/-- A synonym is recognized, and nothing else that was not. -/
theorem recognizes_withSynonym (nonempty : token ≠ "") :
    (table.withSynonym other new).Recognizes symbol token ↔
      table.Recognizes symbol token ∨ (other = symbol ∧ new = token) := by
  rw [recognizes_iff_mem_tokens, recognizes_iff_mem_tokens,
    (tokens_withSynonym table other new).mem_iff, Prod.mk.injEq, String.toList_inj]
  simp only [nonempty, ne_eq, not_false_eq_true, true_and]
  exact or_congr_right ⟨fun h => ⟨h.2.symm, h.1.symm⟩, fun h => ⟨h.2.symm, h.1.symm⟩⟩

/-- What holds of a table with one more synonym if it held before or of this synonym holds of a
table with several if it held before or of one of them. -/
private theorem withSynonyms_iff {P : TokenTable → Prop} {synonyms : List (Symbol × String)}
    (one : ∀ {table other new}, P (table.withSynonym other new) ↔
      P table ∨ (other = symbol ∧ new = token)) :
    P (table.withSynonyms synonyms) ↔ P table ∨ (symbol, token) ∈ synonyms := by
  induction synonyms generalizing table with
  | nil => simp [withSynonyms]
  | cons synonym synonyms ih =>
    rw [withSynonyms, List.foldl_cons, ← withSynonyms, ih, one, or_assoc, List.mem_cons,
      Prod.ext_iff, eq_comm, eq_comm (a := synonym.2)]

theorem lists_withSynonyms {synonyms : List (Symbol × String)} :
    (table.withSynonyms synonyms).Lists symbol token ↔
      table.Lists symbol token ∨ (symbol, token) ∈ synonyms :=
  withSynonyms_iff (P := (·.Lists symbol token)) lists_withSynonym

theorem recognizes_withSynonyms {synonyms : List (Symbol × String)} (nonempty : token ≠ "") :
    (table.withSynonyms synonyms).Recognizes symbol token ↔
      table.Recognizes symbol token ∨ (symbol, token) ∈ synonyms :=
  withSynonyms_iff (P := (·.Recognizes symbol token)) (recognizes_withSynonym nonempty)

/-! ### Where the two agree -/

/-- Where each symbol has one entry, that is the first one. -/
theorem recognizes_iff_lists_of_nodup (single : (table.entries.map Prod.fst).Nodup)
    (nonempty : token ≠ "") : table.Recognizes symbol token ↔ table.Lists symbol token := by
  refine ⟨fun h => ?_, fun h => h.recognizes nonempty⟩
  obtain ⟨-, entry, mem, rfl, listed⟩ := recognizes_iff.mp h
  rw [lists_iff, find?_of_mem single mem]
  exact listed

/-- The token that is written for a symbol is the first that is listed. -/
theorem lists_of_primary (written : table.primary symbol = .ok token) :
    table.Lists symbol token := by
  unfold primary at written
  cases listed : table.alternatives symbol with
  | error missing =>
    rw [listed] at written
    cases written
  | ok tokens =>
    rw [listed] at written
    cases tokens with
    | nil => cases written
    | cons first more =>
      have same : first = token := Except.ok.inj written
      exact ⟨first :: more, listed, same ▸ List.mem_cons_self⟩

/-- What a table lists and what it recognizes, whatever its entries are and whatever synonyms
it was given. Whatever is listed is recognized if it is not empty, so this is all that may be
wrong with the token that is written. The two are the same for a symbol exactly if the tokens
that its entries have behind the first one are listed anyway, as it is where no symbol has
two entries. -/
theorem listed_iff_recognized (table : TokenTable) (synonyms : List (Symbol × String))
    (symbol : Symbol) :
    (∀ token ≠ "", (table.withSynonyms synonyms).Lists symbol token →
      (table.withSynonyms synonyms).Recognizes symbol token) ∧
    (∀ token, (table.withSynonyms synonyms).primary symbol = .ok token →
      ((table.withSynonyms synonyms).Recognizes symbol token ↔ token ≠ "")) ∧
    ((∀ token ≠ "", (table.withSynonyms synonyms).Recognizes symbol token ↔
        (table.withSynonyms synonyms).Lists symbol token) ↔
      ∀ entry ∈ table.entries, entry.1 = symbol → ∀ token ∈ entry.2, token ≠ "" →
        table.Lists symbol token ∨ (symbol, token) ∈ synonyms) ∧
    ((table.entries.map Prod.fst).Nodup → ∀ token ≠ "",
      ((table.withSynonyms synonyms).Recognizes symbol token ↔
        (table.withSynonyms synonyms).Lists symbol token)) := by
  refine ⟨fun token nonempty listed => listed.recognizes nonempty, fun token written =>
    ⟨fun read => (recognizes_iff.mp read).1, (lists_of_primary written).recognizes⟩,
    ⟨fun agree entry mem same token listed nonempty => ?_, fun covered token nonempty => ?_⟩,
    fun single token nonempty => ?_⟩
  · have read : table.Recognizes symbol token :=
      recognizes_iff.mpr ⟨nonempty, entry, mem, same, listed⟩
    exact lists_withSynonyms.mp
      ((agree token nonempty).mp ((recognizes_withSynonyms nonempty).mpr (.inl read)))
  · refine ⟨fun read => ?_, fun listed => listed.recognizes nonempty⟩
    rw [lists_withSynonyms]
    rcases (recognizes_withSynonyms nonempty).mp read with before | synonym
    · obtain ⟨-, entry, mem, same, listed⟩ := recognizes_iff.mp before
      exact covered entry mem same token listed nonempty
    · exact .inr synonym
  · rw [recognizes_withSynonyms nonempty, lists_withSynonyms,
      recognizes_iff_lists_of_nodup single nonempty]

/-- A symbol that has no entry at first gets one from the first of its synonyms, and the
others go there too. -/
theorem listed_iff_recognized_ago :
    let table : TokenTable := ⟨.dsl, true, [(.now, ["now"]), (.connective .not, ["not", ""])]⟩
    let more := table.withSynonyms [(.ago, "ago"), (.now, "present"), (.ago, "before")]
    (table.entries.map Prod.fst).Nodup ∧ "before" ≠ "" ∧
      (more.Recognizes .ago "before" ↔ more.Lists .ago "before") ∧ more.Lists .ago "before" := by
  intro table more
  have single : (table.entries.map Prod.fst).Nodup := by decide
  have listed : more.Lists .ago "before" := ⟨["ago", "before"], by decide, by decide⟩
  exact ⟨single, by decide,
    (listed_iff_recognized table [(.ago, "ago"), (.now, "present"), (.ago, "before")]
      .ago).2.2.2 single "before" (by decide), listed⟩

/-- Of two entries of one symbol, the second is recognized and not listed. An empty token that
stands first in its entry is written and not recognized. -/
theorem recognized_unlisted :
    let twice : TokenTable := ⟨.dsl, true, [(.now, ["now"]), (.now, ["present"])]⟩
    let blank : TokenTable := ⟨.dsl, true, [(.operator .gt, ["", ">"])]⟩
    (twice.Recognizes .now "present" ∧ ¬twice.Lists .now "present") ∧
      blank.primary (.operator .gt) = .ok "" ∧ ¬blank.Recognizes (.operator .gt) "" := by
  intro twice blank
  refine ⟨⟨recognizes_iff.mpr (by decide), ?_⟩, by decide, ?_⟩
  · rw [lists_iff]
    decide
  · rw [recognizes_iff]
    decide

end ForumModeration.TokenTable
