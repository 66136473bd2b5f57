import ForumModeration.TokenTable.Symbol

/-!
# `ForumModeration.TokenTable.Basic`: how a language spells its symbols

A token table lists symbols with their tokens. The first token of a symbol's
first entry is written; every token of every entry is read. Synonyms are added
to the first entry of their symbol.

The lexicon is the table as the reader uses it: all tokens that are not empty
with their symbols, longer tokens first and otherwise in the order of the table.

* `mem_lexicon_iff`: the lexicon holds the non-empty tokens of all entries.
* `lexicon_sorted`: no token stands behind a shorter one.
-/

set_option autoImplicit false

namespace ForumModeration

/-- A table has no token for a symbol. -/
structure MissingSymbol where
  symbol : Symbol
  mode : Mode
deriving DecidableEq, Repr

/-- What is said of a symbol without a token. -/
def MissingSymbol.message (error : MissingSymbol) : String :=
  "no token configured for " ++ error.symbol.describe ++ " in the " ++ error.mode.tag ++ " table"

/-- The tokens of a language. `spaced` says whether tokens are written with
spaces between them. -/
structure TokenTable where
  mode : Mode
  spaced : Bool
  entries : List (Symbol × List String)
deriving DecidableEq, Repr

namespace TokenTable

/-- Adds a token to the first entry of a symbol, or a new entry at the end. -/
def addToken (symbol : Symbol) (token : String) :
    List (Symbol × List String) → List (Symbol × List String)
  | [] => [(symbol, [token])]
  | entry :: rest =>
    if entry.1 = symbol then (entry.1, entry.2 ++ [token]) :: rest
    else entry :: addToken symbol token rest

/-- The table that also reads `token` as `symbol`. What is written for the symbol
stays the same unless it had no entry or an empty one. -/
def withSynonym (table : TokenTable) (symbol : Symbol) (token : String) : TokenTable :=
  { table with entries := addToken symbol token table.entries }

/-- The tokens of a symbol's first entry. -/
def alternatives (table : TokenTable) (symbol : Symbol) : Except MissingSymbol (List String) :=
  match table.entries.find? (·.1 = symbol) with
  | some entry => .ok entry.2
  | none => .error ⟨symbol, table.mode⟩

/-- The token that is written for a symbol. -/
def primary (table : TokenTable) (symbol : Symbol) : Except MissingSymbol String := do
  match ← table.alternatives symbol with
  | token :: _ => .ok token
  | [] => .error ⟨symbol, table.mode⟩

/-- All tokens of a table with their symbols, in the order of the table. -/
def tokens (table : TokenTable) : List (List Char × Symbol) :=
  table.entries.flatMap fun (symbol, tokens) => tokens.map fun token => (token.toList, symbol)

/-- Puts a token in front of the first one that is not longer. -/
def insertToken (token : List Char × Symbol) :
    List (List Char × Symbol) → List (List Char × Symbol)
  | [] => [token]
  | other :: rest =>
    if other.1.length ≤ token.1.length then token :: other :: rest
    else other :: insertToken token rest

/-- Tokens with longer ones first, and equally long ones in their order. -/
def longestFirst (tokens : List (List Char × Symbol)) : List (List Char × Symbol) :=
  tokens.foldr insertToken []

/-- The tokens to be tried when reading, longer ones first. -/
def lexicon (table : TokenTable) : List (List Char × Symbol) :=
  longestFirst (table.tokens.filter fun token => !token.1.isEmpty)

private theorem insertToken_perm (token : List Char × Symbol) (tokens : List (List Char × Symbol)) :
    (insertToken token tokens).Perm (token :: tokens) := by
  induction tokens with
  | nil => exact .refl _
  | cons other rest ih =>
    rw [insertToken]
    split
    · exact .refl _
    · exact (ih.cons other).trans (.swap token other rest)

theorem longestFirst_perm (tokens : List (List Char × Symbol)) :
    (longestFirst tokens).Perm tokens := by
  induction tokens with
  | nil => exact .refl _
  | cons token rest ih => exact (insertToken_perm token _).trans (ih.cons token)

private theorem insertToken_sorted (token : List Char × Symbol) {tokens : List (List Char × Symbol)}
    (h : tokens.Pairwise fun a b => b.1.length ≤ a.1.length) :
    (insertToken token tokens).Pairwise fun a b => b.1.length ≤ a.1.length := by
  induction tokens with
  | nil => simp [insertToken]
  | cons other rest ih =>
    have ⟨first, others⟩ := List.pairwise_cons.1 h
    rw [insertToken]
    split
    · rename_i shorter
      refine List.pairwise_cons.2 ⟨fun b hb => ?_, h⟩
      rcases List.mem_cons.1 hb with rfl | hb
      · exact shorter
      · exact Nat.le_trans (first b hb) shorter
    · rename_i longer
      refine List.pairwise_cons.2 ⟨fun b hb => ?_, ih others⟩
      -- Behind a longer token stands the new one or one that stood there before.
      rcases List.mem_cons.1 ((insertToken_perm token rest).mem_iff.1 hb) with rfl | hb
      · omega
      · exact first b hb

theorem mem_lexicon_iff {table : TokenTable} {token : List Char} {symbol : Symbol} :
    (token, symbol) ∈ table.lexicon ↔
      token ≠ [] ∧ ∃ entry ∈ table.entries, entry.1 = symbol ∧ String.ofList token ∈ entry.2 := by
  rw [lexicon, (longestFirst_perm _).mem_iff]
  simp only [List.mem_filter, tokens, List.mem_flatMap, List.mem_map, Prod.mk.injEq]
  constructor
  · rintro ⟨⟨entry, he, text, ht, rfl, rfl⟩, hne⟩
    exact ⟨by simpa using hne, entry, he, rfl, by simpa using ht⟩
  · rintro ⟨hne, entry, he, rfl, ht⟩
    exact ⟨⟨entry, he, _, ht, by simp, rfl⟩, by simpa using hne⟩

theorem longestFirst_sorted (tokens : List (List Char × Symbol)) :
    (longestFirst tokens).Pairwise fun a b => b.1.length ≤ a.1.length := by
  induction tokens with
  | nil => exact .nil
  | cons token rest ih => exact insertToken_sorted token ih

theorem lexicon_sorted (table : TokenTable) :
    table.lexicon.Pairwise fun a b => b.1.length ≤ a.1.length :=
  longestFirst_sorted _

end TokenTable

end ForumModeration
