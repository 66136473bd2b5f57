import ForumModeration.Proofs.Grammar.Tokens
import ForumModeration.TokenTable.Cnl
import ForumModeration.TokenTable.Dsl

/-!
# `ForumModeration.Proofs.Grammar.Tables`: the tokens of the two languages

Both tables are legible (`legible_dsl`, `legible_cnl`). They differ in how far a
token can be trusted. In the compact language no token goes on into a longer one of
its kind but for the operators (`settled_dsl`). In the Chinese language `与` goes on
with `非` to `与非`, so only the tokens that are *written* can be trusted
(`writable_cnl`), the ones that come first in the table.

All facts here are computed from the tables.
-/

set_option autoImplicit false

namespace ForumModeration.TokenTable

open Text

/-- The units of time are read but never written. -/
def isUnit : Symbol → Bool
  | .unit _ => true
  | _ => false

/-- Tokens that stand between others without a space: signs always do, and operators
and connectives where no spaces are written. -/
def joins (table : TokenTable) : Symbol → Bool
  | .punctuation _ => true
  | .operator _ | .connective _ => !table.spaced
  | _ => false

/-- A table has a token to write for every symbol. No other token of the symbol's kind
goes on from it, and where it stands between others without a space it has no
identifier characters at its ends. -/
structure Writable (table : TokenTable) : Prop where
  hasToken : ∀ symbol, (table.primary symbol).isOk = true
  nonempty : ∀ entry ∈ table.entries, ∀ token ∈ entry.2, token.toList ≠ []
  settled : ∀ entry ∈ table.entries, isUnit entry.1 = false →
    entry.2.head?.all (fun token => table.settled entry.1 token.toList) = true
  joined : ∀ entry ∈ table.entries, table.joins entry.1 = true →
    entry.2.head?.all (fun token => !token.toList.head?.any isIdent &&
      !token.toList.getLast?.any isIdent) = true

/-- What a writer relies on of the token that it writes for a symbol. -/
structure Written (table : TokenTable) (symbol : Symbol) (token : List Char) : Prop where
  primary : ∃ spelling : String, table.primary symbol = .ok spelling ∧ spelling.toList = token
  mem : (token, symbol) ∈ table.lexicon
  settled : table.settled symbol token = true
  joined : table.joins symbol = true →
    token.head?.any isIdent = false ∧ token.getLast?.any isIdent = false

theorem legible_dsl : dsl.Legible where
  starts := by decide
  noTime := by decide
  noFurther := by decide
  distinct := by decide +kernel
  apart := by decide +kernel

theorem legible_cnl : cnl.Legible where
  starts := by decide +kernel
  noTime := by decide +kernel
  noFurther := by decide +kernel
  distinct := by decide +kernel
  apart := by decide +kernel

/-- No token of the compact language but an operator goes on into another one of its
kind. -/
theorem settled_dsl {token : List Char} {symbol : Symbol} (mem : (token, symbol) ∈ dsl.lexicon) :
    dsl.settled symbol token = true := by
  have all : ∀ entry ∈ dsl.entries, ∀ spelling ∈ entry.2,
      dsl.settled entry.1 spelling.toList = true := by
    decide +kernel
  obtain ⟨_, entry, hentry, named, spelling, listed, spelled⟩ := exists_entry mem
  rw [← spelled, ← named]
  exact all entry hentry spelling listed

theorem writable_dsl : dsl.Writable where
  hasToken symbol := by
    cases symbol with
    | field f => cases f <;> rfl
    | operator o => cases o <;> rfl
    | connective c => cases c <;> rfl
    | action k => cases k <;> rfl
    | truth b => cases b <;> rfl
    | unit u => cases u <;> rfl
    | punctuation p => cases p <;> rfl
    | _ => rfl
  nonempty := by decide +kernel
  settled := by decide +kernel
  joined := by decide +kernel

theorem writable_cnl : cnl.Writable where
  hasToken symbol := by
    cases symbol with
    | field f => cases f <;> rfl
    | operator o => cases o <;> rfl
    | connective c => cases c <;> rfl
    | action k => cases k <;> rfl
    | truth b => cases b <;> rfl
    | unit u => cases u <;> rfl
    | punctuation p => cases p <;> rfl
    | _ => rfl
  nonempty := by decide +kernel
  settled := by decide +kernel
  joined := by decide +kernel

/-- The token that is written for a symbol. -/
theorem Writable.written {table : TokenTable} (writable : table.Writable) (symbol : Symbol)
    (h : isUnit symbol = false) : ∃ token, table.Written symbol token := by
  have found := writable.hasToken symbol
  cases hp : table.primary symbol with
  | error missing =>
    rw [hp] at found
    cases found
  | ok token =>
    refine ⟨token.toList, ?_⟩
    have listed := hp
    unfold primary alternatives at listed
    cases hfind : table.entries.find? (·.1 = symbol) with
    | none =>
      rw [hfind] at listed
      cases listed
    | some entry =>
      have mem := List.mem_of_find?_eq_some hfind
      have named : entry.1 = symbol := by simpa using List.find?_some hfind
      rw [hfind] at listed
      cases htokens : entry.2 with
      | nil =>
        simp only [htokens] at listed
        cases listed
      | cons first others =>
        simp only [htokens] at listed
        have same : first = token := by cases listed; rfl
        subst same
        have settled := writable.settled entry mem (by rw [named, h])
        have joined := writable.joined entry mem
        rw [htokens, List.head?_cons, Option.all_some, named] at settled
        rw [htokens, List.head?_cons, Option.all_some, named] at joined
        refine ⟨⟨first, hp, rfl⟩, mem_lexicon_iff.mpr ⟨?_, entry, mem, named, ?_⟩, settled, ?_⟩
        · exact writable.nonempty entry mem first (by rw [htokens]; exact List.mem_cons_self)
        · rw [htokens, String.ofList_toList]
          exact List.mem_cons_self
        · intro joins
          simpa using joined joins

end ForumModeration.TokenTable
