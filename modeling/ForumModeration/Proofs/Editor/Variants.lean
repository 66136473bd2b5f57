import ForumModeration.Proofs.Editor.Precedence
import ForumModeration.Proofs.Rendering.Variants

/-!
# `ForumModeration.Proofs.Editor.Variants`: rules that are written in other ways

A rule can be written in many ways besides the one in which an editor writes it. Tokens have
synonyms and letter cases, strings may stand between quotes of either kind, and blanks of any
kind and number may stand between any two lexemes. `parseRule_variant` says that none of
this matters: what an editor writes is made of lexemes, and every text that is made of the
same lexemes, parted by blanks, is read as the same rule.
-/

set_option autoImplicit false

namespace ForumModeration.Editor

open Text

/-- A rule is written as its lexemes, and every text in which these lexemes are spelled in
any of their ways with blanks between them is read as the rule. The rule may be any that

- has one child for each `NOT` and two children or more for each other group,
- compares with a list where it tests membership,
- has only scalars that can be recovered where they stand, and
- nests at most 128 levels deep when it is written. -/
theorem parseRule_variant (offset : Offset) (clock : Clock) (mode : Mode) (trigger : Trigger)
    (arities : ∀ g ∈ trigger.groups, if g.1 = .not then g.2 = 1 else 2 ≤ g.2)
    (lists : ∀ c ∈ trigger.conditions, c.operator = .among → c.value.isList = true)
    (scalars : ∀ c ∈ trigger.conditions, ∀ v ∈ c.value.scalars,
      v.Recoverable offset c.field.isTime)
    (enough : trigger.levels false ≤ 128) :
    (∃ text, ({ offset } : Editor).renderRule trigger mode = .ok text ∧
      Composed (({ offset } : Editor).renderer mode).Writes (fun _ => True)
        (trigger.lexemes false) text.toList []) ∧
    ∀ (text : String) (rest : List Char),
      Composed (({ offset } : Editor).renderer mode).Spells Parted (trigger.lexemes false)
        text.toList rest →
      (∀ c ∈ rest, isBlank c = true) →
      ((({ offset } : Editor).parseRule text mode).run clock).1 = .ok (trigger.shownIn offset) := by
  have wellFormed : ∀ g ∈ trigger.groups, g.1.acceptsArity g.2 = true :=
    fun g mem => Connective.acceptsArity_iff.mpr (arities g mem)
  constructor
  · obtain ⟨text, written, -⟩ :=
      renderRule_of_acceptsArity offset clock mode wellFormed lists scalars
    refine ⟨text, written, ?_⟩
    unfold renderRule at written
    cases rule : (({ offset } : Editor).renderer mode).rule trigger with
    | error e =>
      rw [rule] at written
      cases written
    | ok characters =>
      rw [rule] at written
      cases written
      have laid := Renderer.trigger_composed (writable_table offset mode).hasToken rule [] []
        (fun _ mem => absurd mem List.not_mem_nil)
      rwa [List.append_nil, List.nil_append, ← String.toList_ofList (l := characters)] at laid
  · intro text rest varies blank
    rw [parseRule_eq_ok_iff]
    exact (Renderer.rule_of_variant (({ offset } : Editor).renderer mode)
      ((clock.readings 0).withOffset offset) (legible_table offset mode)
      (contained_table offset mode) (writable_table offset mode) rfl wellFormed lists scalars
      varies blank).1 enough

/-- Synonyms in capital letters, a line feed, an ideographic space and double quotes. -/
theorem parseRule_variant_quotes :
    ((({} : Editor).parseRule " LEVEL\nGTE 3 &&\u3000Title EQ \"it's\" " .dsl).run
        (.fixed ⟨0, 0, .utc, by decide⟩)).1
      = .ok (.group .and [.condition ⟨.level, .gte, .int 3⟩,
          .condition ⟨.title, .eq, .string "it's"⟩]) := by
  have next : ∀ {lexeme : Lexeme} {lexemes : List Lexeme} {text : List Char} (b c : Char)
      (written : String), isBlank b = true → isBlank c = true →
      (({} : Editor).renderer .dsl).Spells lexeme written.toList →
      (({} : Editor).renderer .dsl).Varies lexemes (c :: text) [' '] →
      (({} : Editor).renderer .dsl).Varies (lexeme :: lexemes)
        ([b] ++ (written.toList ++ c :: text)) [' '] :=
    fun _ _ _ blank blank' spelled more =>
      .cons (List.forall_mem_singleton.mpr blank) spelled (ahead_cons.mpr blank') more
  have token : ∀ {symbol : Symbol} {written : List Char} (spelling : String),
      spelling.toList ≠ [] →
      (∃ entry ∈ TokenTable.dsl.entries, entry.1 = symbol ∧ spelling ∈ entry.2) →
      lower written = lower spelling.toList →
      (({} : Editor).renderer .dsl).Spells (.token symbol) written := by
    intro symbol written spelling nonempty listed same
    refine .token ⟨nonempty, ?_⟩ same
    rwa [String.ofList_toList]
  have body : QuotedBody '"' "it's".toList "it's".toList :=
    .plain (by decide) (by decide) <| .plain (by decide) (by decide) <|
      .plain (by decide) (by decide) <| .plain (by decide) (by decide) .nil
  have varies : (({} : Editor).renderer .dsl).Varies
      ((Trigger.group .and [.condition ⟨.level, .gte, .int 3⟩,
        .condition ⟨.title, .eq, .string "it's"⟩]).lexemes false)
      " LEVEL\nGTE 3 &&\u3000Title EQ \"it's\" ".toList [' '] := by
    refine next ' ' '\n' "LEVEL" rfl rfl (token "level" (by decide) (by decide) (by decide)) ?_
    refine next '\n' ' ' "GTE" rfl rfl (token "gte" (by decide) (by decide) (by decide)) ?_
    refine next ' ' ' ' "3" rfl rfl (.written rfl) ?_
    refine next ' ' '\u3000' "&&" rfl rfl (token "&&" (by decide) (by decide) (by decide)) ?_
    refine next '\u3000' ' ' "Title" rfl rfl (token "title" (by decide) (by decide) (by decide)) ?_
    refine next ' ' ' ' "EQ" rfl rfl (token "eq" (by decide) (by decide) (by decide)) ?_
    exact next ' ' ' ' "\"it's\"" rfl rfl (.string (.inr rfl) body) .nil
  refine (parseRule_variant .china (.fixed ⟨0, 0, .utc, by decide⟩) .dsl
    (.group .and [.condition ⟨.level, .gte, .int 3⟩, .condition ⟨.title, .eq, .string "it's"⟩])
    (by decide) (by decide) ?_ (by decide)).2 _ [' '] varies (List.forall_mem_singleton.mpr rfl)
  intro c mem v found
  rcases List.mem_cons.mp mem with rfl | mem
  · obtain rfl := List.mem_singleton.mp found
    trivial
  · obtain rfl := List.mem_singleton.mp mem
    obtain rfl := List.mem_singleton.mp found
    exact nofun

end ForumModeration.Editor
