import ForumModeration.Proofs.Editor.RoundTrip
import ForumModeration.Proofs.Grammar.Precedence

/-!
# `ForumModeration.Proofs.Editor.Precedence`: rules made of rules

Rules that can be read alone may be put in parentheses and joined by connectives of the
same language. `parseRule_joined` says what the rule made of them is read as: connectives
of the tighter tier bind first, those of one tier associate to the left, and nothing that
stands in parentheses is taken apart. The one thing that can go wrong is that parentheses
come to nest too deep.
-/

set_option autoImplicit false

namespace ForumModeration.Editor

theorem parenthesizes_table (offset : Offset) (mode : Mode) :
    (({ offset } : Editor).table mode).Parenthesizes := by
  cases mode
  · exact TokenTable.parenthesizes_dsl
  · exact TokenTable.parenthesizes_cnl

/-- With the tables of both languages and dates in any offset: texts that are read alone,
in parentheses and with connectives between them in any of their spellings, are read as
what they are read as alone, joined by precedence, or refused for nesting too deep. -/
theorem parseRule_joined (offset : Offset) (clock : Clock) (mode : Mode) {first : String}
    {trigger : Trigger} {links : List Link}
    (read : ((({ offset } : Editor).parseRule first mode).run clock).1 = .ok trigger)
    (fits : ∀ link ∈ links, link.connective.isUnary = false ∧
      (∃ entry ∈ (({ offset } : Editor).table mode).entries,
        entry.1 = .connective link.connective ∧ link.spelling ∈ entry.2) ∧
      ((({ offset } : Editor).parseRule link.text mode).run clock).1 = .ok link.trigger) :
    ((({ offset } : Editor).parseRule (joined first links) mode).run clock).1
        = .ok (precedence trigger (links.map Link.operand)) ∨
      ∃ d, ((({ offset } : Editor).parseRule (joined first links) mode).run clock).1 = .error d ∧
        d.trouble = .expected "shallower nesting" := by
  have fits' : ∀ link ∈ links, link.Fits (({ offset } : Editor).table mode)
      ((clock.readings 0).withOffset offset) := by
    intro link mem
    obtain ⟨binary, spelled, read⟩ := fits link mem
    exact ⟨binary, spelled, parseRule_eq_ok_iff.mp read⟩
  rcases Grammar.rule_joined (legible_table offset mode) (contained_table offset mode)
    (writable_table offset mode) (parenthesizes_table offset mode) (parseRule_eq_ok_iff.mp read)
    fits' with reads | ⟨stop, refused⟩
  · exact .inl (parseRule_eq_ok_iff.mpr reads)
  · exact .inr (parseRule_of_tooDeep refused)

/-- A disjunction in parentheses, joined with `OR` to an operand that `&&` joins to a
negation. -/
theorem parseRule_joined_tiers :
    let clock := Clock.fixed ⟨0, 0, .utc, by decide⟩
    let text := "(floor > 1 or level < 3) OR (level < 3) && (not floor > 1)"
    let floor : Trigger := .condition ⟨.floor, .gt, .int 1⟩
    let level : Trigger := .condition ⟨.level, .lt, .int 3⟩
    ((({} : Editor).parseRule text .dsl).run clock).1
      = .ok (.group .or [.group .or [floor, level], .group .and [level, .group .not [floor]]]) := by
  intro clock text floor level
  have fits : ∀ link ∈ [Link.mk .or "OR" "level < 3" level,
        ⟨.and, "&&", "not floor > 1", .group .not [floor]⟩], link.connective.isUnary = false ∧
      (∃ entry ∈ (({} : Editor).table .dsl).entries,
        entry.1 = .connective link.connective ∧ link.spelling ∈ entry.2) ∧
      ((({} : Editor).parseRule link.text .dsl).run clock).1 = .ok link.trigger := by
    rw [List.forall_mem_cons, List.forall_mem_singleton]
    exact ⟨⟨rfl, by decide, parseRule_eq_ok_iff.mpr (by decide +kernel)⟩,
      rfl, by decide, parseRule_eq_ok_iff.mpr (by decide +kernel)⟩
  have read : ((({} : Editor).parseRule "floor > 1 or level < 3" .dsl).run clock).1
      = .ok (.group .or [floor, level]) := parseRule_eq_ok_iff.mpr (by decide +kernel)
  have result := parseRule_joined .china clock .dsl read fits
  refine result.resolve_right ?_
  rintro ⟨d, failed, _⟩
  have enough : ((({} : Editor).parseRule text .dsl).run clock).1.isOk = true := by
    decide +kernel
  rw [show ((({} : Editor).parseRule text .dsl).run clock).1 = .error d from failed] at enough
  cases enough

end ForumModeration.Editor
