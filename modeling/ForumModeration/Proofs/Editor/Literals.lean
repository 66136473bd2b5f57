import ForumModeration.Proofs.Editor.Calls
import ForumModeration.Proofs.Rendering.Infinities

/-!
# `ForumModeration.Proofs.Editor.Literals`: literals that are read can be written back

Strings, instants, integers, truth values and lists that are read are written as texts that
are read alike. Floating-point numbers are not always: a number may be too large for any that is
finite, and it is read all the same. `condition_rendered_iff_finite` says that nothing else can
go wrong.
-/

set_option autoImplicit false

namespace ForumModeration.Editor

theorem bracketed_table (offset : Offset) (mode : Mode) :
    (({ offset } : Editor).table mode).Bracketed := by
  cases mode
  · exact TokenTable.bracketed_dsl
  · exact TokenTable.bracketed_cnl

/-- A text that the grammar refuses cannot be read. -/
theorem parseRule_of_refuses {editor : Editor} {clock : Clock} {text : String} {mode : Mode}
    (refuses : (editor.grammar mode (clock.readings 0)).rule.Refuses text.toList) :
    ∃ d, ((editor.parseRule text mode).run clock).1 = .error d := by
  obtain ⟨failure, failed, _⟩ := refuses
  refine ⟨_, parseRule_eq_error_iff.mpr ⟨failure, ?_, rfl⟩⟩
  rw [Parser.complete, failed]

/-- A condition that is read can be written in both languages, if the present can be written.
If its value takes up at most 128 levels of nesting, what is written is read back as the same
condition, at whatever time it is read, exactly if all its floating-point numbers are finite.
Otherwise what is written cannot be read at all. -/
theorem condition_rendered_iff_finite (offset : Offset) (clock : Clock) (text : String)
    (mode : Mode) (c : Condition) (noLeap : (clock.readings 0).isLeap = false)
    (short : Grammar.hasShortYear ((clock.readings 0).withOffset offset) = true)
    (read : ((({ offset } : Editor).parseRule text mode).run clock).1 = .ok (.condition c))
    (bounded : c.value.levels ≤ 128) (mode' : Mode) :
    ∃ written, ({ offset } : Editor).renderRule (.condition c) mode' = .ok written ∧
      ∀ later : Clock,
        (((({ offset } : Editor).parseRule written mode').run later).1 = .ok (.condition c) ↔
          ∀ number, .float number ∈ c.value.scalars → number.isFinite = true) ∧
        ((∃ number, .float number ∈ c.value.scalars ∧ number.isFinite = false) →
          ∃ d, ((({ offset } : Editor).parseRule written mode').run later).1 = .error d) := by
  have meant := meant_of_parseRule noLeap short read
  obtain ⟨membership, scalars⟩ := meant.conditions c (List.mem_singleton_self c)
  have others : ∀ s ∈ c.value.scalars, (∀ number, s ≠ .float number) →
      s.Recoverable offset c.field.isTime :=
    fun s mem noFloat => (scalars s mem).recoverable fun number same => absurd same (noFloat number)
  obtain ⟨written, rendered⟩ := renderRule_of_arities offset mode' meant.arities
  refine ⟨written, rendered, fun later => ?_⟩
  -- Where a number is not finite, reading gets stuck at the value.
  have refuses : ¬c.value.IsFinite →
      ∃ d, ((({ offset } : Editor).parseRule written mode').run later).1 = .error d := by
    intro infinite
    obtain ⟨text, value, stuck⟩ : ∃ text,
        (({ offset } : Editor).renderer mode').value c.value = .ok text ∧
        (({ offset } : Editor).renderer mode').Stuck ((later.readings 0).withOffset offset)
          c.field.isTime text :=
      Renderer.value_stuck (legible_table offset mode') (writable_table offset mode')
        (callable_table offset mode') (bracketed_table offset mode') rfl others infinite
    obtain ⟨text, rule, refused⟩ := Renderer.condition_stuck
      (legible_table offset mode') (writable_table offset mode') value stuck
    obtain rfl : String.ofList text = written := by
      unfold renderRule at rendered
      rw [rule] at rendered
      exact Except.ok.inj rendered
    rw [← String.toList_ofList (l := text)] at refused
    exact parseRule_of_refuses refused
  refine ⟨⟨?_, ?_⟩, ?_⟩
  · intro again
    by_contra infinite
    obtain ⟨d, refused⟩ := refuses infinite
    rw [again] at refused
    cases refused
  · intro finite
    have shown : (Trigger.condition c).shownIn offset = .condition c :=
      Trigger.shownIn_eq_self fun c' mem time found => by
        obtain rfl := List.mem_singleton.mp mem
        exact (scalars _ found).1
    obtain ⟨written', rendered', reads, -⟩ := renderRule_of_acceptsArity offset later mode'
      meant.arities (fun c' mem => (meant.conditions c' mem).1) (fun c' mem s found => by
        obtain rfl := List.mem_singleton.mp mem
        exact (scalars s found).recoverable fun number same => finite number (same ▸ found))
    obtain rfl : written = written' := Except.ok.inj (rendered.symm.trans rendered')
    rw [shown] at reads
    exact reads bounded
  · rintro ⟨number, found, infinite⟩
    refine refuses fun finite => ?_
    rw [finite number found] at infinite
    cases infinite

/-- A list of numbers, one of them in a list of its own, is written in Chinese and read back
from that. -/
theorem condition_rendered_iff_finite_list :
    let c : Condition := ⟨.floor, .among, .list [.float (.nearest false ⟨15, -1⟩), .list [.int 2]]⟩
    ((({} : Editor).parseRule "floor in [1.5, [2]]" .dsl).run
        (.fixed ⟨0, 0, .utc, by decide⟩)).1 = .ok (.condition c) ∧
      ∃ written, ({} : Editor).renderRule (.condition c) .cnl = .ok written ∧
        ((({} : Editor).parseRule written .cnl).run (.fixed ⟨0, 0, .utc, by decide⟩)).1
          = .ok (.condition c) := by
  intro c
  have read : ((({} : Editor).parseRule "floor in [1.5, [2]]" .dsl).run
      (.fixed ⟨0, 0, .utc, by decide⟩)).1 = .ok (.condition c) :=
    parseRule_eq_ok_iff.mpr (by decide +kernel)
  obtain ⟨written, rendered, again⟩ := condition_rendered_iff_finite .china
    (.fixed ⟨0, 0, .utc, by decide⟩) "floor in [1.5, [2]]" .dsl c rfl (by decide) read
    (by decide) .cnl
  refine ⟨read, written, rendered, (again _).1.mpr fun number found => ?_⟩
  have scalars : c.value.scalars = [.float (.nearest false ⟨15, -1⟩), .int 2] := rfl
  obtain rfl : number = .nearest false ⟨15, -1⟩ := by simpa [scalars] using found
  decide +kernel

/-- A number of 310 digits and a fraction is read as infinity. What is written for that cannot be
read in either language. -/
theorem infinity_not_read_back :
    let text := String.ofList ("floor > 1".toList ++ List.replicate 309 '0' ++ ".0".toList)
    let infinity : Binary64 := .ofMagnitudeBits false Binary64.infinityBits
    let c : Condition := ⟨.floor, .gt, .float infinity⟩
    ((({} : Editor).parseRule text .dsl).run (.fixed ⟨0, 0, .utc, by decide⟩)).1
        = .ok (.condition c) ∧
      ∀ mode, ∃ written, ({} : Editor).renderRule (.condition c) mode = .ok written ∧
        ∃ d, ((({} : Editor).parseRule written mode).run (.fixed ⟨0, 0, .utc, by decide⟩)).1
          = .error d := by
  intro text infinity c
  constructor
  · rw [parseRule_eq_ok_iff, String.toList_ofList]
    decide +kernel
  intro mode
  cases mode with
  | dsl =>
    exact ⟨"floor > inf", by decide +kernel,
      parseRule_of_refuses ⟨⟨"inf".toList, some (.word .literal), true⟩, by decide +kernel, rfl⟩⟩
  | cnl =>
    exact ⟨"楼层大于inf", by decide +kernel,
      parseRule_of_refuses ⟨⟨"inf".toList, some (.word .literal), true⟩, by decide +kernel, rfl⟩⟩

end ForumModeration.Editor
