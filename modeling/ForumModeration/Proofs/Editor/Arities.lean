import ForumModeration.Proofs.Editor.RoundTrip

/-!
# `ForumModeration.Proofs.Editor.Arities`: the first group that cannot be written

A negation is written if it has one child, and any other group if it is not empty. A trigger
in which some group is neither may have several of them at any depth, also under groups of one
child, for which only the child is written.

The renderer stops at the first of them in the order of `Trigger.groups`, where a group comes
before its children and these from left to right (`Renderer.trigger_of_misfit`). So the error
of an editor names that group (`Editor.renderRule_eq_error_iff`).
-/

set_option autoImplicit false

namespace ForumModeration

/-- Whether a connective cannot be written with this many children. -/
private def misfit (g : Connective × Nat) : Bool :=
  !decide (if g.1 = .not then g.2 = 1 else 1 ≤ g.2)

private theorem misfit_eq_false_iff {g : Connective × Nat} :
    misfit g = false ↔ if g.1 = .not then g.2 = 1 else 1 ≤ g.2 := by
  rw [misfit, Bool.not_eq_false', decide_eq_true_iff]

namespace Renderer

variable {r : Renderer} (hasToken : ∀ symbol, (r.table.primary symbol).isOk = true)

include hasToken

/-- Parentheses hide no error. -/
private theorem parenthesize_error (needed : Bool) (error : RenderError) :
    r.parenthesize needed (.error error) = .error error := by
  obtain ⟨opening, opening_⟩ := token_ok hasToken (.punctuation .leftParen)
  rw [parenthesize, sign, opening_]
  cases needed <;> rfl

/-- A trigger that is written first is either refused itself or what comes after it is. -/
private theorem bind_of_misfit {child : Trigger} {later : List (Connective × Nat)}
    {g : Connective × Nat} {next : List Char → Result}
    (found : (child.groups ++ later).find? misfit = some g)
    (own : child.groups.find? misfit = some g →
      r.trigger true child = .error (.wrongArity g.1 g.2))
    (others : later.find? misfit = some g → ∀ text, next text = .error (.wrongArity g.1 g.2)) :
    (r.trigger true child >>= next) = .error (.wrongArity g.1 g.2) := by
  rw [List.find?_append] at found
  cases first : child.groups.find? misfit with
  | some own' =>
    rw [first] at found
    cases found
    rw [own first]
    rfl
  | none =>
    rw [first] at found
    have arities : ∀ g ∈ child.groups, if g.1 = .not then g.2 = 1 else 1 ≤ g.2 := fun g mem =>
      misfit_eq_false_iff.mp (by simpa using List.find?_eq_none.mp first g mem)
    obtain ⟨text, text_⟩ := trigger_ok hasToken arities true
    rw [text_]
    exact others found text

/-- Of several triggers the first with a group that cannot be written is refused. -/
private theorem operands_of_misfit {connective : List Char} {children : List Trigger}
    {g : Connective × Nat} (found : (children.flatMap Trigger.groups).find? misfit = some g)
    (each : ∀ child ∈ children, child.groups.find? misfit = some g →
      r.trigger true child = .error (.wrongArity g.1 g.2)) :
    r.operands connective children = .error (.wrongArity g.1 g.2) := by
  induction children with
  | nil => cases found
  | cons child children ih =>
    rw [List.flatMap_cons] at found
    rw [operands]
    refine bind_of_misfit hasToken found (each child (by simp)) fun later text => ?_
    rw [ih later fun child mem => each child (List.mem_cons_of_mem _ mem)]
    rfl

omit hasToken in
/-- A group that cannot be written is refused before any of its children is looked at. -/
private theorem group_of_misfit {connective : Connective} {children : List Trigger}
    (own : misfit (connective, children.length) = true) (nested : Bool) :
    r.trigger nested (.group connective children)
      = .error (.wrongArity connective children.length) := by
  by_cases negation : connective = .not
  · subst negation
    rcases children with _ | ⟨child, _ | ⟨_, _⟩⟩
    · rfl
    · cases own
    · rfl
  · rcases children with _ | ⟨child, children⟩
    · rw [trigger]
      · rfl
      · exact negation
    · have here : misfit (connective, (child :: children).length) = false :=
        misfit_eq_false_iff.mpr (by rw [if_neg negation]; simp)
      rw [here] at own
      cases own

/-- A trigger with groups that cannot be written is refused for the first of them. -/
theorem trigger_of_misfit {t : Trigger} {g : Connective × Nat}
    (found : t.groups.find? misfit = some g) (nested : Bool) :
    r.trigger nested t = .error (.wrongArity g.1 g.2) := by
  induction t using Trigger.induction generalizing nested with
  | condition c => cases found
  | group connective children ih =>
    rw [Trigger.groups_group, List.find?_cons] at found
    obtain ⟨token, token_⟩ := token_ok hasToken (.connective connective)
    cases own : misfit (connective, children.length) with
    | true =>
      rw [own] at found
      cases found
      exact group_of_misfit own nested
    | false =>
      rw [own] at found
      have here := misfit_eq_false_iff.mp own
      cases binary : connective.isUnary with
      | true =>
        obtain rfl := Connective.isUnary_iff.mp binary
        obtain ⟨child, rfl⟩ := List.length_eq_one_iff.mp here
        rw [List.flatMap_singleton] at found
        rw [trigger, token_, ih child (by simp) found]
        show (do return token ++ r.space ++ (← r.parenthesize true (.error _)) : Result) = _
        rw [parenthesize_error hasToken]
        rfl
      | false =>
        rcases children with _ | ⟨first, _ | ⟨second, others⟩⟩
        · cases found
        · rw [List.flatMap_singleton] at found
          rw [trigger_single binary]
          exact ih first (by simp) found nested
        · rw [trigger_many binary, token_]
          have inner : (do
              return (← r.trigger true first) ++ (← r.operands token (second :: others)) : Result)
                = .error (.wrongArity g.1 g.2) := by
            refine bind_of_misfit hasToken found (fun own => ih first (by simp) own true)
              fun later text => ?_
            rw [operands_of_misfit hasToken later fun child mem own =>
              ih child (List.mem_cons_of_mem _ mem) own true]
            rfl
          exact (congrArg (r.parenthesize nested) inner).trans
            (parenthesize_error hasToken nested _)

end Renderer

namespace Editor

/-- A trigger is written in either language exactly if each negation in it has one child and
no other group is empty. Otherwise the error names a group for which this fails, with the
number of its children. It is the first one, where a group comes before its children and
these come from left to right: for all groups in front of it the condition holds. -/
theorem renderRule_eq_error_iff (offset : Offset) (mode : Mode) (trigger : Trigger) :
    let fits (g : Connective × Nat) : Prop := if g.1 = .not then g.2 = 1 else 1 ≤ g.2
    ((∃ text, ({ offset } : Editor).renderRule trigger mode = .ok text) ↔
      ∀ g ∈ trigger.groups, fits g) ∧
    ∀ error, ({ offset } : Editor).renderRule trigger mode = .error error ↔
      ∃ before g after, trigger.groups = before ++ g :: after ∧ (∀ b ∈ before, fits b) ∧
        ¬fits g ∧ error = .wrongArity g.1 g.2 := by
  intro fits
  have fits_iff : ∀ g, fits g ↔ (!misfit g) = true := fun g => by
    rw [Bool.not_eq_true', misfit_eq_false_iff]
  have writes := @renderRule_ok_iff offset mode trigger
  refine ⟨writes, fun error => ?_⟩
  cases first : trigger.groups.find? misfit with
  | none =>
    have all : ∀ g ∈ trigger.groups, fits g := fun g mem =>
      misfit_eq_false_iff.mp (by simpa using List.find?_eq_none.mp first g mem)
    obtain ⟨text, written⟩ := writes.mpr all
    rw [written]
    refine ⟨nofun, ?_⟩
    rintro ⟨before, g, after, split, -, fails, -⟩
    exact absurd (all g (by simp [split])) fails
  | some g =>
    have refused : ({ offset } : Editor).renderRule trigger mode
        = .error (.wrongArity g.1 g.2) := by
      have inner := Renderer.trigger_of_misfit (r := ({ offset } : Editor).renderer mode)
        (writable_table offset mode).hasToken first false
      unfold renderRule Renderer.rule
      rw [inner]
      rfl
    rw [refused, Except.error.injEq]
    constructor
    · rintro rfl
      obtain ⟨fails, before, after, split, fit⟩ := List.find?_eq_some_iff_append.mp first
      refine ⟨before, g, after, split, fun b mem => (fits_iff b).mpr (fit b mem), ?_, rfl⟩
      rw [fits_iff, fails]
      exact nofun
    · rintro ⟨before, other, after, split, fit, fails, rfl⟩
      have found : trigger.groups.find? misfit = some other := by
        refine List.find?_eq_some_iff_append.mpr
          ⟨?_, before, after, split, fun b mem => (fits_iff b).mp (fit b mem)⟩
        simpa [fits_iff] using fails
      rw [first] at found
      cases found
      rfl

/-- The group on the outside has one child, so only the child is written. In that the empty
group comes before the negation that has no child. -/
example : ({} : Editor).renderRule (.group .and [.group .or [.group .xor [], .group .not []]]) .dsl
    = .error (.wrongArity .xor 0) := by
  decide +kernel

end Editor

end ForumModeration
