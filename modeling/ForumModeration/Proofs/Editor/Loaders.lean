import ForumModeration.Proofs.Editor.Storage
import ForumModeration.Proofs.Json.RoundTrip

/-!
# `ForumModeration.Proofs.Editor.Loaders`: what loading a rule checks

A rule can be loaded from JSON and from a blob. Either loader checks that the target has the
fields that are tested. Only the one for blobs checks the shape of the trigger, so rules may
come from JSON that can be neither stored nor written. `ReviewRule.ofJson_storable_iff` says
which: exactly those whose triggers are not well formed, and the loader lets all of them in.
-/

set_option autoImplicit false

namespace ForumModeration

/-- A rule that is loaded from a JSON text, and whose record takes up less than 4 GiB, has a
target with all fields that its trigger tests. It comes back from its own blob exactly if the
trigger is well formed, which is if groups have as many children as their connectives take and
membership is tested in lists; otherwise the blob is refused as invalid. Its trigger can be
written in the languages with the tables they are given at first, in any offset, exactly if
each negation has one child and no other group is empty; so it can if it is well formed.

The JSON loader asks nothing of the shape of a trigger: whatever the groups and the values of a
rule are, it is loaded from its own JSON text, if its scalars can be told from that text and it
does not nest too deeply. -/
theorem ReviewRule.ofJson_storable_iff (rule : ReviewRule) :
    (∀ text : String, ofJson text = .ok rule →
      (Blob.Record.ofRule rule none).write.length < 0x100000000 →
      let arities := ∀ g ∈ rule.trigger.groups, g.1.acceptsArity g.2 = true
      let lists := ∀ c ∈ rule.trigger.conditions, c.operator = .among → c.value.isList = true
      (∀ c ∈ rule.trigger.conditions, rule.target.allows c.field = true) ∧
      (ofBlob (rule.toBlob none) = .ok rule ↔ arities ∧ lists) ∧
      (¬(arities ∧ lists) → ∃ violation, ofBlob (rule.toBlob none) = .error (.invalid violation)) ∧
      ∀ (offset : Offset) (mode : Mode),
        ((∃ written, ({ offset } : Editor).renderRule rule.trigger mode = .ok written) ↔
          ∀ g ∈ rule.trigger.groups, if g.1 = .not then g.2 = 1 else 1 ≤ g.2) ∧
        (arities → ∃ written, ({ offset } : Editor).renderRule rule.trigger mode = .ok written)) ∧
    ((∀ s ∈ rule.scalars, s.KeptByJson) → rule.nesting ≤ 127 →
      ofJson rule.toJson = .ok rule) := by
  constructor
  · intro text _ small arities lists
    have shape : rule.trigger.WellFormed ↔ arities ∧ lists :=
      ⟨fun h => ⟨h.arities, h.lists⟩, fun h => ⟨h.1, h.2⟩⟩
    refine ⟨rule.compatible, ?_, ?_, fun offset mode =>
      ⟨Editor.renderRule_ok_iff offset mode, Editor.renderRule_of_arities offset mode⟩⟩
    · rw [← shape]
      constructor
      · intro loaded
        exact Blob.wellFormed_of_ofBlob loaded
      · intro wellFormed
        exact (ofBlob_toBlob_iff wellFormed none).mpr small
    · rw [← shape]
      exact (ofBlob_toBlob rule none small).2
  · intro kept (fits : rule.nesting ≤ Json.maxDepth)
    rw [ofJson_toJson (Json.portable_of_kept kept), if_pos fits,
      reloaded_eq_self_iff.mpr (Json.stays_of_kept kept)]

/-- A fact about the rule that a JSON text is loaded as, which is found by loading it. -/
private theorem exists_loaded {text : String} (check : ReviewRule → Bool)
    (found : (ReviewRule.ofJson text).toOption.any check = true) :
    ∃ rule, ReviewRule.ofJson text = .ok rule ∧ check rule = true := by
  cases loaded : ReviewRule.ofJson text with
  | error _ =>
    rw [loaded] at found
    cases found
  | ok rule =>
    rw [loaded] at found
    exact ⟨rule, rfl, found⟩

/-- Whether a rule has a trigger, and a record that takes up less than 4 GiB. -/
private def smallWith (trigger : Trigger) (rule : ReviewRule) : Bool :=
  decide ((Blob.Record.ofRule rule none).write.length < 0x100000000) && rule.trigger = trigger

private theorem smallWith_iff {trigger : Trigger} {rule : ReviewRule} :
    smallWith trigger rule = true ↔
      (Blob.Record.ofRule rule none).write.length < 0x100000000 ∧ rule.trigger = trigger := by
  simp [smallWith]

/-- The negation of a test of membership. It is well formed, so the rule with it comes back from
its blob, and it can be written. -/
theorem ReviewRule.ofJson_storable_iff_membership :
    let text := "\x7b\"name\":\"\",\"trigger\":\x7b\"logic\":\"NOT\",\"conditions\":[" ++
      "\x7b\"field\":\"floor\",\"operator\":\"in\",\"value\":[1]\x7d]\x7d\x7d"
    ∃ rule, ofJson text = .ok rule ∧ ofBlob (rule.toBlob none) = .ok rule ∧
      ∃ written, ({} : Editor).renderRule rule.trigger .cnl = .ok written := by
  intro text
  obtain ⟨rule, loaded, facts⟩ : ∃ rule, ofJson text = .ok rule ∧
      smallWith (.group .not [.condition ⟨.floor, .among, .list [.int 1]⟩]) rule = true :=
    exists_loaded _ (by decide +kernel)
  obtain ⟨small, same⟩ := smallWith_iff.mp facts
  obtain ⟨-, stored, -, written⟩ := (ofJson_storable_iff rule).1 text loaded small
  have arities : ∀ g ∈ rule.trigger.groups, g.1.acceptsArity g.2 = true := by
    rw [same]
    decide
  have lists : ∀ c ∈ rule.trigger.conditions, c.operator = .among → c.value.isList = true := by
    rw [same]
    decide
  exact ⟨rule, loaded, stored.mpr ⟨arities, lists⟩, (written .china .cnl).2 arities⟩

/-- A negation of two conditions, and a test of membership in a text. JSON texts of both are
loaded as rules. The blobs of these are refused, and the negation cannot be written. -/
theorem ReviewRule.ofJson_not_storable :
    let condition := "\x7b\"field\":\"floor\",\"operator\":\"gt\",\"value\":1\x7d"
    let negation := "\x7b\"name\":\"\",\"trigger\":\x7b\"logic\":\"NOT\",\"conditions\":[" ++
      condition ++ "," ++ condition ++ "]\x7d\x7d"
    let membership := "\x7b\"name\":\"\",\"trigger\":\x7b\"field\":\"title\"," ++
      "\"operator\":\"in\",\"value\":\"ad\"\x7d\x7d"
    (∃ rule, ofJson negation = .ok rule ∧
      (∃ violation, ofBlob (rule.toBlob none) = .error (.invalid violation)) ∧
      ∀ mode, ∃ error, ({} : Editor).renderRule rule.trigger mode = .error error) ∧
    ∃ rule, ofJson membership = .ok rule ∧
      ∃ violation, ofBlob (rule.toBlob none) = .error (.invalid violation) := by
  intro condition negation membership
  constructor
  · let floor : Trigger := .condition ⟨.floor, .gt, .int 1⟩
    obtain ⟨rule, loaded, facts⟩ : ∃ rule, ofJson negation = .ok rule ∧
        smallWith (.group .not [floor, floor]) rule = true :=
      exists_loaded _ (by decide +kernel)
    obtain ⟨small, same⟩ := smallWith_iff.mp facts
    refine ⟨rule, loaded, (ofBlob_toBlob rule none small).2 fun wellFormed => ?_, ?_⟩
    · have arity := wellFormed.arities (.not, 2) (by rw [same]; decide)
      cases arity
    · rw [same]
      exact fun mode => ⟨.wrongArity .not 2, rfl⟩
  · let title : Condition := ⟨.title, .among, .string "ad"⟩
    obtain ⟨rule, loaded, facts⟩ : ∃ rule, ofJson membership = .ok rule ∧
        smallWith (.condition title) rule = true :=
      exists_loaded _ (by decide +kernel)
    obtain ⟨small, same⟩ := smallWith_iff.mp facts
    refine ⟨rule, loaded, (ofBlob_toBlob rule none small).2 fun wellFormed => ?_⟩
    have list := wellFormed.lists title (by rw [same]; decide) rfl
    cases list

end ForumModeration
