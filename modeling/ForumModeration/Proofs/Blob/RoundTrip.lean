import ForumModeration.Blob
import ForumModeration.Proofs.Blob.Record

/-!
# `ForumModeration.Proofs.Blob.RoundTrip`: rules come back from their blobs

A rule whose record takes up less than 4 GiB, the most that a header can announce, comes
back from its blob with every bit of its numbers, the offsets of its instants and the
order of its parameters, and so does the digest of the text it came from. The one
exception are rules with a malformed trigger, which may be built and stored, but whose
blobs are refused (`ofBlob_toBlob`).
-/

set_option autoImplicit false

namespace ForumModeration

namespace Blob

/-- A trigger takes up at least a byte for each of its conditions. -/
theorem length_conditions_le (t : Trigger) :
    t.conditions.length ≤ (Tree.ofTrigger t).write.length := by
  induction t using Trigger.induction with
  | condition c => exact length_tree_pos _
  | group connective children ih =>
    have all : (children.flatMap Trigger.conditions).length
        ≤ ((children.map Tree.ofTrigger).flatMap Tree.write).length := by
      induction children with
      | nil => exact Nat.le_refl _
      | cons child children ih' =>
        have first := ih child (by simp)
        have others := ih' fun child mem => ih child (List.mem_cons_of_mem _ mem)
        simp only [List.map_cons, List.flatMap_cons, List.length_append]
        omega
    rw [Trigger.conditions_group, Tree.ofTrigger, ofTriggers_eq_map, length_group]
    omega

/-- The record of a rule's blob is the record of the rule. -/
theorem record_toBlob {rule : ReviewRule} {source : Option String}
    (small : (Record.ofRule rule
      (source.map fun text => Blake3.digest (utf8 text))).write.length < 0x100000000) :
    record (rule.toBlob source)
      = .ok (Record.ofRule rule (source.map fun text => Blake3.digest (utf8 text))) := by
  have unwrapped := unwrap_wrap small []
  rw [List.append_nil] at unwrapped
  have conditions := length_conditions_le rule.trigger
  have actions : (rule.actions.map Call.ofAction).length
      ≤ ((rule.actions.map Call.ofAction).flatMap Call.write).length :=
    count_le_flatMap fun call _ => length_call_pos call
  -- The counts of the record fit 64 bits, as they are no more than its bytes.
  have read : Record.read? (Record.ofRule rule
      (source.map fun text => Blake3.digest (utf8 text))).write = some (Record.ofRule rule
        (source.map fun text => Blake3.digest (utf8 text))) := by
    refine read?_write small ?_ ?_ ?_
    · simp only [Record.write, Record.ofRule, List.length_append] at small ⊢
      omega
    · simp only [Record.write, Record.ofRule, counted, List.length_append, List.length_map]
        at small actions ⊢
      omega
    · intro digest found
      obtain ⟨text, _, rfl⟩ := Option.map_eq_some_iff.mp found
      exact Blake3.length_digest _
  unfold record ReviewRule.toBlob
  simp only [unwrapped, bind, Except.bind, read]
  rfl

end Blob

/-- A rule with a well-formed trigger comes back from its blob, and the digest of its
source with it. The blob of any other rule is refused as invalid. -/
theorem ReviewRule.ofBlob_toBlob (rule : ReviewRule) (source : Option String)
    (small : (Blob.Record.ofRule rule
      (source.map fun text => Blake3.digest (Blob.utf8 text))).write.length < 0x100000000) :
    (rule.trigger.WellFormed →
      ofBlob (rule.toBlob source) = .ok rule ∧
        Blob.sourceDigest (rule.toBlob source)
          = .ok (source.map fun text => Blake3.digest (Blob.utf8 text))) ∧
      (¬rule.trigger.WellFormed →
        ∃ violation, ofBlob (rule.toBlob source) = .error (.invalid violation)) := by
  have stored := Blob.record_toBlob small
  obtain ⟨passes, fails⟩ :=
    Blob.toRule_ofRule rule (source.map fun text => Blake3.digest (Blob.utf8 text))
  unfold ofBlob Blob.sourceDigest
  rw [stored]
  refine ⟨fun wellFormed => ⟨?_, rfl⟩, ?_⟩
  · show (Blob.Record.toRule _).mapError Blob.BlobError.invalid = _
    rw [passes wellFormed]
    rfl
  · intro malformed
    obtain ⟨violation, failed⟩ := fails malformed
    refine ⟨violation, ?_⟩
    show (Blob.Record.toRule _).mapError Blob.BlobError.invalid = _
    rw [failed]
    rfl

/-- A rule with one condition and no actions, stored without its source. -/
theorem ReviewRule.ofBlob_toBlob_condition :
    ofBlob (toBlob ⟨⟨"", .condition ⟨.floor, .gt, .int 1⟩, 0, 0, none, .all, true, 0, []⟩,
        by decide⟩ none)
      = .ok ⟨⟨"", .condition ⟨.floor, .gt, .int 1⟩, 0, 0, none, .all, true, 0, []⟩, by decide⟩ := by
  have exact := ofBlob_toBlob
    ⟨⟨"", .condition ⟨.floor, .gt, .int 1⟩, 0, 0, none, .all, true, 0, []⟩, by decide⟩ none
    (by decide +kernel)
  exact (exact.1 ⟨by decide, by decide⟩).1

end ForumModeration
