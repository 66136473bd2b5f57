import ForumModeration.Proofs.Blob.RoundTrip
import ForumModeration.Proofs.Blob.Sizes
import ForumModeration.Proofs.Compatibility

/-!
# `ForumModeration.Proofs.Blob.Loading`: what a rule from a blob can be

A record that passes the check is the record of the rule that is read from it, but for two
things: the actions of the rule have each parameter once, and the digest of the source is no
part of a rule. So the trigger is well formed (`wellFormed_of_ofBlob`), and the record of the
rule takes up no more bytes than the record it came from (`length_ofRule_le`).

A blob has room for a record of less than 4 GiB. A rule that comes from a blob fits one again,
unless the digest of a source is added to a record which leaves no room for it
(`ofBlob_toBlob_of_ofBlob`).
-/

set_option autoImplicit false

namespace ForumModeration

namespace Params

/-- Setting a parameter adds an entry and may drop another. -/
private theorem subperm_setParam (name : String) (value : Value)
    (entries : List (String × Value)) :
    (setParam name value entries).Subperm ((name, value) :: entries) := by
  induction entries with
  | nil => exact List.Subperm.refl _
  | cons entry entries ih =>
    rw [setParam]
    split
    · exact (List.Sublist.cons_cons _ (List.sublist_cons_self entry entries)).subperm
    · exact ((List.subperm_cons entry).mpr ih).trans (List.Perm.swap ..).subperm

/-- Parameters that are set one after another come out of what was set, each at most once. -/
theorem entries_ofList_subperm (set : List (String × Value)) :
    (ofList set).entries.Subperm set := by
  have inserted : ∀ (set : List (String × Value)) (start : Params),
      (start.insertAll set).entries.Subperm (start.entries ++ set) := by
    intro set
    induction set with
    | nil => exact fun start => (List.append_nil start.entries).symm ▸ List.Subperm.refl _
    | cons entry set ih =>
      intro start
      have one : (start.insert entry.1 entry.2).entries.Subperm (entry :: start.entries) :=
        subperm_setParam entry.1 entry.2 start.entries
      exact (ih _).trans (((List.subperm_append_right set).mpr one).trans
        List.perm_middle.symm.subperm)
  exact inserted set empty

end Params

namespace Blob

/-! ### Checks that pass -/

section

variable {ε α β : Type}

/-- A check of two parts passes if both do. -/
theorem bind_eq_ok {first : Except ε α} {next : α → Except ε β} {result : β} :
    first >>= next = .ok result ↔ ∃ item, first = .ok item ∧ next item = .ok result := by
  cases first with
  | error violation => exact ⟨nofun, fun ⟨_, same, _⟩ => nomatch same⟩
  | ok item => exact ⟨fun h => ⟨item, rfl, h⟩, fun ⟨_, same, h⟩ => by cases same; exact h⟩

theorem map_eq_ok {first : Except ε α} {f : α → β} {result : β} :
    f <$> first = .ok result ↔ ∃ item, first = .ok item ∧ f item = result := by
  cases first with
  | error violation => exact ⟨nofun, fun ⟨_, same, _⟩ => nomatch same⟩
  | ok item =>
    exact ⟨fun h => ⟨item, rfl, Except.ok.inj h⟩, fun ⟨_, same, h⟩ => by cases same; cases h; rfl⟩

theorem known_eq_ok {ofTag? : String → Option α} {violation : String → Violation} {tag : String}
    {item : α} : known ofTag? violation tag = .ok item ↔ ofTag? tag = some item := by
  unfold known
  cases ofTag? tag with
  | none => exact ⟨nofun, nofun⟩
  | some found => rw [Except.ok.injEq, Option.some.injEq]

theorem mapError_eq_ok {ε' : Type} {checked : Except ε α} {f : ε → ε'} {result : α} :
    checked.mapError f = .ok result ↔ checked = .ok result := by
  cases checked with
  | error error => exact ⟨nofun, nofun⟩
  | ok item => exact ⟨fun h => congrArg Except.ok (Except.ok.inj h), fun h => congrArg _ h⟩

/-- What is checked one after another passes one by one. -/
theorem forall₂_of_mapM {check : α → Except ε β} {items : List α} {results : List β}
    (passed : items.mapM check = .ok results) :
    List.Forall₂ (fun item result => check item = .ok result) items results := by
  induction items generalizing results with
  | nil =>
    cases passed
    exact .nil
  | cons item items ih =>
    rw [List.mapM_cons] at passed
    obtain ⟨result, one, more⟩ := bind_eq_ok.mp passed
    obtain ⟨others, rest, last⟩ := bind_eq_ok.mp more
    cases last
    exact .cons one (ih rest)

end

/-! ### Values and triggers -/

/-- An instant that passes the check has the numbers that are stored. -/
theorem instant_eq_ok {seconds : Int64} {nanos : UInt32} {offset : Int32} {time : Instant}
    (passed : instant seconds nanos offset = .ok time) :
    Datum.ofValue (.instant time) = .instant seconds nanos offset := by
  unfold instant at passed
  split at passed
  · cases passed
  rename_i o inRange
  split at passed
  · cases passed
  rename_i t pointOfTime
  cases passed
  unfold Offset.ofSeconds? at inRange
  split at inRange
  swap
  · cases inRange
  cases inRange
  unfold Instant.ofUnix? at pointOfTime
  split at pointOfTime
  swap
  · cases pointOfTime
  cases pointOfTime
  rw [Datum.ofValue, Int64.ofInt_toInt, UInt32.ofNat_toNat, Int32.ofInt_toInt]

mutual

/-- A datum that passes the check is stored for the value that is read. -/
theorem ofValue_of_toValue : ∀ {datum : Datum} {value : Value},
    datum.toValue = .ok value → Datum.ofValue value = datum
  | .int _, _, rfl => rfl
  | .float _, _, rfl => rfl
  | .bool _, _, rfl => rfl
  | .string _, _, rfl => rfl
  | .instant seconds nanos offset, value, passed => by
    obtain ⟨time, made, rfl⟩ := map_eq_ok.mp passed
    exact instant_eq_ok made
  | .list items, value, passed => by
    obtain ⟨values, made, rfl⟩ := map_eq_ok.mp passed
    rw [Datum.ofValue, ofValues_of_toValues made]

theorem ofValues_of_toValues : ∀ {data : List Datum} {values : List Value},
    Datum.toValues data = .ok values → Datum.ofValues values = data
  | [], _, rfl => rfl
  | datum :: rest, _, passed => by
    obtain ⟨value, one, more⟩ := bind_eq_ok.mp passed
    obtain ⟨values, others, last⟩ := bind_eq_ok.mp more
    cases last
    rw [Datum.ofValues, ofValue_of_toValue one, ofValues_of_toValues others]

end

/-- A condition that passes the check has the tags and the datum that are stored. -/
theorem condition_eq_ok {fieldTag operatorTag : String} {datum : Datum} {c : Condition}
    (passed : condition fieldTag operatorTag datum = .ok c) :
    Tree.ofTrigger (.condition c) = .condition fieldTag operatorTag datum := by
  obtain ⟨field, fieldKnown, passed⟩ := bind_eq_ok.mp passed
  obtain ⟨operator, operatorKnown, passed⟩ := bind_eq_ok.mp passed
  obtain ⟨value, read, passed⟩ := bind_eq_ok.mp passed
  split at passed
  · cases passed
  cases passed
  rw [Tree.ofTrigger, Field.tag_of_ofTag? (known_eq_ok.mp fieldKnown),
    Operator.tag_of_ofTag? (known_eq_ok.mp operatorKnown), ofValue_of_toValue read]

mutual

/-- A tree that passes the check is stored for the trigger that is read. -/
theorem ofTrigger_of_toTrigger : ∀ {tree : Tree} {trigger : Trigger},
    tree.toTrigger = .ok trigger → Tree.ofTrigger trigger = tree
  | .condition _ _ _, _, passed => by
    obtain ⟨c, made, rfl⟩ := map_eq_ok.mp passed
    exact condition_eq_ok made
  | .group _ _, _, passed => by
    obtain ⟨connective, known_, passed⟩ := bind_eq_ok.mp passed
    split at passed
    swap
    · cases passed
    obtain ⟨triggers, made, rfl⟩ := map_eq_ok.mp passed
    rw [Tree.ofTrigger, Connective.tag_of_ofTag? (known_eq_ok.mp known_),
      ofTriggers_of_toTriggers made]

theorem ofTriggers_of_toTriggers : ∀ {trees : List Tree} {triggers : List Trigger},
    Tree.toTriggers trees = .ok triggers → Tree.ofTriggers triggers = trees
  | [], _, rfl => rfl
  | _ :: _, _, passed => by
    obtain ⟨trigger, one, more⟩ := bind_eq_ok.mp passed
    obtain ⟨triggers, others, last⟩ := bind_eq_ok.mp more
    cases last
    rw [Tree.ofTriggers, ofTrigger_of_toTrigger one, ofTriggers_of_toTriggers others]

end

/-- A trigger that is read from a tree is well formed. -/
theorem wellFormed_of_toTrigger {tree : Tree} {trigger : Trigger}
    (passed : tree.toTrigger = .ok trigger) : trigger.WellFormed := by
  rw [← ofTrigger_of_toTrigger passed] at passed
  exact (toTrigger_eq_ok_iff.mp passed).2

/-! ### Actions -/

/-- What is stored of an entry. -/
private def stored (entry : String × Value) : String × Datum :=
  (entry.1, .ofValue entry.2)

/-- Parameters that pass the check are stored for the entries that are read. -/
private theorem eq_map_stored {params : List (String × Datum)} {set : List (String × Value)}
    (passed : params.mapM (fun (name, datum) => do
      return (name, ← datum.toValue)) = Except.ok (ε := Violation) set) :
    params = set.map stored := by
  have each := forall₂_of_mapM passed
  clear passed
  induction each with
  | nil => rfl
  | cons read _ ih =>
    obtain ⟨value, made, same⟩ := bind_eq_ok.mp read
    cases same
    rw [List.map_cons, stored, ofValue_of_toValue made, ← ih]

/-- An action takes up no more bytes than the call it is read from, where a parameter may
be set more than once. -/
theorem length_ofAction_le {call : Call} {action : Action} (passed : call.toAction = .ok action) :
    (Call.ofAction action).write.length ≤ call.write.length := by
  obtain ⟨kind, kindKnown, passed⟩ := bind_eq_ok.mp passed
  obtain ⟨set, all, made⟩ := bind_eq_ok.mp passed
  cases made
  obtain ⟨kept, perm, sublist⟩ := Params.entries_ofList_subperm set
  have same : (kept.map stored).Perm ((Params.ofList set).entries.map stored) := perm.map stored
  have params : (kept.map stored).Sublist call.params := eq_map_stored all ▸ sublist.map stored
  have count := length_unsigned_mono params.length_le
  have contents := (params.flatMap parameter).length_le
  have tag : kind.tag = call.kind := ActionKind.tag_of_ofTag? (known_eq_ok.mp kindKnown)
  rw [same.length_eq] at count
  rw [(same.flatMap fun _ _ => .refl _).length_eq] at contents
  rw [length_call, length_call]
  show (text kind.tag).length + ((unsigned ((Params.ofList set).entries.map stored).length).length
    + (((Params.ofList set).entries.map stored).flatMap parameter).length) ≤ _
  rw [tag]
  omega

/-- Actions take up no more bytes than the calls they are read from. -/
theorem length_ofActions_le {calls : List Call} {actions : List Action}
    (passed : calls.mapM Call.toAction = .ok actions) :
    (counted Call.write (actions.map Call.ofAction)).length
      ≤ (counted Call.write calls).length := by
  have all : calls.length = actions.length ∧
      ((actions.map Call.ofAction).flatMap Call.write).length
        ≤ (calls.flatMap Call.write).length := by
    have each := forall₂_of_mapM passed
    clear passed
    induction each with
    | nil => exact ⟨rfl, Nat.le_refl _⟩
    | cons one _ ih =>
      have := length_ofAction_le one
      simp only [List.map_cons, List.flatMap_cons, List.length_append, List.length_cons]
      omega
  rw [counted, counted, List.length_append, List.length_append, List.length_map, ← all.1]
  omega

/-! ### Records -/

/-- A record that passes the check is stored for the rule that is read, but for the actions.
The trigger of the rule is well formed. -/
theorem toRule_eq_ok {record : Record} {rule : ReviewRule} (passed : record.toRule = .ok rule) :
    rule.trigger.WellFormed ∧ record.actions.mapM Call.toAction = .ok rule.actions ∧
      Record.ofRule rule record.sourceDigest
        = { record with actions := rule.actions.map .ofAction } := by
  obtain ⟨target, targetKnown, passed⟩ := bind_eq_ok.mp passed
  obtain ⟨trigger, read, passed⟩ := bind_eq_ok.mp passed
  obtain ⟨actions, called, passed⟩ := bind_eq_ok.mp passed
  dsimp only at passed
  split at passed
  · cases passed
  rename_i conditionCount
  split at passed
  · cases passed
  rename_i actionCount
  rw [not_not] at conditionCount actionCount
  -- Both counts are right, so what is left is to build the rule from its draft.
  have draft := Draft.toDraft_of_build (mapError_eq_ok.mp passed)
  refine ⟨?_, ?_, ?_⟩
  · rw [draft]
    exact wellFormed_of_toTrigger read
  · rw [draft]
    exact called
  · rw [Record.ofRule, draft]
    simp only [← conditionCount, ← actionCount, ofTrigger_of_toTrigger read,
      Target.tag_of_ofTag? (known_eq_ok.mp targetKnown)]

/-- The record of a rule takes up no more bytes than the record it is read from. -/
theorem length_ofRule_le {record : Record} {rule : ReviewRule}
    (passed : record.toRule = .ok rule) :
    (Record.ofRule rule record.sourceDigest).write.length ≤ record.write.length := by
  obtain ⟨-, called, same⟩ := toRule_eq_ok passed
  have actions := length_ofActions_le called
  rw [same]
  simp only [Record.write, List.length_append]
  omega

/-- A record takes up the bytes of the digest that is added to it. -/
theorem length_ofRule_digest (rule : ReviewRule) (digest : List UInt8) :
    (Record.ofRule rule (some digest)).write.length
      = (Record.ofRule rule none).write.length + digest.length := by
  simp only [Record.write, Record.ofRule, optional, truth, List.length_append, List.length_cons,
    List.length_nil]
  omega

/-! ### Blobs -/

/-- The length of the payload that a blob announces. -/
def announced (blob : List UInt8) : Nat :=
  ofLittleEndian (slice blob 12 4)

theorem announced_lt (blob : List UInt8) : announced blob < 0x100000000 := by
  have four : (slice blob 12 4).length ≤ 4 := List.length_take_le ..
  calc announced blob < 256 ^ (slice blob 12 4).length := ofLittleEndian_lt _
    _ ≤ 256 ^ 4 := Nat.pow_le_pow_right (by decide) four
    _ = 0x100000000 := rfl

/-- The payload of a blob is as long as it was announced, and the header comes before it. -/
theorem length_of_unwrap {blob payload : List UInt8} (h : unwrap blob = .ok payload) :
    payload.length = announced blob ∧ headerLength + payload.length ≤ blob.length := by
  unfold unwrap at h
  split at h
  · cases h
  rename_i long
  split at h
  · cases h
  dsimp only at h
  split at h
  · cases h
  split at h
  · cases h
  rename_i present
  split at h
  · cases h
  cases h
  have length : (slice blob headerLength (announced blob)).length = announced blob := by
    rw [slice, List.length_take, List.length_drop]
    exact Nat.min_eq_left (Nat.le_of_not_lt present)
  rw [← announced, length]
  exact ⟨rfl, by rw [← announced] at present; omega⟩

theorem ofBlob_eq_ok {blob : List UInt8} {rule : ReviewRule} :
    ReviewRule.ofBlob blob = .ok rule ↔
      ∃ r, record blob = .ok r ∧ r.toRule = .ok rule := by
  unfold ReviewRule.ofBlob
  rw [bind_eq_ok]
  simp only [mapError_eq_ok]

theorem record_eq_ok {blob : List UInt8} {r : Record} :
    record blob = .ok r ↔
      ∃ payload, unwrap blob = .ok payload ∧ Record.read? payload = some r := by
  unfold record
  rw [bind_eq_ok]
  refine exists_congr fun payload => and_congr_right fun _ => ?_
  cases Record.read? payload with
  | none => exact ⟨nofun, nofun⟩
  | some found => exact ⟨fun h => congrArg some (Except.ok.inj h), fun h => by cases h; rfl⟩

/-- The trigger of a rule that comes from a blob is well formed. -/
theorem wellFormed_of_ofBlob {blob : List UInt8} {rule : ReviewRule}
    (loaded : ReviewRule.ofBlob blob = .ok rule) : rule.trigger.WellFormed := by
  obtain ⟨r, -, passed⟩ := ofBlob_eq_ok.mp loaded
  exact (toRule_eq_ok passed).1

/-- The digest of the source of a rule that comes from a blob is to be had. -/
theorem sourceDigest_of_ofBlob {blob : List UInt8} {rule : ReviewRule}
    (loaded : ReviewRule.ofBlob blob = .ok rule) : ∃ digest, sourceDigest blob = .ok digest := by
  obtain ⟨r, found, -⟩ := ofBlob_eq_ok.mp loaded
  exact ⟨r.sourceDigest, bind_eq_ok.mpr ⟨r, found, rfl⟩⟩

/-- Without a source, the record of a rule that comes from a blob is no longer than the
payload was. -/
theorem length_ofRule_le_announced {blob : List UInt8} {rule : ReviewRule}
    (loaded : ReviewRule.ofBlob blob = .ok rule) :
    (Record.ofRule rule none).write.length ≤ announced blob ∧
      headerLength + announced blob ≤ blob.length := by
  obtain ⟨r, found, passed⟩ := ofBlob_eq_ok.mp loaded
  obtain ⟨payload, opened, read⟩ := record_eq_ok.mp found
  obtain ⟨length, within⟩ := length_of_unwrap opened
  have own := length_ofRule_le passed
  have whole := length_write_le_of_read? read
  have without : (Record.ofRule rule none).write.length
      ≤ (Record.ofRule rule r.sourceDigest).write.length := by
    cases r.sourceDigest with
    | none => exact Nat.le_refl _
    | some digest =>
      rw [length_ofRule_digest]
      exact Nat.le_add_right _ _
  rw [← length]
  exact ⟨by omega, within⟩

theorem ofLittleEndian_littleEndian_mod (count n : Nat) :
    ofLittleEndian (littleEndian count n) = n % 256 ^ count := by
  induction count generalizing n with
  | zero => rw [Nat.pow_zero, Nat.mod_one]; rfl
  | succ count ih =>
    have bytes : 256 ^ (count + 1) = 256 * 256 ^ count := Nat.pow_succ'
    rw [littleEndian, ofLittleEndian, ih, UInt8.toNat_ofNat', bytes, Nat.mod_mul]

theorem length_wrap (payload : List UInt8) :
    (wrap payload).length = headerLength + payload.length := by
  rw [wrap, List.length_append, length_header]

theorem announced_wrap (payload : List UInt8) :
    announced (wrap payload) = payload.length % 0x100000000 := by
  have bytes : wrap payload = [0x4D, 0x52, 0x55, 0x4C, 1, 0, 1, 0, 0, 0, 0, 0] ++
      (littleEndian 4 payload.length ++ (checksum payload ++ payload)) := by
    simp [wrap, header, mark, formatVersion, engineVersion, littleEndian]
  have taken : slice (wrap payload) 12 4 = littleEndian 4 payload.length := by
    rw [bytes, slice, List.drop_left' (by rfl), List.take_left' (length_littleEndian ..)]
  rw [announced, taken, ofLittleEndian_littleEndian_mod]
  rfl

end Blob

/-- A rule with a well-formed trigger comes back from its blob exactly if its record takes up
less than 4 GiB. -/
theorem ReviewRule.ofBlob_toBlob_iff {rule : ReviewRule} (wellFormed : rule.trigger.WellFormed)
    (source : Option String) :
    ofBlob (rule.toBlob source) = .ok rule ↔
      (Blob.Record.ofRule rule
        (source.map fun text => Blake3.digest (Blob.utf8 text))).write.length < 0x100000000 := by
  constructor
  · intro loaded
    -- A header of a longer record would announce so little that the rule is not in it.
    have fits := (Blob.length_ofRule_le_announced loaded).1
    rw [toBlob, Blob.announced_wrap] at fits
    cases source with
    | none =>
      have := Nat.mod_lt (Blob.Record.ofRule rule none).write.length
        (show 0 < 0x100000000 by decide)
      exact Nat.lt_of_le_of_lt fits this
    | some text =>
      have digest := Blob.length_ofRule_digest rule (Blake3.digest (Blob.utf8 text))
      rw [Blake3.length_digest] at digest
      simp only [Option.map_some] at fits ⊢
      omega
  · intro small
    exact Blob.ofBlob_eq_ok.mpr
      ⟨_, Blob.record_toBlob small, (Blob.toRule_ofRule rule _).1 wellFormed⟩

/-- A rule that comes from a blob comes back from its own, if no source is added or if the
first blob was shorter than 4 GiB. -/
theorem ReviewRule.ofBlob_toBlob_of_ofBlob {blob : List UInt8} {rule : ReviewRule}
    (loaded : ofBlob blob = .ok rule) {source : Option String}
    (h : source = none ∨ blob.length < 0x100000000) :
    ofBlob (rule.toBlob source) = .ok rule := by
  rw [ofBlob_toBlob_iff (Blob.wellFormed_of_ofBlob loaded)]
  obtain ⟨own, within⟩ := Blob.length_ofRule_le_announced loaded
  have small := Blob.announced_lt blob
  cases source with
  | none => exact Nat.lt_of_le_of_lt own small
  | some text =>
    have short : blob.length < 0x100000000 := h.resolve_left nofun
    have digest := Blob.length_ofRule_digest rule (Blake3.digest (Blob.utf8 text))
    rw [Blake3.length_digest] at digest
    rw [show Blob.headerLength = 32 from rfl] at within
    rw [Option.map_some, digest]
    omega

end ForumModeration
