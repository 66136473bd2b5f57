import ForumModeration.Blob
import ForumModeration.Proofs.Blob.Record

/-!
# `ForumModeration.Proofs.Blob.Damage`: what is said of damaged blobs

The checks on a blob come one after another, so what is said of damage depends on where it
is, and on nothing else. There is one lemma for each region of a blob, on what unwrapping
says if the region is overwritten, and one for a blob that is cut off. All of them come from
`unwrap_parts` and `unwrap_header`, and none of them unfolds `unwrap`.

`refused_of_damage` puts them together for the blob of a rule. A rule and the digest of its
source are both read from what is unwrapped, so both are refused with the same error.
-/

set_option autoImplicit false

namespace ForumModeration

namespace Blob

/-! ### Refusals -/

/-- Neither a rule nor the digest of a source is to be had from a blob, both for the same
reason. -/
def Refused (blob : List UInt8) (error : BlobError) : Prop :=
  ReviewRule.ofBlob blob = .error error ∧ sourceDigest blob = .error error

theorem refused_of_unwrap {blob : List UInt8} {error : BlobError}
    (h : unwrap blob = .error error) : Refused blob error := by
  have none : record blob = .error error := by
    unfold record
    rw [h]
    rfl
  constructor
  · unfold ReviewRule.ofBlob
    rw [none]
    rfl
  · unfold sourceDigest
    rw [none]
    rfl

/-- Blobs with the same payload have the same rule and the same digest. -/
theorem same_of_unwrap {blob other : List UInt8} (h : unwrap blob = unwrap other) :
    ReviewRule.ofBlob blob = ReviewRule.ofBlob other ∧ sourceDigest blob = sourceDigest other := by
  have same : record blob = record other := by
    unfold record
    rw [h]
  constructor
  · unfold ReviewRule.ofBlob
    rw [same]
  · unfold sourceDigest
    rw [same]

/-! ### Overwritten bytes -/

/-- A blob with other bytes from `start` on. -/
def overwrite (blob : List UInt8) (start : Nat) (bytes : List UInt8) : List UInt8 :=
  blob.take start ++ bytes ++ blob.drop (start + bytes.length)

theorem overwrite_append {before part bytes : List UInt8} {start : Nat}
    (starts : before.length = start) (same : bytes.length = part.length)
    (behind : List UInt8) :
    overwrite (before ++ (part ++ behind)) start bytes = before ++ (bytes ++ behind) := by
  rw [overwrite, same, ← List.drop_drop, List.take_left' starts, List.drop_left' starts,
    List.drop_left' rfl, List.append_assoc]

theorem littleEndian_ofLittleEndian (bytes : List UInt8) :
    littleEndian bytes.length (ofLittleEndian bytes) = bytes := by
  induction bytes with
  | nil => rfl
  | cons byte bytes ih =>
    have least : UInt8.ofNat (byte.toNat + 256 * ofLittleEndian bytes) = byte := by
      apply UInt8.toNat_inj.mp
      have := byte.toNat_lt
      rw [UInt8.toNat_ofNat']
      omega
    have others : (byte.toNat + 256 * ofLittleEndian bytes) / 256 = ofLittleEndian bytes := by
      have := byte.toNat_lt
      omega
    rw [List.length_cons, ofLittleEndian, littleEndian, least, others, ih]

section

variable {payload bytes : List UInt8}

/-- A blob with another mark. -/
theorem unwrap_overwrite_mark (four : bytes.length = 4)
    (change : overwrite (wrap payload) 0 bytes ≠ wrap payload) :
    unwrap (overwrite (wrap payload) 0 bytes) = .error .badMark := by
  have changed := overwrite_append (show [].length = 0 from rfl)
    (show bytes.length = mark.length from four) (littleEndian 2 formatVersion ++
      ((littleEndian 2 engineVersion ++ littleEndian 4 0) ++
        (littleEndian 4 payload.length ++ (checksum payload ++ payload))))
  rw [List.nil_append, List.nil_append, ← header_append, ← wrap] at changed
  have other : bytes ≠ mark := by
    rintro rfl
    rw [← header_append, ← wrap] at changed
    exact change changed
  rw [changed, unwrap_parts four rfl rfl (length_littleEndian ..) (length_checksum payload),
    if_pos other]

/-- A blob of another version. -/
theorem unwrap_overwrite_version (two : bytes.length = 2)
    (change : overwrite (wrap payload) 4 bytes ≠ wrap payload) :
    unwrap (overwrite (wrap payload) 4 bytes)
      = .error (.unsupportedVersion (ofLittleEndian bytes)) := by
  have changed := overwrite_append (show mark.length = 4 from rfl)
    (show bytes.length = (littleEndian 2 formatVersion).length from two)
    ((littleEndian 2 engineVersion ++ littleEndian 4 0) ++
      (littleEndian 4 payload.length ++ (checksum payload ++ payload)))
  rw [← header_append, ← wrap] at changed
  have other : ofLittleEndian bytes ≠ formatVersion := by
    intro same
    have kept : bytes = littleEndian 2 formatVersion := by
      rw [← same, ← two, littleEndian_ofLittleEndian]
    rw [kept, ← header_append, ← wrap] at changed
    exact change (kept ▸ changed)
  rw [changed, unwrap_parts rfl two rfl (length_littleEndian ..) (length_checksum payload),
    if_neg (not_not.mpr rfl), if_pos other]

/-- The bytes between the version and the length do not matter. -/
theorem unwrap_overwrite_unread (small : payload.length < 0x100000000) (six : bytes.length = 6)
    (rest : List UInt8) : unwrap (overwrite (wrap payload) 6 bytes ++ rest) = .ok payload := by
  have changed : overwrite (wrap payload) 6 bytes = mark ++ (littleEndian 2 formatVersion ++
      (bytes ++ (littleEndian 4 payload.length ++ (checksum payload ++ payload)))) := by
    rw [wrap, header_append]
    exact overwrite_append (show (mark ++ littleEndian 2 formatVersion).length = 6 from rfl)
      (show bytes.length = (littleEndian 2 engineVersion ++ littleEndian 4 0).length from six)
      (littleEndian 4 payload.length ++ (checksum payload ++ payload))
  -- The header that the blob had is as good as the one that it has now.
  have kept := unwrap_wrap small rest
  rw [wrap, List.append_assoc, header_append, unwrap_parts rfl rfl rfl (length_littleEndian ..)
    (length_checksum payload)] at kept
  rw [changed]
  simp only [List.append_assoc]
  rw [unwrap_parts rfl rfl six (length_littleEndian ..) (length_checksum payload), kept]

/-- A blob with another checksum. -/
theorem unwrap_overwrite_checksum (small : payload.length < 0x100000000)
    (sixteen : bytes.length = 16) (change : overwrite (wrap payload) 16 bytes ≠ wrap payload) :
    unwrap (overwrite (wrap payload) 16 bytes) = .error .damaged := by
  have before : (mark ++ littleEndian 2 formatVersion ++ littleEndian 2 engineVersion ++
      littleEndian 4 0 ++ littleEndian 4 payload.length).length = 16 := by
    simp [mark, length_littleEndian]
  have changed := overwrite_append before (sixteen.trans (length_checksum payload).symm) payload
  have same : wrap payload = _ := List.append_assoc _ (checksum payload) payload
  rw [← same] at changed
  have other : checksum payload ≠ bytes := by
    rintro rfl
    exact change (changed.trans same.symm)
  have announced : ofLittleEndian (littleEndian 4 payload.length) = payload.length :=
    ofLittleEndian_littleEndian small
  have parts := unwrap_parts (show mark.length = 4 from rfl) (length_littleEndian 2 formatVersion)
    (show (littleEndian 2 engineVersion ++ littleEndian 4 0).length = 6 from rfl)
    (length_littleEndian 4 payload.length) sixteen payload
  rw [announced, List.take_length, if_neg (not_not.mpr rfl), if_neg (by decide),
    if_neg (Nat.lt_irrefl _), if_pos other] at parts
  rw [changed, ← parts]
  simp only [List.append_assoc]

/-- A blob with another payload of the same length. -/
theorem unwrap_overwrite_payload (small : payload.length < 0x100000000)
    (long : bytes.length = payload.length) (other : checksum bytes ≠ checksum payload) :
    unwrap (overwrite (wrap payload) headerLength bytes) = .error .damaged := by
  have changed : overwrite (wrap payload) headerLength bytes = header payload ++ bytes := by
    have whole := overwrite_append (length_header payload) long []
    rwa [List.append_nil, List.append_nil] at whole
  rw [changed, unwrap_header small, if_neg (by omega), ← long, List.take_length, if_pos other]

/-- A blob that is cut off. -/
theorem unwrap_take (small : payload.length < 0x100000000) {count : Nat}
    (short : count < (wrap payload).length) :
    unwrap ((wrap payload).take count)
      = .error (if count < headerLength then .wrongLength headerLength count
          else .wrongLength payload.length (count - headerLength)) := by
  have length : ((wrap payload).take count).length = count := List.length_take_of_le short.le
  split
  · rename_i incomplete
    unfold unwrap
    rw [length, if_pos incomplete]
  · rename_i complete
    have cut : (wrap payload).take count
        = header payload ++ payload.take (count - headerLength) := by
      rw [wrap, List.take_append, length_header, List.take_of_length_le]
      rw [length_header]
      omega
    have present : (payload.take (count - headerLength)).length = count - headerLength := by
      rw [wrap, List.length_append, length_header] at short
      rw [List.length_take]
      omega
    rw [cut, unwrap_header small, present, if_pos]
    rw [wrap, List.length_append, length_header] at short
    omega

end

end Blob

/-- What is said of the blob of a rule that is damaged. -/
theorem ReviewRule.refused_of_damage (rule : ReviewRule) (source : Option String)
    {payload : List UInt8}
    (stored : (Blob.Record.ofRule rule
      (source.map fun text => Blake3.digest (Blob.utf8 text))).write = payload)
    (small : payload.length < 0x100000000) :
    -- The blob is cut off, in its header or behind it.
    (∀ count < (rule.toBlob source).length,
      Blob.Refused ((rule.toBlob source).take count)
        (if count < 32 then .wrongLength 32 count
          else .wrongLength payload.length (count - 32))) ∧
    -- A change within one part of the header.
    (∀ bytes, bytes.length = 4 →
      Blob.overwrite (rule.toBlob source) 0 bytes ≠ rule.toBlob source →
        Blob.Refused (Blob.overwrite (rule.toBlob source) 0 bytes) .badMark) ∧
    (∀ bytes, bytes.length = 2 →
      Blob.overwrite (rule.toBlob source) 4 bytes ≠ rule.toBlob source →
        Blob.Refused (Blob.overwrite (rule.toBlob source) 4 bytes)
          (.unsupportedVersion (Blob.ofLittleEndian bytes))) ∧
    (∀ bytes, bytes.length = 16 →
      Blob.overwrite (rule.toBlob source) 16 bytes ≠ rule.toBlob source →
        Blob.Refused (Blob.overwrite (rule.toBlob source) 16 bytes) .damaged) ∧
    -- Another payload.
    (∀ bytes, bytes.length = payload.length →
      (Blake3.digest bytes).take 16 ≠ (Blake3.digest payload).take 16 →
        Blob.Refused (Blob.overwrite (rule.toBlob source) 32 bytes) .damaged) ∧
    -- Bytes that do not matter.
    (∀ bytes rest, bytes.length = 6 →
      ofBlob (Blob.overwrite (rule.toBlob source) 6 bytes ++ rest)
          = ofBlob (rule.toBlob source) ∧
        Blob.sourceDigest (Blob.overwrite (rule.toBlob source) 6 bytes ++ rest)
          = Blob.sourceDigest (rule.toBlob source)) := by
  have wrapped : rule.toBlob source = Blob.wrap payload := by rw [toBlob, stored]
  rw [wrapped]
  refine ⟨fun count short => ?_, fun bytes four change => ?_, fun bytes two change => ?_,
    fun bytes sixteen change => ?_, fun bytes long other => ?_, fun bytes rest six => ?_⟩
  · exact Blob.refused_of_unwrap (Blob.unwrap_take small short)
  · exact Blob.refused_of_unwrap (Blob.unwrap_overwrite_mark four change)
  · exact Blob.refused_of_unwrap (Blob.unwrap_overwrite_version two change)
  · exact Blob.refused_of_unwrap (Blob.unwrap_overwrite_checksum small sixteen change)
  · exact Blob.refused_of_unwrap (Blob.unwrap_overwrite_payload small long other)
  · have own := Blob.unwrap_wrap small []
    rw [List.append_nil] at own
    exact Blob.same_of_unwrap ((Blob.unwrap_overwrite_unread small six rest).trans own.symm)

/-- The blob of a rule with one condition and no actions, without its last bytes and with
another mark. -/
theorem ReviewRule.refused_of_damage_condition :
    Blob.Refused ((toBlob ⟨⟨"", .condition ⟨.floor, .gt, .int 1⟩, 0, 0, none, .all, true, 0, []⟩,
        by decide⟩ none).take 10) (.wrongLength 32 10) ∧
      Blob.Refused (Blob.overwrite (toBlob ⟨⟨"", .condition ⟨.floor, .gt, .int 1⟩, 0, 0, none,
        .all, true, 0, []⟩, by decide⟩ none) 0 [0x4D, 0x52, 0x55, 0x4D]) .badMark := by
  obtain ⟨cut, marked, -⟩ := refused_of_damage
    ⟨⟨"", .condition ⟨.floor, .gt, .int 1⟩, 0, 0, none, .all, true, 0, []⟩, by decide⟩ none rfl
    (by decide +kernel)
  constructor
  · refine cut 10 ?_
    rw [toBlob, Blob.wrap, List.length_append, Blob.length_header]
    decide
  · refine marked [0x4D, 0x52, 0x55, 0x4D] rfl fun same => ?_
    have fourth : (0x4D : UInt8) = 0x4C := Option.some.inj (congrArg (·[3]?) same)
    exact absurd fourth (by decide)

end ForumModeration
