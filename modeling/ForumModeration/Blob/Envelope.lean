import ForumModeration.Blob.Bytes
import ForumModeration.Blob.Record
import ForumModeration.Digest.Blake3

/-!
# `ForumModeration.Blob.Envelope`: the header of a blob

A payload is wrapped behind a header of 32 bytes: four bytes that mark the
format, the versions of the format and of the engine in two bytes each, four
reserved bytes, the length of the payload in four bytes and the first sixteen
bytes of its digest. Numbers have the least significant byte first.

Unwrapping a blob checks, in this order, that there is a header, the mark, the
version of the format, that the payload is complete, and the digest. The version
of the engine, the reserved bytes and what follows the payload do not matter.

* `unwrap_parts`: what unwrapping says of a blob with a whole header, part by part.
* `unwrap_header`: what it says of what follows the header of a payload.
* `unwrap_wrap`: a wrapped payload unwraps again, whatever follows it.
-/

set_option autoImplicit false

namespace ForumModeration.Blob

/-- Why no rule is read from a blob. -/
inductive BlobError where
  | badMark
  | unsupportedVersion (version : Nat)
  | damaged
  | wrongLength (expected actual : Nat)
  | unreadable
  | invalid (violation : Violation)
deriving DecidableEq, Repr

/-- The supported version of the format. -/
def formatVersion : Nat := 1

/-- What is said of a blob from which no rule is read. -/
def BlobError.message : BlobError → String
  | badMark => "not a modrule binary: invalid magic bytes"
  | unsupportedVersion version =>
    "incompatible format version: blob is v" ++ Text.decimal version ++ ", engine supports v" ++
      Text.decimal formatVersion
  | damaged => "integrity check failed: BLAKE3 checksum mismatch"
  | wrongLength expected actual =>
    "payload length mismatch: expected " ++ Text.decimal expected ++ " bytes, got " ++
      Text.decimal actual
  | unreadable => "failed to decode payload"
  | invalid violation => "validation failed: " ++ violation.message

/-- The bytes that mark the format. -/
def mark : List UInt8 := [0x4D, 0x52, 0x55, 0x4C]

/-- The version of the engine. -/
def engineVersion : Nat := 1

/-- How many bytes a header has. -/
def headerLength : Nat := 32

/-- The part of a payload's digest that is stored. -/
def checksum (payload : List UInt8) : List UInt8 :=
  (Blake3.digest payload).take 16

/-- The header of a payload. -/
def header (payload : List UInt8) : List UInt8 :=
  mark ++ littleEndian 2 formatVersion ++ littleEndian 2 engineVersion ++ littleEndian 4 0 ++
    littleEndian 4 payload.length ++ checksum payload

/-- The blob of a payload. -/
def wrap (payload : List UInt8) : List UInt8 :=
  header payload ++ payload

/-- The bytes of a blob from `start` on, `count` of them. -/
def slice (blob : List UInt8) (start count : Nat) : List UInt8 :=
  (blob.drop start).take count

/-- The payload of a blob. -/
def unwrap (blob : List UInt8) : Except BlobError (List UInt8) :=
  if blob.length < headerLength then .error (.wrongLength headerLength blob.length)
  else if slice blob 0 4 ≠ mark then .error .badMark
  else
    let version := ofLittleEndian (slice blob 4 2)
    if version ≠ formatVersion then .error (.unsupportedVersion version)
    else
      let length := ofLittleEndian (slice blob 12 4)
      -- Bytes after the payload are no fault, too few of them are.
      let present := blob.length - headerLength
      if present < length then .error (.wrongLength length present)
      else
        let payload := slice blob headerLength length
        if checksum payload ≠ slice blob 16 16 then .error .damaged else .ok payload

theorem length_checksum (payload : List UInt8) : (checksum payload).length = 16 := by
  simp [checksum, Blake3.length_digest]

theorem length_header (payload : List UInt8) : (header payload).length = headerLength := by
  simp [header, mark, headerLength, length_littleEndian, length_checksum]

/-- A slice that starts where one part ends and takes the next is the next. -/
theorem slice_append {before part : List UInt8} {start count : Nat} (starts : before.length = start)
    (ends : part.length = count) (behind : List UInt8) :
    slice (before ++ (part ++ behind)) start count = part := by
  rw [slice, List.drop_left' starts, List.take_left' ends]

/-- A blob that is long enough for a header is checked part by part. -/
theorem unwrap_parts {first version unread length sum : List UInt8} (firstFour : first.length = 4)
    (versionTwo : version.length = 2) (unreadSix : unread.length = 6)
    (lengthFour : length.length = 4) (sumSixteen : sum.length = 16) (contents : List UInt8) :
    unwrap (first ++ (version ++ (unread ++ (length ++ (sum ++ contents)))))
      = if first ≠ mark then .error .badMark
        else if ofLittleEndian version ≠ formatVersion then
          .error (.unsupportedVersion (ofLittleEndian version))
        else if contents.length < ofLittleEndian length then
          .error (.wrongLength (ofLittleEndian length) contents.length)
        else if checksum (contents.take (ofLittleEndian length)) ≠ sum then .error .damaged
        else .ok (contents.take (ofLittleEndian length)) := by
  generalize whole : first ++ (version ++ (unread ++ (length ++ (sum ++ contents)))) = blob
  have twelve : (first ++ (version ++ unread)).length = 12 := by
    simp only [List.length_append]
    omega
  have sixteen : (first ++ (version ++ (unread ++ length))).length = 16 := by
    simp only [List.length_append]
    omega
  have thirtyTwo : (first ++ (version ++ (unread ++ (length ++ sum)))).length = headerLength := by
    simp only [List.length_append, headerLength]
    omega
  have at0 : slice blob 0 4 = first :=
    whole ▸ slice_append (show [].length = 0 from rfl) firstFour _
  have at4 : slice blob 4 2 = version := whole ▸ slice_append firstFour versionTwo _
  have at12 : slice blob 12 4 = length := by
    simpa only [List.append_assoc, whole] using slice_append twelve lengthFour (sum ++ contents)
  have at16 : slice blob 16 16 = sum := by
    simpa only [List.append_assoc, whole] using slice_append sixteen sumSixteen contents
  have behind : blob.drop headerLength = contents := by
    have cut : ((first ++ (version ++ (unread ++ (length ++ sum)))) ++ contents).drop headerLength
        = contents := List.drop_left' thirtyTwo
    simpa only [List.append_assoc, whole] using cut
  have size : blob.length = headerLength + contents.length := by
    rw [← whole, ← thirtyTwo]
    simp only [List.length_append]
    omega
  unfold unwrap
  simp only [size, at0, at4, at12, at16, Nat.add_sub_cancel_left]
  rw [if_neg (by omega)]
  simp only [slice, behind]

/-- A header with its parts in order, and what follows it. -/
theorem header_append (payload contents : List UInt8) :
    header payload ++ contents = mark ++ (littleEndian 2 formatVersion ++
      ((littleEndian 2 engineVersion ++ littleEndian 4 0) ++
        (littleEndian 4 payload.length ++ (checksum payload ++ contents)))) := by
  simp only [header, List.append_assoc]

/-- What follows the header of a payload of less than 4 GiB has to be as long as the payload
and to have the same checksum. -/
theorem unwrap_header {payload : List UInt8} (small : payload.length < 0x100000000)
    (contents : List UInt8) :
    unwrap (header payload ++ contents)
      = if contents.length < payload.length then
          .error (.wrongLength payload.length contents.length)
        else if checksum (contents.take payload.length) ≠ checksum payload then .error .damaged
        else .ok (contents.take payload.length) := by
  have announced : ofLittleEndian (littleEndian 4 payload.length) = payload.length :=
    ofLittleEndian_littleEndian small
  have version : ofLittleEndian (littleEndian 2 formatVersion) = formatVersion := by decide
  rw [header_append, unwrap_parts rfl rfl rfl (length_littleEndian ..) (length_checksum payload),
    announced, version]
  simp only [ne_eq, not_true, if_false]

/-- A payload of less than 4 GiB unwraps again, whatever follows it. -/
theorem unwrap_wrap {payload : List UInt8} (h : payload.length < 0x100000000)
    (rest : List UInt8) : unwrap (wrap payload ++ rest) = .ok payload := by
  have complete : ¬(payload ++ rest).length < payload.length := by simp
  rw [wrap, List.append_assoc, unwrap_header h, if_neg complete, List.take_left,
    if_neg (fun differs => differs rfl)]

end ForumModeration.Blob
