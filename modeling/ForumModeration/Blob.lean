import ForumModeration.Blob.Envelope
import ForumModeration.Blob.Payload

/-!
# `ForumModeration.Blob`: rules as blobs

A blob holds a rule as a record in an envelope, and on request the digest of the
text that the rule came from. A blob is read back in three steps: the envelope
is opened, the record is read, and the record is checked. The digest of the text
is to be had after the second step.
-/

set_option autoImplicit false

namespace ForumModeration

namespace Blob

/-- The record in a blob. -/
def record (blob : List UInt8) : Except BlobError Record := do
  let payload ← unwrap blob
  match Record.read? payload with
  | some record => return record
  | none => .error .unreadable

/-- The digest of the text that a blob's rule came from, if it was stored. -/
def sourceDigest (blob : List UInt8) : Except BlobError (Option (List UInt8)) := do
  return (← record blob).sourceDigest

end Blob

/-- A rule as a blob, with the digest of the text that it came from. -/
def ReviewRule.toBlob (rule : ReviewRule) (source : Option String) : List UInt8 :=
  let digest := source.map fun text => Blake3.digest (Blob.utf8 text)
  Blob.wrap (Blob.Record.ofRule rule digest).write

/-- The rule in a blob. -/
def ReviewRule.ofBlob (blob : List UInt8) : Except Blob.BlobError ReviewRule := do
  let record ← Blob.record blob
  record.toRule.mapError .invalid

end ForumModeration
