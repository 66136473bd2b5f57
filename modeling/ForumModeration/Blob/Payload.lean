import ForumModeration.Blob.Bytes
import ForumModeration.Blob.Record

/-!
# `ForumModeration.Blob.Payload`: the bytes of a record

A record is written field by field in a fixed order. Where there is a choice, a
number in front says which of the forms follows. The reader takes the first
record of a payload and does not look at what follows it.

Data and trees nest. Every level takes up a byte, which bounds the depth of the
reader by the length of the payload.
-/

set_option autoImplicit false

namespace ForumModeration.Blob

/-- The bytes of a floating-point number. -/
def float (x : Binary64) : List UInt8 :=
  littleEndian 8 x.bits.toNat

/-- A floating-point number. -/
def float? : Reader Binary64 := do
  return ⟨.ofNat (← fixed 8)⟩

/-- A 64-bit integer. -/
def int64? : Reader Int64 := do
  return .ofInt (← signed? true)

/-- A 32-bit integer. -/
def int32? : Reader Int32 := do
  return .ofInt (← signed? false)

/-- The bytes of a 64-bit integer. -/
def int64 (i : Int64) : List UInt8 :=
  signed i.toInt

/-- The bytes of a 32-bit integer. -/
def int32 (i : Int32) : List UInt8 :=
  signed i.toInt

mutual

/-- The bytes of a datum. -/
def Datum.write : Datum → List UInt8
  | .int number => unsigned 0 ++ int64 number
  | .float number => unsigned 1 ++ Blob.float number
  | .bool b => unsigned 2 ++ truth b
  | .string s => unsigned 3 ++ text s
  | .instant seconds nanos offset =>
    unsigned 4 ++ int64 seconds ++ unsigned nanos.toNat ++ int32 offset
  | .list items => unsigned 5 ++ unsigned items.length ++ Datum.writeAll items

/-- The bytes of data, one after another. -/
def Datum.writeAll : List Datum → List UInt8
  | [] => []
  | datum :: rest => Datum.write datum ++ Datum.writeAll rest

end

/-- A datum, with the reader of the data inside it. -/
def datumWith (inner : Reader Datum) : Reader Datum := do
  match ← unsigned? false with
  | 0 => return .int (← int64?)
  | 1 => return .float (← float?)
  | 2 => return .bool (← truth?)
  | 3 => return .string (← text?)
  | 4 =>
    let seconds ← int64?
    let nanos ← unsigned? false
    let offset ← int32?
    return .instant seconds (.ofNat nanos) offset
  | 5 => return .list (← counted? inner)
  | _ => failure

/-- A datum with fewer than `depth` lists in each other. -/
def datum? : Nat → Reader Datum
  | 0, _ => none
  | depth + 1, input => datumWith (datum? depth) input

mutual

/-- The bytes of a tree. -/
def Tree.write : Tree → List UInt8
  | .condition field operator value =>
    unsigned 0 ++ text field ++ text operator ++ Datum.write value
  | .group connective children =>
    unsigned 1 ++ text connective ++ unsigned children.length ++ Tree.writeAll children

/-- The bytes of trees, one after another. -/
def Tree.writeAll : List Tree → List UInt8
  | [] => []
  | tree :: rest => Tree.write tree ++ Tree.writeAll rest

end

/-- A tree, with the readers of the data and of the trees inside it. -/
def treeWith (datum : Reader Datum) (inner : Reader Tree) : Reader Tree := do
  match ← unsigned? false with
  | 0 =>
    let field ← text?
    let operator ← text?
    return .condition field operator (← datum)
  | 1 =>
    let connective ← text?
    return .group connective (← counted? inner)
  | _ => failure

/-- A tree with fewer than `depth` groups and lists in each other. -/
def tree? : Nat → Reader Tree
  | 0, _ => none
  | depth + 1, input => treeWith (datum? (depth + 1)) (tree? depth) input

/-- The bytes of a parameter. -/
def parameter (entry : String × Datum) : List UInt8 :=
  text entry.1 ++ entry.2.write

/-- A parameter. -/
def parameter? (datum : Reader Datum) : Reader (String × Datum) := do
  let name ← text?
  return (name, ← datum)

/-- The bytes of a call. -/
def Call.write (call : Call) : List UInt8 :=
  text call.kind ++ counted parameter call.params

/-- A call. -/
def call? (datum : Reader Datum) : Reader Call := do
  let kind ← text?
  return { kind, params := ← counted? (parameter? datum) }

/-- The bytes of a record. -/
def Record.write (r : Record) : List UInt8 :=
  unsigned r.conditionCount ++ unsigned r.actionCount ++
    optional (fun digest => digest) r.sourceDigest ++
    int64 r.id ++ int64 r.fid ++ optional int64 r.forumRuleId ++ text r.target ++ text r.name ++
    truth r.enabled ++ int32 r.priority ++ r.trigger.write ++ counted Call.write r.actions

/-- A record with fewer than `depth` groups and lists in each other. -/
def record? (depth : Nat) : Reader Record := do
  let conditionCount ← unsigned? true
  let actionCount ← unsigned? true
  -- A digest has a fixed length, so nothing announces it.
  let sourceDigest ← optional? (bytes 32)
  let id ← int64?
  let fid ← int64?
  let forumRuleId ← optional? int64?
  let target ← text?
  let name ← text?
  let enabled ← truth?
  let priority ← int32?
  let trigger ← tree? depth
  let actions ← counted? (call? (datum? depth))
  return { conditionCount, actionCount, sourceDigest, id, fid, forumRuleId, target, name, enabled,
           priority, trigger, actions }

/-- The record at the start of a payload. -/
def Record.read? (payload : List UInt8) : Option Record :=
  (record? (payload.length + 1) payload).map Prod.fst

end ForumModeration.Blob
