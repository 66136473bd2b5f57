/-!
# `ForumModeration.Blob.Bytes`: numbers and texts in bytes

The bytes of a record follow one another without marks between them, so every
item has to tell where it ends. Natural numbers below 251 are one byte; larger
ones are a byte that announces how many bytes follow, least significant first.
The reader also takes numbers that are written longer than they have to be.
Integers are mapped to natural numbers with the sign in the lowest bit.

* `reads_unsigned`, `reads_signed`, `reads_text`: what is written reads back, and
  what follows it is left.
-/

set_option autoImplicit false

namespace ForumModeration.Blob

/-- A reader of bytes, which leaves the rest. -/
abbrev Reader (α : Type) : Type := StateT (List UInt8) Option α

/-- A reader gives an item for some bytes, whatever follows them. -/
def Reads {α : Type} (reader : Reader α) (bytes : List UInt8) (item : α) : Prop :=
  ∀ rest, reader (bytes ++ rest) = some (item, rest)

theorem Reads.pure {α : Type} (item : α) : Reads (Pure.pure item) [] item :=
  fun _ => rfl

theorem Reads.bind {α β : Type} {reader : Reader α} {next : α → Reader β}
    {bytes further : List UInt8} {item : α} {result : β} (first : Reads reader bytes item)
    (second : Reads (next item) further result) :
    Reads (reader >>= next) (bytes ++ further) result := by
  intro rest
  rw [List.append_assoc]
  change (reader (bytes ++ (further ++ rest))).bind (fun (a, r) => next a r) = _
  rw [first (further ++ rest)]
  exact second rest

/-- The next byte. -/
def byte : Reader UInt8
  | [] => none
  | b :: rest => some (b, rest)

/-- A number of bytes. -/
def bytes (count : Nat) : Reader (List UInt8) := fun input =>
  if input.length < count then none else some (input.take count, input.drop count)

theorem reads_bytes (items : List UInt8) : Reads (bytes items.length) items items := by
  intro rest
  simp [bytes]

/-- The lowest bytes of a number, the least significant first. -/
def littleEndian : Nat → Nat → List UInt8
  | 0, _ => []
  | count + 1, n => UInt8.ofNat n :: littleEndian count (n / 256)

/-- The number that bytes make up, the least significant first. -/
def ofLittleEndian : List UInt8 → Nat
  | [] => 0
  | b :: rest => b.toNat + 256 * ofLittleEndian rest

theorem length_littleEndian (count n : Nat) : (littleEndian count n).length = count := by
  induction count generalizing n with
  | zero => rfl
  | succ count ih => simp [littleEndian, ih]

theorem ofLittleEndian_littleEndian {count n : Nat} (h : n < Nat.pow 256 count) :
    ofLittleEndian (littleEndian count n) = n := by
  induction count generalizing n with
  | zero => simp_all [littleEndian, ofLittleEndian]
  | succ count ih =>
    have : n / 256 < Nat.pow 256 count := (Nat.div_lt_iff_lt_mul (by decide)).2 h
    rw [littleEndian, ofLittleEndian, ih this, UInt8.toNat_ofNat']
    omega

/-- A number of a fixed count of bytes. -/
def fixed (count : Nat) : Reader Nat :=
  ofLittleEndian <$> bytes count

theorem reads_fixed {count n : Nat} (h : n < Nat.pow 256 count) :
    Reads (fixed count) (littleEndian count n) n := by
  intro rest
  have read := reads_bytes (littleEndian count n) rest
  rw [length_littleEndian] at read
  change (bytes count _).bind (fun (a, r) => some (ofLittleEndian a, r)) = _
  rw [read]
  simp [ofLittleEndian_littleEndian h]

/-! ### Natural numbers and integers -/

/-- A natural number in as few bytes as it needs. -/
def unsigned (n : Nat) : List UInt8 :=
  if n < 251 then [.ofNat n]
  else if n < 0x10000 then 251 :: littleEndian 2 n
  else if n < 0x100000000 then 252 :: littleEndian 4 n
  else 253 :: littleEndian 8 n

/-- A natural number, of more than 32 bits only where it may be `wide`. -/
def unsigned? (wide : Bool) : Reader Nat := do
  let first ← byte
  if first < 251 then return first.toNat
  else if first = 251 then fixed 2
  else if first = 252 then fixed 4
  else if first = 253 && wide then fixed 8
  else failure

/-- The numbers that are read where they may be `wide`. -/
def bound (wide : Bool) : Nat :=
  if wide then 0x10000000000000000 else 0x100000000

private theorem reads_announced {wide : Bool} {n count : Nat} {mark : UInt8}
    (announced : ∀ rest, unsigned? wide (mark :: rest) = fixed count rest)
    (h : n < Nat.pow 256 count) : Reads (unsigned? wide) (mark :: littleEndian count n) n := by
  intro rest
  rw [List.cons_append, announced]
  exact reads_fixed h rest

theorem reads_unsigned {wide : Bool} {n : Nat} (h : n < bound wide) :
    Reads (unsigned? wide) (unsigned n) n := by
  unfold unsigned
  split
  · rename_i small
    intro rest
    -- A number below 251 is its own byte and announces nothing.
    have lt : UInt8.ofNat n < 251 := by
      rw [UInt8.lt_iff_toNat_lt, UInt8.toNat_ofNat']
      exact (Nat.mod_eq_of_lt (by omega : n < 256)).symm ▸ small
    change (if UInt8.ofNat n < 251 then pure (UInt8.ofNat n).toNat else _ : Reader Nat) rest = _
    rw [if_pos lt, UInt8.toNat_ofNat', Nat.mod_eq_of_lt (by omega)]
    rfl
  split
  · exact reads_announced (fun _ => rfl) (by omega)
  split
  · exact reads_announced (fun _ => rfl) (by omega)
  · cases wide with
    | false => exact absurd h ‹_›
    | true => exact reads_announced (fun _ => rfl) h

/-- An integer as a natural number with its sign in the lowest bit. -/
def zigzag : Int → Nat
  | .ofNat n => 2 * n
  | .negSucc n => 2 * n + 1

/-- The integer whose sign is in the lowest bit of a natural number. -/
def ofZigzag (n : Nat) : Int :=
  if n % 2 = 0 then .ofNat (n / 2) else .negSucc (n / 2)

theorem ofZigzag_zigzag (i : Int) : ofZigzag (zigzag i) = i := by
  cases i with
  | ofNat n => simp [zigzag, ofZigzag]
  | negSucc n =>
    have half : (2 * n + 1) / 2 = n := by omega
    simp [zigzag, ofZigzag, half]

/-- An integer. -/
def signed (i : Int) : List UInt8 :=
  unsigned (zigzag i)

/-- An integer, of more than 32 bits only where it may be `wide`. -/
def signed? (wide : Bool) : Reader Int :=
  ofZigzag <$> unsigned? wide

theorem reads_signed {wide : Bool} {i : Int} (h : zigzag i < bound wide) :
    Reads (signed? wide) (signed i) i := by
  intro rest
  change (unsigned? wide _).bind (fun (n, r) => some (ofZigzag n, r)) = _
  rw [signed, reads_unsigned h rest]
  simp [ofZigzag_zigzag]

/-! ### Other items -/

/-- A truth value. -/
def truth (b : Bool) : List UInt8 :=
  [if b then 1 else 0]

/-- A truth value, which is 0 or 1. -/
def truth? : Reader Bool := do
  let b ← byte
  if b = 0 then return false
  else if b = 1 then return true
  else failure

theorem reads_truth (b : Bool) : Reads truth? (truth b) b := by
  cases b <;> exact fun _ => rfl

/-- An item that may be missing. -/
def optional {α : Type} (write : α → List UInt8) : Option α → List UInt8
  | none => truth false
  | some item => truth true ++ write item

/-- An item that may be missing. -/
def optional? {α : Type} (reader : Reader α) : Reader (Option α) := do
  if ← truth? then return some (← reader) else return none

/-- The given number of items. -/
def times {α : Type} (reader : Reader α) : Nat → Reader (List α)
  | 0 => return []
  | count + 1 => do
    let item ← reader
    return item :: (← times reader count)

/-- Items with their number in front of them. -/
def counted {α : Type} (write : α → List UInt8) (items : List α) : List UInt8 :=
  unsigned items.length ++ items.flatMap write

/-- Items with their number in front of them. -/
def counted? {α : Type} (reader : Reader α) : Reader (List α) := do
  times reader (← unsigned? true)

/-- The bytes of a text in UTF-8. -/
def utf8 (text : String) : List UInt8 :=
  text.toUTF8.data.toList

/-- The text that bytes are in UTF-8. -/
def ofUtf8? (bytes : List UInt8) : Option String :=
  String.fromUTF8? ⟨bytes.toArray⟩

theorem ofUtf8?_utf8 (text : String) : ofUtf8? (utf8 text) = some text := by
  simp only [ofUtf8?, utf8, Array.toArray_toList]
  exact dif_pos text.isValidUTF8

/-- A text with the number of its bytes in front of it. -/
def text (s : String) : List UInt8 :=
  unsigned (utf8 s).length ++ utf8 s

/-- A text with the number of its bytes in front of it. -/
def text? : Reader String := do
  let count ← unsigned? true
  let contents ← bytes count
  match ofUtf8? contents with
  | some s => return s
  | none => failure

theorem reads_text {s : String} (h : (utf8 s).length < 0x10000000000000000) :
    Reads text? (text s) s := by
  refine (reads_unsigned h).bind ?_
  rw [← List.append_nil (utf8 s)]
  refine Reads.bind (by simpa using reads_bytes (utf8 s)) ?_
  simp only [ofUtf8?_utf8]
  exact .pure s

end ForumModeration.Blob
