import ForumModeration.Proofs.Blob.Payload

/-!
# `ForumModeration.Proofs.Blob.Sizes`: nothing is read from too few bytes

A reader takes more texts of bytes than a writer makes: numbers may be longer than they have
to be. It never takes fewer bytes than are written for what it has read (`Covers`). So a
record that was found in a payload fits the payload when it is written again
(`length_write_le_of_read?`).

There is one lemma for each reader, put together as the reader is.
-/

set_option autoImplicit false

namespace ForumModeration.Blob

/-- What a reader has read took up at least the bytes that are counted for it. -/
def Covers {α : Type} (reader : Reader α) (size : α → Nat) : Prop :=
  ∀ ⦃input rest : List UInt8⦄ ⦃item : α⦄,
    reader input = some (item, rest) → size item + rest.length ≤ input.length

/-! ### Readers in general -/

section

variable {α β : Type} {reader : Reader α} {next : α → Reader β} {size : α → Nat}
  {write : α → List UInt8}

/-- A reading of two parts, taken apart. -/
theorem bind_eq_some {input rest : List UInt8} {result : β} :
    (reader >>= next) input = some (result, rest) ↔
      ∃ item mid, reader input = some (item, mid) ∧ next item mid = some (result, rest) := by
  show (reader input).bind (fun read => next read.1 read.2) = _ ↔ _
  rw [Option.bind_eq_some_iff]
  exact ⟨fun ⟨read, first, second⟩ => ⟨read.1, read.2, first, second⟩,
    fun ⟨item, mid, first, second⟩ => ⟨(item, mid), first, second⟩⟩

theorem pure_eq_some {input rest : List UInt8} {item result : α} :
    (pure item : Reader α) input = some (result, rest) ↔ item = result ∧ input = rest := by
  show some (item, input) = some (result, rest) ↔ _
  rw [Option.some.injEq, Prod.mk.injEq]

/-- What the first part has taken need not be counted for the second one. -/
theorem Covers.bind {total : β → Nat} (first : Covers reader size)
    (second : ∀ item, Covers (next item) fun result => total result - size item) :
    Covers (reader >>= next) total := by
  intro input rest result read
  obtain ⟨item, mid, one, two⟩ := bind_eq_some.mp read
  have := first one
  have : total result - size item + rest.length ≤ mid.length := second item two
  omega

/-- What is computed from an item may count as much as the item. -/
theorem Covers.map {total : β → Nat} (covers : Covers reader size) (f : α → β)
    (h : ∀ item, total (f item) ≤ size item) : Covers (do return f (← reader)) total := by
  intro input rest result read
  obtain ⟨item, mid, one, two⟩ := bind_eq_some.mp read
  obtain ⟨rfl, rfl⟩ := pure_eq_some.mp two
  have := covers one
  have := h item
  omega

theorem covers_failure : Covers (failure : Reader α) size :=
  nofun

/-- Nothing is taken for what counts nothing. -/
theorem covers_pure {item : α} (h : size item = 0) : Covers (pure item : Reader α) size := by
  intro input rest result read
  obtain ⟨rfl, rfl⟩ := pure_eq_some.mp read
  omega

/-- As many items as were asked for. -/
theorem length_of_times {count : Nat} {input rest : List UInt8} {items : List α}
    (read : times reader count input = some (items, rest)) : items.length = count := by
  induction count generalizing input items with
  | zero =>
    obtain ⟨rfl, -⟩ := pure_eq_some.mp read
    rfl
  | succ count ih =>
    obtain ⟨item, mid, -, more⟩ := bind_eq_some.mp read
    obtain ⟨others, mid', further, last⟩ := bind_eq_some.mp more
    obtain ⟨rfl, rfl⟩ := pure_eq_some.mp last
    rw [List.length_cons, ih further]

theorem covers_times (covers : Covers reader fun item => (write item).length) (count : Nat) :
    Covers (times reader count) fun items => (items.flatMap write).length := by
  induction count with
  | zero => exact covers_pure rfl
  | succ count ih =>
    refine covers.bind fun item => ih.map (item :: ·) fun others => ?_
    rw [List.flatMap_cons, List.length_append]
    omega

end

/-! ### Numbers and texts -/

theorem covers_byte : Covers byte fun _ => 1 := by
  intro input rest b read
  cases input with
  | nil => cases read
  | cons c input =>
    obtain ⟨rfl, rfl⟩ : c = b ∧ input = rest := by simpa [byte] using read
    exact Nat.le_of_eq (Nat.add_comm 1 input.length)

theorem bytes_eq_some {count : Nat} {input rest contents : List UInt8} :
    bytes count input = some (contents, rest) ↔
      contents.length = count ∧ input = contents ++ rest := by
  unfold bytes
  constructor
  · intro read
    split at read
    · cases read
    · rename_i enough
      obtain ⟨rfl, rfl⟩ : input.take count = contents ∧ input.drop count = rest := by
        simpa using read
      exact ⟨List.length_take_of_le (by omega), (List.take_append_drop count input).symm⟩
  · rintro ⟨rfl, rfl⟩
    simp

theorem covers_bytes (count : Nat) : Covers (bytes count) fun contents => contents.length := by
  intro input rest contents read
  obtain ⟨-, rfl⟩ := bytes_eq_some.mp read
  rw [List.length_append]

theorem ofLittleEndian_lt (contents : List UInt8) :
    ofLittleEndian contents < 256 ^ contents.length := by
  induction contents with
  | nil => exact Nat.one_pos
  | cons b contents ih =>
    have := b.toNat_lt
    rw [ofLittleEndian, List.length_cons, Nat.pow_succ]
    omega

/-- A number that is read from some bytes fits them. -/
theorem fixed_eq_some {count n : Nat} {input rest : List UInt8}
    (read : fixed count input = some (n, rest)) :
    n < 256 ^ count ∧ count + rest.length = input.length := by
  obtain ⟨contents, mid, taken, made⟩ :=
    bind_eq_some.mp (show (bytes count >>= fun b => pure (ofLittleEndian b)) input = _ from read)
  obtain ⟨rfl, rfl⟩ := pure_eq_some.mp made
  obtain ⟨rfl, rfl⟩ := bytes_eq_some.mp taken
  exact ⟨ofLittleEndian_lt contents, (List.length_append ..).symm⟩

/-- How many bytes a natural number takes up. -/
theorem length_unsigned (n : Nat) : (unsigned n).length
    = if n < 251 then 1 else if n < 0x10000 then 3 else if n < 0x100000000 then 5 else 9 := by
  unfold unsigned
  split
  · rfl
  split
  · rw [List.length_cons, length_littleEndian]
  split <;> rw [List.length_cons, length_littleEndian]

/-- A smaller number takes up no more bytes. -/
theorem length_unsigned_mono {m n : Nat} (h : m ≤ n) :
    (unsigned m).length ≤ (unsigned n).length := by
  rw [length_unsigned, length_unsigned]
  by_cases one : n < 251
  · rw [if_pos one, if_pos (Nat.lt_of_le_of_lt h one)]
  by_cases two : n < 0x10000
  · rw [if_neg one, if_pos two, if_pos (Nat.lt_of_le_of_lt h two)]
    split <;> omega
  by_cases four : n < 0x100000000
  · rw [if_neg one, if_neg two, if_pos four, if_pos (Nat.lt_of_le_of_lt h four)]
    repeat' split
    all_goals omega
  · rw [if_neg one, if_neg two, if_neg four]
    repeat' split
    all_goals omega

/-- A natural number that fits the bytes that were announced takes up no more than they do. -/
private theorem length_unsigned_le {n count : Nat} (h : n < 256 ^ count)
    (announced : count = 2 ∨ count = 4 ∨ count = 8) : (unsigned n).length ≤ 1 + count := by
  rw [length_unsigned]
  rcases announced with rfl | rfl | rfl
  all_goals
    split
    · omega
    split
    · omega
    split <;> omega

/-- A natural number that is read fits the width, and it is written in no more bytes than
were announced for it. -/
theorem unsigned?_eq_some {wide : Bool} {n : Nat} {input rest : List UInt8}
    (read : unsigned? wide input = some (n, rest)) :
    n < bound wide ∧ (unsigned n).length + rest.length ≤ input.length := by
  obtain ⟨first, mid, taken, more⟩ := bind_eq_some.mp read
  have one : 1 + mid.length ≤ input.length := covers_byte taken
  have narrow : 0x100000000 ≤ bound wide := by cases wide <;> decide
  have announced : ∀ {count : Nat}, count = 2 ∨ count = 4 ∨ count = 8 → 256 ^ count ≤ bound wide →
      fixed count mid = some (n, rest) →
      n < bound wide ∧ (unsigned n).length + rest.length ≤ input.length := by
    intro count known fits read
    obtain ⟨small, length⟩ := fixed_eq_some read
    have := length_unsigned_le small known
    exact ⟨by omega, by omega⟩
  split at more
  · rename_i small
    obtain ⟨rfl, rfl⟩ := pure_eq_some.mp more
    have small : first.toNat < 251 := UInt8.lt_iff_toNat_lt.mp small
    rw [length_unsigned, if_pos small]
    exact ⟨by omega, one⟩
  split at more
  · exact announced (.inl rfl) (by omega) more
  split at more
  · exact announced (.inr (.inl rfl)) (by omega) more
  split at more
  · rename_i eight
    have isWide : wide = true := (Bool.and_eq_true_iff.mp eight).2
    refine announced (.inr (.inr rfl)) ?_ more
    rw [isWide]
    decide
  · cases more

theorem covers_unsigned (wide : Bool) : Covers (unsigned? wide) fun n => (unsigned n).length :=
  fun _ _ _ read => (unsigned?_eq_some read).2

theorem zigzag_ofZigzag (n : Nat) : zigzag (ofZigzag n) = n := by
  unfold ofZigzag
  split
  · rw [zigzag]
    omega
  · rw [zigzag]
    omega

/-- The integer in a natural number is about half of it. -/
theorem ofZigzag_bounds {n bound : Nat} (h : n < 2 * bound) :
    -(bound : Int) ≤ ofZigzag n ∧ ofZigzag n < bound := by
  unfold ofZigzag
  split
  · have : ((n / 2 : Nat) : Int) < bound := by omega
    exact ⟨by show -(bound : Int) ≤ ((n / 2 : Nat) : Int); omega, this⟩
  · rw [Int.negSucc_eq]
    omega

/-- An integer that is read, with the natural number that it was written as. -/
private theorem signed?_eq_some {wide : Bool} {i : Int} {input rest : List UInt8}
    (read : signed? wide input = some (i, rest)) :
    zigzag i < bound wide ∧ (signed i).length + rest.length ≤ input.length := by
  obtain ⟨n, mid, taken, made⟩ :=
    bind_eq_some.mp (show (unsigned? wide >>= fun n => pure (ofZigzag n)) input = _ from read)
  obtain ⟨rfl, rfl⟩ := pure_eq_some.mp made
  rw [signed, zigzag_ofZigzag]
  exact unsigned?_eq_some taken

theorem covers_int64 : Covers int64? fun i => (int64 i).length := by
  intro input rest i read
  obtain ⟨j, mid, taken, made⟩ := bind_eq_some.mp read
  obtain ⟨rfl, rfl⟩ := pure_eq_some.mp made
  obtain ⟨fits, length⟩ := signed?_eq_some taken
  have bounds := ofZigzag_bounds (show zigzag j < 2 * 0x8000000000000000 from fits)
  rw [ofZigzag_zigzag] at bounds
  have same : (Int64.ofInt j).toInt = j := Int64.toInt_ofInt_of_le bounds.1 bounds.2
  show (int64 _).length + _ ≤ _
  rw [int64, same]
  exact length

theorem covers_int32 : Covers int32? fun i => (int32 i).length := by
  intro input rest i read
  obtain ⟨j, mid, taken, made⟩ := bind_eq_some.mp read
  obtain ⟨rfl, rfl⟩ := pure_eq_some.mp made
  obtain ⟨fits, length⟩ := signed?_eq_some taken
  have bounds := ofZigzag_bounds (show zigzag j < 2 * 0x80000000 from fits)
  rw [ofZigzag_zigzag] at bounds
  have same : (Int32.ofInt j).toInt = j := Int32.toInt_ofInt_of_le bounds.1 bounds.2
  show (int32 _).length + _ ≤ _
  rw [int32, same]
  exact length

theorem covers_float : Covers float? fun x => (float x).length := by
  intro input rest x read
  obtain ⟨n, mid, taken, made⟩ := bind_eq_some.mp read
  obtain ⟨rfl, rfl⟩ := pure_eq_some.mp made
  show (float _).length + _ ≤ _
  rw [float, length_littleEndian]
  exact Nat.le_of_eq (fixed_eq_some taken).2

theorem covers_truth : Covers truth? fun b => (truth b).length := by
  refine covers_byte.bind fun b => ?_
  split
  · exact covers_pure rfl
  split
  · exact covers_pure rfl
  · exact covers_failure

theorem covers_optional {α : Type} {reader : Reader α} {write : α → List UInt8}
    (covers : Covers reader fun item => (write item).length) :
    Covers (optional? reader) fun item? => (optional write item?).length := by
  refine covers_truth.bind fun present => ?_
  cases present with
  | false => exact covers_pure rfl
  | true =>
    refine covers.map some fun item => ?_
    rw [optional, List.length_append]
    omega

/-- A text that is read is the one that its bytes are. -/
theorem utf8_of_ofUtf8? {contents : List UInt8} {s : String} (h : ofUtf8? contents = some s) :
    utf8 s = contents := by
  unfold ofUtf8? String.fromUTF8? at h
  split at h
  · cases h
    rfl
  · cases h

theorem covers_text : Covers text? fun s => (text s).length := by
  intro input rest s read
  obtain ⟨count, mid, counted, more⟩ := bind_eq_some.mp read
  obtain ⟨contents, mid', taken, made⟩ := bind_eq_some.mp more
  obtain ⟨rfl, rfl⟩ := bytes_eq_some.mp taken
  have number : (unsigned contents.length).length + (contents ++ mid').length ≤ input.length :=
    covers_unsigned true counted
  cases found : ofUtf8? contents with
  | none =>
    rw [found] at made
    cases made
  | some s' =>
    rw [found] at made
    obtain ⟨rfl, rfl⟩ := pure_eq_some.mp made
    show (text s').length + _ ≤ _
    rw [List.length_append] at number
    rw [text, utf8_of_ofUtf8? found, List.length_append]
    omega

/-- Items with their number in front of them. -/
theorem covers_counted {α : Type} {reader : Reader α} {write : α → List UInt8}
    (covers : Covers reader fun item => (write item).length) :
    Covers (counted? reader) fun items => (counted write items).length := by
  intro input rest items read
  obtain ⟨count, mid, counted_, more⟩ := bind_eq_some.mp read
  obtain rfl := length_of_times more
  have number : (unsigned items.length).length + mid.length ≤ input.length :=
    covers_unsigned true counted_
  have contents : (items.flatMap write).length + rest.length ≤ mid.length :=
    covers_times covers _ more
  show (counted write items).length + _ ≤ _
  rw [counted, List.length_append]
  omega

/-! ### Data and trees -/

theorem covers_datum (depth : Nat) : Covers (datum? depth) fun d => d.write.length := by
  induction depth with
  | zero => exact nofun
  | succ depth ih =>
    show Covers (datumWith (datum? depth)) _
    refine (covers_unsigned false).bind fun tag => ?_
    split
    · refine covers_int64.map Datum.int fun number => ?_
      rw [Datum.write, List.length_append]
      omega
    · refine covers_float.map Datum.float fun number => ?_
      rw [Datum.write, List.length_append]
      omega
    · refine covers_truth.map Datum.bool fun b => ?_
      rw [Datum.write, List.length_append]
      omega
    · refine covers_text.map Datum.string fun s => ?_
      rw [Datum.write, List.length_append]
      omega
    · refine covers_int64.bind fun seconds => (covers_unsigned false).bind fun nanos =>
        covers_int32.map (Datum.instant seconds (.ofNat nanos)) fun offset => ?_
      have same : (UInt32.ofNat nanos).toNat ≤ nanos := Nat.mod_le _ _
      have shorter := length_unsigned_mono same
      rw [Datum.write]
      simp only [List.length_append]
      omega
    · refine (covers_counted ih).map Datum.list fun items => ?_
      rw [Datum.write, writeAll_eq_flatMap_datum, counted]
      simp only [List.length_append]
      omega
    · exact covers_failure

theorem covers_tree (depth : Nat) : Covers (tree? depth) fun t => t.write.length := by
  induction depth with
  | zero => exact nofun
  | succ depth ih =>
    show Covers (treeWith (datum? (depth + 1)) (tree? depth)) _
    refine (covers_unsigned false).bind fun tag => ?_
    split
    · refine covers_text.bind fun field => covers_text.bind fun operator =>
        (covers_datum (depth + 1)).map (Tree.condition field operator) fun value => ?_
      rw [Tree.write]
      simp only [List.length_append]
      omega
    · refine covers_text.bind fun connective =>
        (covers_counted ih).map (Tree.group connective) fun children => ?_
      rw [Tree.write, writeAll_eq_flatMap_tree, counted]
      simp only [List.length_append]
      omega
    · exact covers_failure

/-! ### Calls and records -/

theorem covers_parameter (depth : Nat) :
    Covers (parameter? (datum? depth)) fun entry => (parameter entry).length := by
  refine covers_text.bind fun name => (covers_datum depth).map (Prod.mk name) fun datum => ?_
  show (text name ++ datum.write).length - _ ≤ _
  rw [List.length_append]
  omega

theorem covers_call (depth : Nat) :
    Covers (call? (datum? depth)) fun call => call.write.length := by
  refine covers_text.bind fun kind =>
    (covers_counted (covers_parameter depth)).map (Call.mk kind) fun params => ?_
  show (text kind ++ counted parameter params).length - _ ≤ _
  rw [List.length_append]
  omega

theorem covers_record (depth : Nat) : Covers (record? depth) fun r => r.write.length := by
  -- Part after part, in the order of the record.
  refine (covers_unsigned true).bind fun conditionCount =>
    (covers_unsigned true).bind fun actionCount =>
    (covers_optional (covers_bytes 32)).bind fun sourceDigest =>
    covers_int64.bind fun id => covers_int64.bind fun fid =>
    (covers_optional covers_int64).bind fun forumRuleId => covers_text.bind fun target =>
    covers_text.bind fun name => covers_truth.bind fun enabled =>
    covers_int32.bind fun priority => (covers_tree depth).bind fun trigger =>
    (covers_counted (covers_call depth)).map _ fun actions => ?_
  rw [Record.write]
  simp only [List.length_append]
  omega

/-- A record that was found in a payload takes up no more bytes than the payload. -/
theorem length_write_le_of_read? {payload : List UInt8} {r : Record}
    (read : Record.read? payload = some r) : r.write.length ≤ payload.length := by
  obtain ⟨⟨r', rest⟩, found, rfl⟩ := Option.map_eq_some_iff.mp read
  have := covers_record _ found
  exact Nat.le_of_add_right_le this

end ForumModeration.Blob
