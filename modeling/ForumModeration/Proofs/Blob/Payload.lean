import ForumModeration.Blob.Payload
import Mathlib

/-!
# `ForumModeration.Proofs.Blob.Payload`: a record reads back

Whatever a record holds, its bytes are read as that record (`reads_record`), as long as
they are fewer than 4 GiB. No other bound is needed: every text, list and group takes up
at least one byte for each of its parts, so their numbers fit the bytes in which they
are written, and every level of nesting takes up a byte, so the reader may go as deep as
the bytes are long.

There is one lemma for each kind of item. The inductions for data and trees are over
the depth that the reader may go.
-/

set_option autoImplicit false

namespace ForumModeration.Blob

/-! ### Items in general -/

section

variable {α β : Type} {reader : Reader α} {bytes : List UInt8} {item : α}

/-- What is made of an item that is read. -/
theorem Reads.map (h : Reads reader bytes item) (f : α → β) :
    Reads (do return f (← reader)) bytes (f item) := by
  intro rest
  change (reader (bytes ++ rest)).bind (fun (a, r) => some (f a, r)) = _
  rw [h rest]
  rfl

theorem reads_optional {write : α → List UInt8} {item? : Option α}
    (h : ∀ item, item? = some item → Reads reader (write item) item) :
    Reads (optional? reader) (optional write item?) item? := by
  cases item? with
  | none => exact (reads_truth false).bind (.pure none)
  | some item => exact (reads_truth true).bind ((h item rfl).map some)

/-- As many items as were written. -/
theorem reads_times {write : α → List UInt8} {items : List α}
    (h : ∀ item ∈ items, Reads reader (write item) item) :
    Reads (times reader items.length) (items.flatMap write) items := by
  induction items with
  | nil => exact .pure []
  | cons item items ih =>
    have others := ih fun item mem => h item (List.mem_cons_of_mem _ mem)
    exact (h item (by simp)).bind (others.map (item :: ·))

/-- Items with their number in front of them. -/
theorem reads_counted {write : α → List UInt8} {items : List α}
    (fits : items.length < 0x10000000000000000)
    (h : ∀ item ∈ items, Reads reader (write item) item) :
    Reads (counted? reader) (counted write items) items :=
  (reads_unsigned fits).bind (reads_times h)

/-- No item takes up more bytes than all of them. -/
theorem length_le_flatMap {write : α → List UInt8} {items : List α} (mem : item ∈ items) :
    (write item).length ≤ (items.flatMap write).length := by
  obtain ⟨before, behind, rfl⟩ := List.append_of_mem mem
  simp only [List.flatMap_append, List.flatMap_cons, List.length_append]
  omega

/-- Items that take up a byte or more each are no more than their bytes. -/
theorem count_le_flatMap {write : α → List UInt8} {items : List α}
    (h : ∀ item ∈ items, 0 < (write item).length) :
    items.length ≤ (items.flatMap write).length := by
  induction items with
  | nil => exact Nat.le_refl _
  | cons item items ih =>
    have first := h item (by simp)
    have others := ih fun item mem => h item (List.mem_cons_of_mem _ mem)
    simp only [List.flatMap_cons, List.length_cons, List.length_append]
    omega

end

theorem length_unsigned_pos (n : Nat) : 0 < (unsigned n).length := by
  unfold unsigned
  split
  · exact Nat.one_pos
  split
  · exact Nat.succ_pos _
  split <;> exact Nat.succ_pos _

theorem length_text_pos (s : String) : 0 < (text s).length := by
  rw [text, List.length_append]
  have := length_unsigned_pos (utf8 s).length
  omega

/-- A text fits if its bytes do. -/
theorem reads_text_of_length {s : String} (h : (text s).length < 0x100000000) :
    Reads text? (text s) s := by
  rw [text, List.length_append] at h
  exact reads_text (by omega)

/-! ### Numbers -/

theorem zigzag_lt {i : Int} {bound : Nat} (least : -(bound : Int) ≤ i) (most : i < bound) :
    zigzag i < 2 * bound := by
  cases i with
  | ofNat n =>
    have : (n : Int) < bound := most
    rw [zigzag]
    omega
  | negSucc n =>
    rw [zigzag]
    omega

theorem reads_int64 (i : Int64) : Reads int64? (int64 i) i := by
  have fits : zigzag i.toInt < bound true :=
    @zigzag_lt _ 0x8000000000000000 i.le_toInt i.toInt_lt
  have read := (reads_signed fits).map Int64.ofInt
  rwa [Int64.ofInt_toInt] at read

theorem reads_int32 (i : Int32) : Reads int32? (int32 i) i := by
  have fits : zigzag i.toInt < bound false := @zigzag_lt _ 0x80000000 i.le_toInt i.toInt_lt
  have read := (reads_signed fits).map Int32.ofInt
  rwa [Int32.ofInt_toInt] at read

theorem reads_float (x : Binary64) : Reads float? (float x) x := by
  have fits : x.bits.toNat < Nat.pow 256 8 := x.bits.toNat_lt
  have read := (reads_fixed fits).map fun n => Binary64.mk (.ofNat n)
  rwa [UInt64.ofNat_toNat] at read

/-! ### Data -/

theorem writeAll_eq_flatMap_datum : ∀ items, Datum.writeAll items = items.flatMap Datum.write
  | [] => rfl
  | item :: items => by rw [Datum.writeAll, writeAll_eq_flatMap_datum items, List.flatMap_cons]

theorem length_datum_pos (d : Datum) : 0 < d.write.length := by
  have tag : ∀ n rest, 0 < (unsigned n ++ rest).length := by
    intro n rest
    have := length_unsigned_pos n
    rw [List.length_append]
    omega
  cases d <;> simp only [Datum.write, List.append_assoc] <;> exact tag _ _

/-- A list in a datum and what it takes up. -/
private theorem length_list (items : List Datum) :
    (Datum.list items).write.length
      = 1 + (unsigned items.length).length + (items.flatMap Datum.write).length := by
  rw [Datum.write, writeAll_eq_flatMap_datum, List.length_append, List.length_append]
  rfl

theorem reads_datum {depth : Nat} {d : Datum} (small : d.write.length < 0x100000000)
    (deep : d.write.length ≤ depth) : Reads (datum? depth) d.write d := by
  -- By induction on the depth: the tag takes a byte, so items are shorter than their list.
  induction depth generalizing d with
  | zero =>
    have := length_datum_pos d
    omega
  | succ depth ih =>
    have tag : ∀ n < 6, Reads (unsigned? false) (unsigned n) n :=
      fun n h => reads_unsigned (show n < 0x100000000 by omega)
    show Reads (datumWith (datum? depth)) d.write d
    cases d with
    | int number => exact (tag 0 (by decide)).bind ((reads_int64 number).map Datum.int)
    | float number => exact (tag 1 (by decide)).bind ((reads_float number).map Datum.float)
    | bool b => exact (tag 2 (by decide)).bind ((reads_truth b).map Datum.bool)
    | string s =>
      have fits : (text s).length < 0x100000000 := by
        rw [Datum.write, List.length_append] at small
        omega
      exact (tag 3 (by decide)).bind ((reads_text_of_length fits).map Datum.string)
    | instant seconds nanos offset =>
      have write : (Datum.instant seconds nanos offset).write
          = unsigned 4 ++ (int64 seconds ++ (unsigned nanos.toNat ++ int32 offset)) := by
        simp only [Datum.write, List.append_assoc]
      have whole : Reads (datumWith (datum? depth)) (Datum.instant seconds nanos offset).write
          (Datum.instant seconds (.ofNat nanos.toNat) offset) := by
        rw [write]
        refine (tag 4 (by decide)).bind ((reads_int64 seconds).bind ?_)
        exact (@reads_unsigned false _ nanos.toNat_lt).bind ((reads_int32 offset).map _)
      rwa [UInt32.ofNat_toNat] at whole
    | list items =>
      rw [length_list] at small deep
      have each : ∀ item ∈ items, Reads (datum? depth) item.write item := by
        intro item mem
        have : item.write.length ≤ (items.flatMap Datum.write).length := length_le_flatMap mem
        exact ih (by omega) (by omega)
      have count : items.length ≤ (items.flatMap Datum.write).length :=
        count_le_flatMap fun item _ => length_datum_pos item
      rw [Datum.write, writeAll_eq_flatMap_datum, List.append_assoc]
      exact (tag 5 (by decide)).bind ((reads_counted (by omega) each).map Datum.list)

/-! ### Trees -/

theorem writeAll_eq_flatMap_tree : ∀ trees, Tree.writeAll trees = trees.flatMap Tree.write
  | [] => rfl
  | tree :: trees => by rw [Tree.writeAll, writeAll_eq_flatMap_tree trees, List.flatMap_cons]

/-- What a condition takes up. -/
theorem length_condition (field operator : String) (value : Datum) :
    (Tree.condition field operator value).write.length
      = 1 + (text field).length + (text operator).length + value.write.length := by
  rw [Tree.write, List.length_append, List.length_append, List.length_append]
  rfl

/-- What a group takes up. -/
theorem length_group (connective : String) (children : List Tree) :
    (Tree.group connective children).write.length
      = 1 + (text connective).length + (unsigned children.length).length +
        (children.flatMap Tree.write).length := by
  rw [Tree.write, writeAll_eq_flatMap_tree, List.length_append, List.length_append,
    List.length_append]
  rfl

theorem length_tree_pos (t : Tree) : 0 < t.write.length := by
  cases t with
  | condition field operator value =>
    rw [length_condition]
    omega
  | group connective children =>
    rw [length_group]
    omega

theorem reads_tree {depth : Nat} {t : Tree} (small : t.write.length < 0x100000000)
    (deep : t.write.length ≤ depth) : Reads (tree? depth) t.write t := by
  -- By induction on the depth, as for data.
  induction depth generalizing t with
  | zero =>
    have := length_tree_pos t
    omega
  | succ depth ih =>
    have tag : ∀ n < 2, Reads (unsigned? false) (unsigned n) n :=
      fun n h => reads_unsigned (show n < 0x100000000 by omega)
    show Reads (treeWith (datum? (depth + 1)) (tree? depth)) t.write t
    cases t with
    | condition field operator value =>
      rw [length_condition] at small deep
      rw [Tree.write, List.append_assoc, List.append_assoc]
      refine (tag 0 (by decide)).bind ((reads_text_of_length (by omega)).bind
        ((reads_text_of_length (by omega)).bind ?_))
      exact (reads_datum (by omega) (by omega)).map (Tree.condition field operator)
    | group connective children =>
      rw [length_group] at small deep
      have each : ∀ child ∈ children, Reads (tree? depth) child.write child := by
        intro child mem
        have : child.write.length ≤ (children.flatMap Tree.write).length := length_le_flatMap mem
        exact ih (by omega) (by omega)
      have count : children.length ≤ (children.flatMap Tree.write).length :=
        count_le_flatMap fun child _ => length_tree_pos child
      rw [Tree.write, writeAll_eq_flatMap_tree, List.append_assoc, List.append_assoc]
      exact (tag 1 (by decide)).bind ((reads_text_of_length (by omega)).bind
        ((reads_counted (by omega) each).map (Tree.group connective)))

/-! ### Calls -/

theorem length_parameter_pos (entry : String × Datum) : 0 < (parameter entry).length := by
  have := length_text_pos entry.1
  rw [parameter, List.length_append]
  omega

theorem reads_parameter {depth : Nat} {entry : String × Datum}
    (small : (parameter entry).length < 0x100000000) (deep : (parameter entry).length ≤ depth) :
    Reads (parameter? (datum? depth)) (parameter entry) entry := by
  rw [parameter, List.length_append] at small deep
  exact (reads_text_of_length (by omega)).bind
    ((reads_datum (by omega) (by omega)).map (Prod.mk entry.1))

theorem length_call (call : Call) : call.write.length = (text call.kind).length +
    ((unsigned call.params.length).length + (call.params.flatMap parameter).length) := by
  rw [Call.write, counted, List.length_append, List.length_append]

theorem length_call_pos (call : Call) : 0 < call.write.length := by
  have := length_text_pos call.kind
  rw [length_call]
  omega

theorem reads_call {depth : Nat} {call : Call} (small : call.write.length < 0x100000000)
    (deep : call.write.length ≤ depth) : Reads (call? (datum? depth)) call.write call := by
  rw [length_call] at small deep
  have each : ∀ entry ∈ call.params, Reads (parameter? (datum? depth)) (parameter entry) entry := by
    intro entry mem
    have : (parameter entry).length ≤ (call.params.flatMap parameter).length :=
      length_le_flatMap mem
    exact reads_parameter (by omega) (by omega)
  have count : call.params.length ≤ (call.params.flatMap parameter).length :=
    count_le_flatMap fun entry _ => length_parameter_pos entry
  exact (reads_text_of_length (by omega)).bind
    ((reads_counted (by omega) each).map (Call.mk call.kind))

/-! ### Records -/

/-- A record with counts of 64 bits and a digest of 32 bytes reads back. -/
theorem reads_record {depth : Nat} {r : Record} (small : r.write.length < 0x100000000)
    (deep : r.write.length ≤ depth) (conditionCount : r.conditionCount < 0x10000000000000000)
    (actionCount : r.actionCount < 0x10000000000000000)
    (digest : ∀ d, r.sourceDigest = some d → d.length = 32) :
    Reads (record? depth) r.write r := by
  have digest_ : Reads (optional? (bytes 32)) (optional (fun d => d) r.sourceDigest)
      r.sourceDigest := by
    refine reads_optional ?_
    intro d found
    rw [← digest d found]
    exact reads_bytes d
  have forumRuleId : Reads (optional? int64?) (optional int64 r.forumRuleId) r.forumRuleId :=
    reads_optional fun i _ => reads_int64 i
  simp only [Record.write, List.append_assoc, List.length_append] at small deep
  have each : ∀ call ∈ r.actions, Reads (call? (datum? depth)) call.write call := by
    intro call mem
    have : call.write.length ≤ (r.actions.flatMap Call.write).length := length_le_flatMap mem
    simp only [counted, List.length_append] at small deep
    exact reads_call (by omega) (by omega)
  have actions : r.actions.length ≤ (counted Call.write r.actions).length := by
    have : r.actions.length ≤ (r.actions.flatMap Call.write).length :=
      count_le_flatMap fun call _ => length_call_pos call
    rw [counted, List.length_append]
    omega
  simp only [Record.write, List.append_assoc]
  -- Part after part, in the order of the record.
  refine (@reads_unsigned true _ conditionCount).bind ((@reads_unsigned true _ actionCount).bind
    (digest_.bind ((reads_int64 r.id).bind ((reads_int64 r.fid).bind (forumRuleId.bind
      ((reads_text_of_length (by omega)).bind ((reads_text_of_length (by omega)).bind
        ((reads_truth r.enabled).bind ((reads_int32 r.priority).bind
          ((reads_tree (by omega) (by omega)).bind ?_))))))))))
  exact (reads_counted (by omega) each).map _

/-- The record at the start of a payload is the one that was written. -/
theorem read?_write {r : Record} (small : r.write.length < 0x100000000)
    (conditionCount : r.conditionCount < 0x10000000000000000)
    (actionCount : r.actionCount < 0x10000000000000000)
    (digest : ∀ d, r.sourceDigest = some d → d.length = 32) :
    Record.read? r.write = some r := by
  have read := reads_record small (Nat.le_succ _) conditionCount actionCount digest []
  rw [List.append_nil] at read
  unfold Record.read?
  rw [read]
  rfl

end ForumModeration.Blob
