import Mathlib
import ForumModeration.Text.CodePoints

/-!
# `ForumModeration.Proofs.Text.CodePoints`: comparing sets of characters

Classes of characters are listed as ranges in ascending order, and there are too many
characters to try them one by one. Two lists are compared range by range:

* `contains_eq_false_of_apart`: one walk over both shows that they have nothing in common.
* `contains_of_within`: a class is part of another if each of its ranges is part of one.
-/

set_option autoImplicit false

namespace ForumModeration.Text

namespace CodePoints

variable {ranges others : CodePoints} {c : Char}

theorem contains_iff : ranges.contains c = true ↔
    ∃ range ∈ ranges, range.1 ≤ c.toNat ∧ c.toNat ≤ range.2 := by
  simp only [contains, List.any_eq_true, Bool.and_eq_true, decide_eq_true_eq]

/-! The walks below are made by evaluation, so they compare by `Nat.ble` and `Nat.blt`. -/

/-- Ranges in ascending order of where they start. -/
def ascending : CodePoints → Bool
  | range :: next :: ranges => range.1.ble next.1 && ascending (next :: ranges)
  | _ => true

theorem pairwise_of_ascending (h : ranges.ascending = true) : ranges.Pairwise (·.1 ≤ ·.1) := by
  have chain : ranges.IsChain (·.1 ≤ ·.1) := by
    fun_induction ascending ranges with
    | case1 range next ranges ih =>
      obtain ⟨first, h⟩ := Bool.and_eq_true_iff.mp h
      exact .cons_cons (Nat.le_of_ble_eq_true first) (ih h)
    | case2 ranges short =>
      match ranges, short with
      | [], _ => exact .nil
      | [range], _ => exact .singleton range
      | range :: next :: ranges, short => exact absurd rfl (short range next ranges)
  have : IsTrans (Nat × Nat) (·.1 ≤ ·.1) := ⟨fun _ _ _ => Nat.le_trans⟩
  exact List.isChain_iff_pairwise.mp chain

/-- Whether two lists of ranges in ascending order have no character in common. -/
def apart : CodePoints → CodePoints → Bool
  | [], _ => true
  | range :: ranges, others =>
    let ahead := others.dropWhile fun other => other.2.blt range.1
    (ahead.head?.all fun other => range.2.blt other.1) && apart ranges ahead

private theorem lt_or_lt_of_apart {range other : Nat × Nat} (h : apart ranges others = true)
    (order : ranges.Pairwise (·.1 ≤ ·.1)) (order' : others.Pairwise (·.1 ≤ ·.1))
    (mem : range ∈ ranges) (mem' : other ∈ others) :
    range.2 < other.1 ∨ other.2 < range.1 := by
  induction ranges generalizing others with
  | nil => cases mem
  | cons first ranges ih =>
    obtain ⟨next, h⟩ := Bool.and_eq_true_iff.mp h
    have starts : first.1 ≤ range.1 := by
      rcases List.mem_cons.mp mem with rfl | mem
      · exact Nat.le_refl _
      · exact (List.pairwise_cons.mp order).1 range mem
    have split :=
      List.takeWhile_append_dropWhile (p := fun other => other.2.blt first.1) (l := others)
    have sorted := order'.sublist (List.dropWhile_sublist fun other => other.2.blt first.1)
    rw [← split] at mem'
    rcases List.mem_append.mp mem' with dropped | ahead
    · -- What is dropped ends in front of the first range.
      have : other.2 < first.1 := by simpa using List.mem_takeWhile_imp dropped
      omega
    · rcases List.mem_cons.mp mem with rfl | mem
      · left
        revert next ahead sorted
        cases others.dropWhile fun other => other.2.blt range.1 with
        | nil => exact fun _ _ ahead => nomatch ahead
        | cons head tail =>
          intro next sorted ahead
          have behind : range.2 < head.1 := by simpa using next
          rcases List.mem_cons.mp ahead with rfl | ahead
          · exact behind
          · exact behind.trans_le ((List.pairwise_cons.mp sorted).1 other ahead)
      · exact ih h (List.pairwise_cons.mp order).2 sorted mem ahead

theorem contains_eq_false_of_apart (h : apart ranges others = true)
    (order : ranges.ascending = true) (order' : others.ascending = true)
    (mem : ranges.contains c = true) : others.contains c = false := by
  rw [← Bool.not_eq_true]
  intro mem'
  obtain ⟨range, mem, low, high⟩ := contains_iff.mp mem
  obtain ⟨other, mem', low', high'⟩ := contains_iff.mp mem'
  have := lt_or_lt_of_apart h (pairwise_of_ascending order) (pairwise_of_ascending order') mem mem'
  omega

/-- Whether each range lies in one of some others. -/
def within (ranges others : CodePoints) : Bool :=
  ranges.all fun range => others.any fun other => other.1.ble range.1 && range.2.ble other.2

theorem contains_of_within (h : ranges.within others = true) (mem : ranges.contains c = true) :
    others.contains c = true := by
  obtain ⟨range, mem, low, high⟩ := contains_iff.mp mem
  obtain ⟨other, mem', inside⟩ := List.any_eq_true.mp (List.all_eq_true.mp h range mem)
  rw [Bool.and_eq_true, Nat.ble_eq, Nat.ble_eq] at inside
  exact contains_iff.mpr ⟨other, mem', inside.1.trans low, high.trans inside.2⟩

end CodePoints

end ForumModeration.Text
