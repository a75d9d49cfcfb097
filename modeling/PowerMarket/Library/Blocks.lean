import PowerMarket.Library.Reorderings
import Mathlib.Algebra.Order.Group.Int
import Mathlib.Data.List.Range
import Mathlib.Tactic.Linarith

/-!
# Lists in numbered blocks

A list whose elements have numbers is a reordering of its blocks of equal numbers
(`blocks_perm`), and each block can be read back from the list of all blocks (`filter_blocks`).
The slots of a range are such a list: those of consecutive ranges are the blocks of the whole
range (`slotsOf_blocks`).
-/

set_option autoImplicit false

namespace PowerMarket.Library

universe u

variable {α : Type u} {number : α → ℕ} {n i : ℕ}

/-- **A block can be read back** from the list of all blocks. -/
theorem filter_blocks {block : ℕ → List α} (numbered : ∀ j, ∀ x ∈ block j, number x = j) :
    ((List.range n).flatMap block).filter (number · = i) = if i < n then block i else [] := by
  induction n with
  | zero => rfl
  | succ n ih =>
      have last : (block n).filter (number · = i) = if n = i then block n else [] := by
        split_ifs with here
        · exact List.filter_eq_self.mpr fun x member => by simpa [here] using numbered n x member
        · refine List.filter_eq_nil_iff.mpr fun x member => ?_
          simpa [numbered n x member] using here
      rw [List.range_succ, List.flatMap_append, List.filter_append, ih, List.flatMap_singleton, last]
      rcases Nat.lt_trichotomy i n with less | same | greater
      · rw [if_pos less, if_neg less.ne', if_pos (Nat.lt_succ_of_lt less), List.append_nil]
      · subst same
        rw [if_neg (lt_irrefl i), if_pos rfl, if_pos (Nat.lt_succ_self i), List.nil_append]
      · rw [if_neg greater.not_gt, if_neg greater.ne, if_neg (by omega), List.append_nil]

/-- **A numbered list is a reordering of its blocks.** -/
theorem blocks_perm (number : α → ℕ) (n : ℕ) {items : List α}
    (numbered : ∀ x ∈ items, number x < n) :
    ((List.range n).flatMap fun i => items.filter (number · = i)).Perm items := by
  classical
  refine perm_of_filter number fun k => ?_
  rw [filter_blocks fun j x member => by simpa using (List.mem_filter.mp member).2]
  split_ifs with inside
  · rfl
  · refine (List.filter_eq_nil_iff.mpr fun x member => ?_).symm
    have less := numbered x member
    simp only [decide_eq_true_eq]
    omega

/-! ## Slots -/

variable {unit lo mid hi : ℤ}

/-- The slots of one length that fit into a range, from its start on. -/
def slotsOf (unit lo hi : ℤ) : List ℤ :=
  (List.range ((hi - lo) / unit).toNat).map fun i : ℕ => lo + i * unit

/-- A range that is some slots long. -/
theorem slotsOf_eq {count : ℕ} (positive : 0 < unit) (whole : hi - lo = count * unit) :
    slotsOf unit lo hi = (List.range count).map fun i : ℕ => lo + i * unit := by
  rw [slotsOf, whole, Int.mul_ediv_cancel _ positive.ne', Int.toNat_natCast]

theorem mem_slotsOf (positive : 0 < unit) {x : ℤ} (member : x ∈ slotsOf unit lo hi) :
    lo ≤ x ∧ x + unit ≤ hi := by
  obtain ⟨i, inRange, rfl⟩ := List.mem_map.mp member
  have less : (i : ℤ) + 1 ≤ (hi - lo) / unit := by
    have := List.mem_range.mp inRange
    omega
  have fits := (Int.le_ediv_iff_mul_le positive).mp less
  have first : 0 ≤ (i : ℤ) * unit := mul_nonneg (Int.natCast_nonneg i) positive.le
  rw [add_mul, one_mul] at fits
  exact ⟨by linarith, by linarith⟩

theorem slotsOf_sorted (positive : 0 < unit) : (slotsOf unit lo hi).Pairwise (· < ·) := by
  refine List.pairwise_map.mpr (List.pairwise_lt_range.imp fun less => ?_)
  have further := mul_lt_mul_of_pos_right (Int.ofNat_lt.mpr less) positive
  linarith

theorem slotsOf_append (positive : 0 < unit) {first second : ℕ}
    (whole : mid - lo = first * unit) (whole' : hi - mid = second * unit) :
    slotsOf unit lo mid ++ slotsOf unit mid hi = slotsOf unit lo hi := by
  have all : hi - lo = (first + second : ℕ) * unit := by
    push_cast
    linarith
  rw [slotsOf_eq positive whole, slotsOf_eq positive whole', slotsOf_eq positive all,
    List.range_add, List.map_append, List.map_map]
  congr 1
  refine List.map_congr_left fun i _ => ?_
  simp only [Function.comp_apply, Nat.cast_add]
  linarith

/-- **The slots of consecutive ranges** make up those of the whole range. -/
theorem slotsOf_blocks (positive : 0 < unit) (bound : ℕ → ℤ)
    (whole : ∀ i < n, ∃ count : ℕ, bound (i + 1) - bound i = count * unit) :
    (List.range n).flatMap (fun i => slotsOf unit (bound i) (bound (i + 1))) =
        slotsOf unit (bound 0) (bound n) ∧
      ∃ count : ℕ, bound n - bound 0 = count * unit := by
  induction n with
  | zero => exact ⟨by simp [slotsOf], 0, by simp⟩
  | succ n ih =>
      obtain ⟨blocks, first, wholeFirst⟩ := ih fun i less => whole i (Nat.lt_succ_of_lt less)
      obtain ⟨second, wholeSecond⟩ := whole n (Nat.lt_succ_self n)
      rw [List.range_succ, List.flatMap_append, blocks, List.flatMap_singleton]
      refine ⟨slotsOf_append positive wholeFirst wholeSecond, first + second, ?_⟩
      push_cast
      linarith

end PowerMarket.Library
