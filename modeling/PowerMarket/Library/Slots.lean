import Mathlib.Algebra.Order.Group.Int
import Mathlib.Data.List.Sort
import Mathlib.Tactic.Linarith

/-!
# Slots of one length

Intervals of one length that do not overlap fit into a range only as often as the range is long
(`slots_le`), and when they fill it each of them stands in its place (`slots_full`). The intervals
are given by their starts, in order; any that do not overlap can be sorted (`Apart.sorted`), as can
any at different multiples of the length (`apart_of_dvd`).
-/

set_option autoImplicit false

namespace PowerMarket.Library

/-- Each interval of the length starts after the earlier ones have ended. -/
def Separated (unit : ℤ) (starts : List ℤ) : Prop := starts.Pairwise fun a b => a + unit ≤ b

/-- No two intervals of the length overlap. -/
def Apart (unit : ℤ) (starts : List ℤ) : Prop :=
  starts.Pairwise fun a b => a + unit ≤ b ∨ b + unit ≤ a

variable {unit lo hi : ℤ} {starts : List ℤ}

theorem Apart.perm {starts' : List ℤ} (apart : Apart unit starts) (perm : starts.Perm starts') :
    Apart unit starts' :=
  List.Pairwise.perm apart perm Or.symm

/-- **Intervals that do not overlap are separate once they are sorted.** -/
theorem Apart.sorted (apart : Apart unit starts) :
    Separated unit (starts.insertionSort (· ≤ ·)) := by
  have ordered := List.pairwise_insertionSort (· ≤ ·) starts
  have kept : Apart unit (starts.insertionSort (· ≤ ·)) :=
    apart.perm (List.perm_insertionSort _ starts).symm
  refine (ordered.and kept).imp ?_
  rintro a b ⟨before, after | overlap⟩
  · exact after
  · linarith

/-- **Separate intervals in a range are not longer than the range together.** -/
theorem slots_le (separated : Separated unit starts)
    (inside : ∀ x ∈ starts, lo ≤ x ∧ x + unit ≤ hi) (range : lo ≤ hi) :
    starts.length * unit ≤ hi - lo := by
  induction starts generalizing lo with
  | nil =>
      rw [List.length_nil, Nat.cast_zero, zero_mul]
      linarith
  | cons x starts ih =>
      obtain ⟨after, separated⟩ := List.pairwise_cons.mp separated
      obtain ⟨first, fits⟩ := inside x List.mem_cons_self
      have rest := ih separated (fun y member =>
        ⟨after y member, (inside y (List.mem_cons_of_mem x member)).2⟩) fits
      rw [List.length_cons]
      push_cast
      linarith

theorem Apart.length_le (apart : Apart unit starts)
    (inside : ∀ x ∈ starts, lo ≤ x ∧ x + unit ≤ hi) (range : lo ≤ hi) :
    starts.length * unit ≤ hi - lo := by
  have sorted := slots_le apart.sorted
    (fun x member => inside x ((List.mem_insertionSort _).mp member)) range
  rwa [List.length_insertionSort] at sorted

theorem apart_of_dvd (distinct : starts.Nodup) (aligned : ∀ x ∈ starts, unit ∣ x) :
    Apart unit starts := by
  refine List.Pairwise.imp_of_mem (fun {a b} memA memB different => ?_) distinct
  rcases lt_or_gt_of_ne different with less | greater
  · exact .inl (add_le_of_le_sub_left (Int.le_of_dvd (sub_pos.mpr less)
      (Int.dvd_sub (aligned b memB) (aligned a memA))))
  · exact .inr (add_le_of_le_sub_left (Int.le_of_dvd (sub_pos.mpr greater)
      (Int.dvd_sub (aligned a memA) (aligned b memB))))

/-- **Separate intervals that fill a range stand next to each other from its start.** -/
theorem slots_full (separated : Separated unit starts)
    (inside : ∀ x ∈ starts, lo ≤ x ∧ x + unit ≤ hi) (full : starts.length * unit = hi - lo)
    {i : ℕ} {x : ℤ} (at_i : starts[i]? = some x) : x = lo + i * unit := by
  induction starts generalizing lo i with
  | nil => cases at_i
  | cons y starts ih =>
      obtain ⟨after, separated⟩ := List.pairwise_cons.mp separated
      obtain ⟨first, fits⟩ := inside y List.mem_cons_self
      have inRest : ∀ z ∈ starts, y + unit ≤ z ∧ z + unit ≤ hi := fun z member =>
        ⟨after z member, (inside z (List.mem_cons_of_mem y member)).2⟩
      have rest := slots_le separated inRest fits
      rw [List.length_cons] at full
      push_cast at full
      have here : y = lo := by linarith
      subst here
      cases i with
      | zero =>
          rw [List.getElem?_cons_zero] at at_i
          rw [← Option.some.inj at_i, Nat.cast_zero, zero_mul, add_zero]
      | succ i =>
          rw [List.getElem?_cons_succ] at at_i
          have next := ih separated inRest (by linarith) at_i
          push_cast
          linarith

end PowerMarket.Library
