import Mathlib.Data.List.Sort

/-!
# Sorting by keys

A list is sorted by the keys of its elements. When the keys are different the result is strictly in
order and does not depend on the order of the list (`sortOn_eq_of_perm`).
-/

set_option autoImplicit false

namespace PowerMarket.Library

universe u v

variable {α : Type u} {κ : Type v} [LinearOrder κ] (key : α → κ) {items items' : List α}

/-- The elements of a list in the order of their keys. -/
def sortOn (items : List α) : List α := items.insertionSort fun a b => key a ≤ key b

theorem sortOn_perm (items : List α) : (sortOn key items).Perm items :=
  List.perm_insertionSort _ _

theorem sortOn_sorted (items : List α) :
    (sortOn key items).Pairwise fun a b => key a ≤ key b := by
  have keys : (sortOn key items).map key = (items.map key).insertionSort (· ≤ ·) :=
    List.map_insertionSort _ _ _ _ fun _ _ _ _ => Iff.rfl
  refine List.pairwise_map.mp ?_
  rw [keys]
  exact List.pairwise_insertionSort _ _

variable {key}

theorem sortOn_strict (distinct : (items.map key).Nodup) :
    (sortOn key items).Pairwise fun a b => key a < key b := by
  have different := ((sortOn_perm key items).map key).nodup_iff.mpr distinct
  have both := (sortOn_sorted key items).and (List.pairwise_map.mp different)
  exact both.imp fun pair => lt_of_le_of_ne pair.1 pair.2

/-- **The order of a list with different keys does not matter.** -/
theorem sortOn_eq_of_perm (distinct : (items.map key).Nodup) (perm : items'.Perm items) :
    sortOn key items' = sortOn key items := by
  have distinct' := (perm.map key).nodup_iff.mpr distinct
  exact List.Perm.eq_of_pairwise (fun _ _ _ _ less greater => absurd less greater.not_gt)
    (sortOn_strict distinct') (sortOn_strict distinct)
    ((sortOn_perm key items').trans (perm.trans (sortOn_perm key items).symm))

end PowerMarket.Library
