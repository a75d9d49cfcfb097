import Mathlib.Data.List.Dedup

/-!
# Joins and groups

The joins of two tables and the groups of one, as a query language defines them: a join has a row
for every pair of rows that match, an outer join also one for every row without a match, and a
group by has one row for every key that occurs.
-/

set_option autoImplicit false

namespace PowerMarket.Library

variable {α β κ : Type} {on : α → β → Bool} {left : List α} {right : List β}

/-- The pairs of matching rows. -/
def innerJoin (on : α → β → Bool) (left : List α) (right : List β) : List (α × β) :=
  left.flatMap fun a => (right.filter (on a)).map (Prod.mk a)

theorem mem_innerJoin {a : α} {b : β} :
    (a, b) ∈ innerJoin on left right ↔ a ∈ left ∧ b ∈ right ∧ on a b = true := by
  constructor
  · intro member
    obtain ⟨other, inLeft, joined⟩ := List.mem_flatMap.mp member
    obtain ⟨other', at_match, same⟩ := List.mem_map.mp joined
    cases same
    obtain ⟨inRight, holds⟩ := List.mem_filter.mp at_match
    exact ⟨inLeft, inRight, holds⟩
  · rintro ⟨inLeft, inRight, holds⟩
    exact List.mem_flatMap.mpr
      ⟨a, inLeft, List.mem_map.mpr ⟨b, List.mem_filter.mpr ⟨inRight, holds⟩, rfl⟩⟩

/-- The rows of the right table that match, or a missing row if none does. -/
def matchesOf (on : α → β → Bool) (right : List β) (a : α) : List (Option β) :=
  if right.any (on a) then (right.filter (on a)).map some else [none]

/-- Every row of the left table, with each of its matches or with a missing one. -/
def leftJoin (on : α → β → Bool) (left : List α) (right : List β) : List (α × Option β) :=
  left.flatMap fun a => (matchesOf on right a).map (Prod.mk a)

/-- **A left join against a table with a match** has only rows with matches. -/
theorem leftJoin_matched {a : α} {found : Option β} (member : (a, found) ∈ leftJoin on left right)
    (hasMatch : ∃ b ∈ right, on a b = true) :
    a ∈ left ∧ ∃ b ∈ right, on a b = true ∧ found = some b := by
  obtain ⟨other, inLeft, joined⟩ := List.mem_flatMap.mp member
  obtain ⟨found', at_found, same⟩ := List.mem_map.mp joined
  cases same
  rw [matchesOf, if_pos (List.any_eq_true.mpr hasMatch)] at at_found
  obtain ⟨b, at_b, rfl⟩ := List.mem_map.mp at_found
  obtain ⟨inRight, holds⟩ := List.mem_filter.mp at_b
  exact ⟨inLeft, b, inRight, holds, rfl⟩

theorem leftJoin_left {a : α} {found : Option β} (member : (a, found) ∈ leftJoin on left right) :
    a ∈ left := by
  obtain ⟨other, inLeft, joined⟩ := List.mem_flatMap.mp member
  obtain ⟨_, _, same⟩ := List.mem_map.mp joined
  cases same
  exact inLeft

/-- **A left join in which every row has one match** has one row for each of the left table. -/
theorem leftJoin_single (single : ∀ a ∈ left, ∃ b, right.filter (on a) = [b]) :
    (leftJoin on left right).map Prod.fst = left := by
  induction left with
  | nil => rfl
  | cons a left ih =>
      obtain ⟨b, only⟩ := single a List.mem_cons_self
      have found : right.any (on a) = true := by
        obtain ⟨inRight, holds⟩ := List.mem_filter.mp (only ▸ List.mem_singleton_self b)
        exact List.any_eq_true.mpr ⟨b, inRight, holds⟩
      have rest := ih fun a' member => single a' (List.mem_cons_of_mem a member)
      rw [leftJoin, List.flatMap_cons, List.map_append, matchesOf, if_pos found, only]
      exact congrArg (a :: ·) rest

/-- The rows of both tables, with each of their matches or with a missing one. -/
def fullOuterJoin (on : α → β → Bool) (left : List α) (right : List β) :
    List (Option α × Option β) :=
  (leftJoin on left right).map (fun row => (some row.1, row.2)) ++
    (right.filter fun b => !left.any (on · b)).map fun b => (none, some b)

/-- **A full outer join of tables whose rows all have matches** has only pairs of matching rows. -/
theorem fullOuterJoin_matched (lefts : ∀ a ∈ left, ∃ b ∈ right, on a b = true)
    (rights : ∀ b ∈ right, ∃ a ∈ left, on a b = true) {row : Option α × Option β}
    (member : row ∈ fullOuterJoin on left right) :
    ∃ a ∈ left, ∃ b ∈ right, on a b = true ∧ row = (some a, some b) := by
  rcases List.mem_append.mp member with joined | unmatched
  · obtain ⟨⟨a, found⟩, at_pair, rfl⟩ := List.mem_map.mp joined
    obtain ⟨inLeft, b, inRight, holds, rfl⟩ :=
      leftJoin_matched at_pair (lefts a (leftJoin_left at_pair))
    exact ⟨a, inLeft, b, inRight, holds, rfl⟩
  · obtain ⟨b, at_b, rfl⟩ := List.mem_map.mp unmatched
    obtain ⟨inRight, unmatched⟩ := List.mem_filter.mp at_b
    rw [List.any_eq_true.mpr (rights b inRight)] at unmatched
    cases unmatched

/-- The rows of each key that occurs. -/
def groupBy [DecidableEq κ] (key : α → κ) (rows : List α) : List (κ × List α) :=
  (rows.map key).dedup.map fun k => (k, rows.filter (key · = k))

theorem mem_groupBy [DecidableEq κ] {key : α → κ} {rows : List α} {k : κ} {group : List α} :
    (k, group) ∈ groupBy key rows ↔
      k ∈ rows.map key ∧ group = rows.filter (key · = k) := by
  unfold groupBy
  constructor
  · intro member
    obtain ⟨other, at_other, same⟩ := List.mem_map.mp member
    cases same
    exact ⟨List.mem_dedup.mp at_other, rfl⟩
  · rintro ⟨occurs, rfl⟩
    exact List.mem_map.mpr ⟨k, List.mem_dedup.mpr occurs, rfl⟩

end PowerMarket.Library
