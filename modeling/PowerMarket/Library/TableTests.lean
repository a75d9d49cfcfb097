import PowerMarket.Library.Groups

/-!
# Tests of a table

The tests that a table is usually declared with, each a query for violations: keys that occur more
than once, missing values, values that are not accepted, and references to rows that are not there.
Each comes with the property that it tests.
-/

set_option autoImplicit false

namespace PowerMarket.Library

variable {α β κ : Type} [DecidableEq κ] {key : α → κ} {rows : List α}

/-- The keys with more than one row, and how many rows they have. -/
def duplicates (key : α → κ) (rows : List α) : List (κ × Nat) :=
  ((groupBy key rows).map fun group => (group.1, group.2.length)).filter (1 < ·.2)

/-- The rows without a value. -/
def missing (column : α → Option β) (rows : List α) : List α :=
  rows.filter fun row => (column row).isNone

/-- The different values that are not accepted. -/
def unexpected (value : α → κ) (accepted : List κ) (rows : List α) : List κ :=
  (rows.map value).dedup.filter (· ∉ accepted)

/-- The rows whose reference is not among the keys of another table. -/
def orphans (reference : α → κ) (keys : List κ) (rows : List α) : List α :=
  rows.filter fun row => reference row ∉ keys

/-- **Keys are unique** exactly when no key has more than one row. -/
theorem duplicates_nil_iff : duplicates key rows = [] ↔ (rows.map key).Nodup := by
  rw [List.nodup_iff_count_le_one, duplicates, List.filter_eq_nil_iff]
  have counted : ∀ k, (rows.map key).count k = (rows.filter (key · = k)).length := by
    intro k
    rw [List.count_eq_countP, List.countP_map, List.countP_eq_length_filter]
    exact congrArg List.length (List.filter_congr fun row _ => beq_eq_decide _ _)
  constructor
  · intro single k
    by_cases occurs : k ∈ rows.map key
    · have few := single (k, (rows.filter (key · = k)).length)
        (List.mem_map.mpr ⟨(k, _), mem_groupBy.mpr ⟨occurs, rfl⟩, rfl⟩)
      rw [decide_eq_true_iff, Nat.not_lt] at few
      exact Nat.le_trans (Nat.le_of_eq (counted k)) few
    · rw [List.count_eq_zero.mpr occurs]
      exact Nat.zero_le 1
  · intro single row member many
    obtain ⟨⟨k, group⟩, at_group, rfl⟩ := List.mem_map.mp member
    obtain ⟨_, rfl⟩ := mem_groupBy.mp at_group
    have few := Nat.le_trans (Nat.le_of_eq (counted k).symm) (single k)
    exact absurd (of_decide_eq_true many) (Nat.not_lt.mpr few)

theorem groupBy_single (distinct : (rows.map key).Nodup) {group : κ × List α}
    (member : group ∈ groupBy key rows) : group.2.length = 1 := by
  have few := List.filter_eq_nil_iff.mp (duplicates_nil_iff.mpr distinct)
    (group.1, group.2.length) (List.mem_map_of_mem member)
  have some_ := List.length_pos_iff.mpr (groupBy_ne_nil member)
  rw [decide_eq_true_iff, Nat.not_lt] at few
  omega

omit [DecidableEq κ] in
theorem missing_nil_iff {column : α → Option β} :
    missing column rows = [] ↔ ∀ row ∈ rows, (column row).isSome = true := by
  rw [missing, List.filter_eq_nil_iff]
  refine forall₂_congr fun row _ => ?_
  cases column row <;> simp

theorem unexpected_nil_iff {value : α → κ} {accepted : List κ} :
    unexpected value accepted rows = [] ↔ ∀ row ∈ rows, value row ∈ accepted := by
  rw [unexpected, List.filter_eq_nil_iff]
  constructor
  · intro all row member
    have holds := all (value row) (List.mem_dedup.mpr (List.mem_map_of_mem member))
    exact not_not.mp fun outside => holds (decide_eq_true outside)
  · intro all v at_v outside
    obtain ⟨row, member, rfl⟩ := List.mem_map.mp (List.mem_dedup.mp at_v)
    exact of_decide_eq_true outside (all row member)

theorem orphans_nil_iff {reference : α → κ} {keys : List κ} :
    orphans reference keys rows = [] ↔ ∀ row ∈ rows, reference row ∈ keys := by
  rw [orphans, List.filter_eq_nil_iff]
  refine forall₂_congr fun row _ => ?_
  rw [decide_eq_true_iff, not_not]

end PowerMarket.Library
