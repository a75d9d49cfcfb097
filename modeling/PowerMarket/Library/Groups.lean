import PowerMarket.Library.Joins
import Mathlib.Algebra.BigOperators.Group.List.Basic
import Mathlib.Algebra.GroupWithZero.Nat

/-!
# Sums over groups

Grouping loses no row and repeats none: the groups of a table, one after another, are a permutation
of it (`groupBy_perm`). So a count over the rows is the sum over the groups of the counts in each
(`countP_groupBy`), and rows that are counted at their owners are counted once when the owners have
different keys (`sum_owned`). All of it rests on selecting the rows of one key after another
(`flatMap_filter_perm`). A join in which no row has two matches keeps the rows with a match
(`innerJoin_single`), and a comparison by a full outer join finds nothing exactly when every row has
a match that does not differ from it (`fullOuterJoin_filter_nil_iff`).
-/

set_option autoImplicit false

namespace PowerMarket.Library

variable {α κ : Type} [DecidableEq κ] {key : α → κ} {rows : List α}

/-- **Selecting the rows of one key after another** selects the rows whose keys are listed. -/
theorem flatMap_filter_perm (key : α → κ) (rows : List α) {keys : List κ} (distinct : keys.Nodup) :
    (keys.flatMap fun k => rows.filter (key · = k)).Perm (rows.filter (key · ∈ keys)) := by
  induction keys with
  | nil =>
      rw [List.flatMap_nil, List.filter_eq_nil_iff.mpr fun row _ listed => ?_]
      simp at listed
  | cons k keys ih =>
      obtain ⟨absent, distinct⟩ := List.nodup_cons.mp distinct
      have here : (rows.filter (key · ∈ k :: keys)).filter (key · = k) =
          rows.filter (key · = k) := by
        rw [List.filter_filter]
        refine List.filter_congr fun row _ => ?_
        by_cases same : key row = k <;> simp [same]
      have later : ((rows.filter (key · ∈ k :: keys)).filter fun row => !decide (key row = k)) =
          rows.filter (key · ∈ keys) := by
        rw [List.filter_filter]
        refine List.filter_congr fun row _ => ?_
        by_cases same : key row = k
        · simp [same, absent]
        · simp [same]
      rw [List.flatMap_cons]
      refine (List.Perm.append_left _ (ih distinct)).trans ?_
      have split := List.filter_append_perm (key · = k) (rows.filter (key · ∈ k :: keys))
      rwa [here, later] at split

theorem groupBy_keys (key : α → κ) (rows : List α) :
    ((groupBy key rows).map Prod.fst).Nodup := by
  have keys : (groupBy key rows).map Prod.fst = (rows.map key).dedup := by
    rw [groupBy, List.map_map]
    exact List.map_id _
  exact keys ▸ List.nodup_dedup _

/-- **Grouping loses no row and repeats none.** -/
theorem groupBy_perm (key : α → κ) (rows : List α) :
    ((groupBy key rows).flatMap Prod.snd).Perm rows := by
  have all : rows.filter (key · ∈ (rows.map key).dedup) = rows :=
    List.filter_eq_self.mpr fun row member =>
      decide_eq_true (List.mem_dedup.mpr (List.mem_map_of_mem member))
  have perm := flatMap_filter_perm key rows (List.nodup_dedup (rows.map key))
  rw [all] at perm
  rwa [groupBy, List.flatMap_map]

theorem key_of_mem_groupBy {k : κ} {group : List α} (member : (k, group) ∈ groupBy key rows) {row : α}
    (inGroup : row ∈ group) : row ∈ rows ∧ key row = k := by
  obtain ⟨_, rfl⟩ := mem_groupBy.mp member
  obtain ⟨inRows, same⟩ := List.mem_filter.mp inGroup
  exact ⟨inRows, of_decide_eq_true same⟩

theorem groupBy_ne_nil {k : κ} {group : List α} (member : (k, group) ∈ groupBy key rows) :
    group ≠ [] := by
  obtain ⟨occurs, rfl⟩ := mem_groupBy.mp member
  obtain ⟨row, inRows, same⟩ := List.mem_map.mp occurs
  exact List.ne_nil_of_mem (List.mem_filter.mpr ⟨inRows, decide_eq_true same⟩)

/-- Every row is in the group of its key. -/
theorem exists_group {row : α} (member : row ∈ rows) :
    (key row, rows.filter (key · = key row)) ∈ groupBy key rows :=
  mem_groupBy.mpr ⟨List.mem_map_of_mem member, rfl⟩

/-- **A count over the groups** is the count over the rows. -/
theorem countP_groupBy (key : α → κ) (p : α → Bool) (rows : List α) :
    ((groupBy key rows).map fun group => group.2.countP p).sum = rows.countP p := by
  rw [← (groupBy_perm key rows).countP_eq p, List.countP_flatMap]
  rfl

/-- A sum that leaves some rows out is the sum over the others. -/
theorem sum_ite (p : α → Bool) (weight : α → Nat) (rows : List α) :
    (rows.map fun row => if p row then weight row else 0).sum =
      ((rows.filter p).map weight).sum := by
  induction rows with
  | nil => rfl
  | cons row rows ih =>
      rw [List.map_cons, List.sum_cons, ih, List.filter_cons]
      split_ifs
      · rw [List.map_cons, List.sum_cons]
      · rw [Nat.zero_add]

/-- **Rows counted at their owners**, which have different keys, are counted once. -/
theorem sum_owned {ω : Type} {owner : ω → κ} {owners : List ω}
    (distinct : (owners.map owner).Nodup) (key : α → κ) (rows : List α) :
    (owners.map fun o => (rows.filter (key · = owner o)).length).sum =
      (rows.filter (key · ∈ owners.map owner)).length := by
  have perm := flatMap_filter_perm key rows distinct
  rw [← perm.length_eq, List.length_flatMap, List.map_map]
  rfl

section Joins

variable {β : Type} {on : α → β → Bool} {left : List α} {right : List β}

theorem innerJoin_filter (holds : β → Bool) :
    (innerJoin on left right).filter (holds ·.2) =
      innerJoin (fun a b => on a b && holds b) left right := by
  rw [innerJoin, innerJoin, List.filter_flatMap]
  refine List.flatMap_congr fun a _ => ?_
  rw [List.filter_map, List.filter_filter]
  exact congrArg _ (List.filter_congr fun b _ => Bool.and_comm _ _)

theorem innerJoin_filter_left (holds : α → Bool) :
    (innerJoin on left right).filter (holds ·.1) = innerJoin on (left.filter holds) right := by
  induction left with
  | nil => rfl
  | cons a left ih =>
      rw [innerJoin, List.flatMap_cons, List.filter_append]
      have first : ((right.filter (on a)).map (Prod.mk a)).filter (holds ·.1) =
          if holds a then (right.filter (on a)).map (Prod.mk a) else [] := by
        rw [List.filter_map]
        split_ifs with held
        · exact congrArg _ (List.filter_eq_self.mpr fun _ _ => held)
        · exact congrArg _ (List.filter_eq_nil_iff.mpr fun _ _ => held)
      rw [first, List.filter_cons]
      split_ifs
      · exact congrArg (_ ++ ·) ih
      · exact ih

/-- **A join in which no row has two matches** keeps the rows with a match, once. -/
theorem innerJoin_single (single : ∀ a ∈ left, (right.filter (on a)).length ≤ 1) :
    (innerJoin on left right).map Prod.fst = left.filter fun a => right.any (on a) := by
  induction left with
  | nil => rfl
  | cons a left ih =>
      have rest := ih fun other member => single other (List.mem_cons_of_mem a member)
      rw [innerJoin, List.flatMap_cons, List.map_append, List.filter_cons, List.map_map]
      have first : ((right.filter (on a)).map (Prod.fst ∘ Prod.mk a)) =
          if right.any (on a) then [a] else [] := by
        have few := single a List.mem_cons_self
        split_ifs with found
        · obtain ⟨b, inRight, holds⟩ := List.any_eq_true.mp found
          have some_ : b ∈ right.filter (on a) := List.mem_filter.mpr ⟨inRight, holds⟩
          obtain ⟨b', only⟩ := List.length_eq_one_iff.mp
            (Nat.le_antisymm few (List.length_pos_of_mem some_))
          rw [only]
          rfl
        · rw [List.filter_eq_nil_iff.mpr fun b inRight holds =>
            found (List.any_eq_true.mpr ⟨b, inRight, holds⟩)]
          rfl
      rw [first]
      split_ifs
      · exact congrArg (a :: ·) rest
      · exact rest

theorem mem_leftJoin_some {a : α} {b : β} :
    (a, some b) ∈ leftJoin on left right ↔ a ∈ left ∧ b ∈ right ∧ on a b = true := by
  constructor
  · intro member
    obtain ⟨other, inLeft, joined⟩ := List.mem_flatMap.mp member
    obtain ⟨found, at_found, same⟩ := List.mem_map.mp joined
    cases same
    rw [matchesOf] at at_found
    split_ifs at at_found
    · obtain ⟨b', at_b, same⟩ := List.mem_map.mp at_found
      cases same
      obtain ⟨inRight, holds⟩ := List.mem_filter.mp at_b
      exact ⟨inLeft, inRight, holds⟩
    · cases List.mem_singleton.mp at_found
  · rintro ⟨inLeft, inRight, holds⟩
    refine List.mem_flatMap.mpr ⟨a, inLeft, List.mem_map_of_mem ?_⟩
    rw [matchesOf, if_pos (List.any_eq_true.mpr ⟨b, inRight, holds⟩)]
    exact List.mem_map_of_mem (List.mem_filter.mpr ⟨inRight, holds⟩)

theorem mem_leftJoin_none {a : α} :
    (a, none) ∈ leftJoin on left right ↔ a ∈ left ∧ ∀ b ∈ right, on a b = false := by
  constructor
  · intro member
    obtain ⟨other, inLeft, joined⟩ := List.mem_flatMap.mp member
    obtain ⟨found, at_found, same⟩ := List.mem_map.mp joined
    cases same
    rw [matchesOf] at at_found
    split_ifs at at_found with found
    · obtain ⟨b, _, same⟩ := List.mem_map.mp at_found
      cases same
    · exact ⟨inLeft, fun b inRight => Bool.eq_false_iff.mpr fun holds =>
        found (List.any_eq_true.mpr ⟨b, inRight, holds⟩)⟩
  · rintro ⟨inLeft, unmatched⟩
    refine List.mem_flatMap.mpr ⟨a, inLeft, List.mem_map_of_mem ?_⟩
    rw [matchesOf, if_neg fun found => ?_]
    · exact List.mem_singleton_self _
    · obtain ⟨b, inRight, holds⟩ := List.any_eq_true.mp found
      rw [unmatched b inRight] at holds
      cases holds

/-- **When a comparison finds nothing**: every row has a match, and no matching rows differ. A row
without a match is a difference. -/
theorem fullOuterJoin_filter_nil_iff {differs : Option α × Option β → Bool}
    (lefts : ∀ a, differs (some a, none) = true) (rights : ∀ b, differs (none, some b) = true) :
    (fullOuterJoin on left right).filter differs = [] ↔
      (∀ a ∈ left, ∃ b ∈ right, on a b = true) ∧ (∀ b ∈ right, ∃ a ∈ left, on a b = true) ∧
        ∀ a ∈ left, ∀ b ∈ right, on a b = true → differs (some a, some b) = false := by
  rw [List.filter_eq_nil_iff]
  constructor
  · intro nothing
    refine ⟨fun a inLeft => ?_, fun b inRight => ?_, fun a inLeft b inRight holds => ?_⟩
    · by_contra unmatched
      push Not at unmatched
      refine nothing (some a, none) (List.mem_append_left _ (List.mem_map.mpr ⟨(a, none), ?_, rfl⟩))
        (lefts a)
      exact mem_leftJoin_none.mpr ⟨inLeft, fun b inRight =>
        Bool.eq_false_iff.mpr (unmatched b inRight)⟩
    · by_contra unmatched
      push Not at unmatched
      refine nothing (none, some b) (List.mem_append_right _ (List.mem_map_of_mem ?_)) (rights b)
      refine List.mem_filter.mpr ⟨inRight, ?_⟩
      rw [Bool.not_eq_true', Bool.eq_false_iff]
      intro found
      obtain ⟨a, inLeft, holds⟩ := List.any_eq_true.mp found
      exact unmatched a inLeft holds
    · refine Bool.eq_false_iff.mpr (nothing (some a, some b) (List.mem_append_left _ ?_))
      exact List.mem_map.mpr ⟨(a, some b), mem_leftJoin_some.mpr ⟨inLeft, inRight, holds⟩, rfl⟩
  · rintro ⟨lefts, rights, same⟩ row member differs
    obtain ⟨a, inLeft, b, inRight, holds, rfl⟩ := fullOuterJoin_matched lefts rights member
    rw [same a inLeft b inRight holds] at differs
    cases differs

end Joins

end PowerMarket.Library
