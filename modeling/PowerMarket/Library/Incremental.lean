import Mathlib.Data.List.Dedup
import Mathlib.Data.List.MinMax
import Mathlib.Data.List.Perm.Basic

/-!
# Tables that are maintained incrementally

A query keeps of each key the row with the greatest rank (`latestByKey`). Its result can be
maintained: only the rows with a number above the greatest one in the table are queried, and the
result is merged into the table by key (`mergeByKey`). When later rows of a key have greater ranks
and no row with a small number appears late (`Extension`), the merged table is the result of the
query on all rows (`merge_latestByKey`).

Tables are lists whose order means nothing; two tables are the same when they are permutations of
one another.
-/

set_option autoImplicit false

namespace PowerMarket.Library

variable {α κ ρ : Type} [DecidableEq κ] {key : α → κ}

/-! ## Tables with a key -/

omit [DecidableEq κ] in
theorem perm_of_keys {s t : List α} (keys : (s.map key).Nodup) (keys' : (t.map key).Nodup)
    (same : ∀ a, a ∈ s ↔ a ∈ t) : s.Perm t :=
  (List.perm_ext_iff_of_nodup keys.of_map keys'.of_map).mpr same

/-- Update the rows of the target that the source has a row for, and insert the other rows of the
source. -/
def mergeByKey (key : α → κ) (target source : List α) : List α :=
  target.map (fun row => (source.find? (key · = key row)).getD row) ++
    source.filter fun row => key row ∉ target.map key

/-- An updated row keeps its key. -/
theorem key_update (source : List α) (row : α) :
    key ((source.find? (key · = key row)).getD row) = key row := by
  cases found : source.find? (key · = key row) with
  | none => rfl
  | some other =>
      have ofKey := List.find?_some found
      exact of_decide_eq_true ofKey

/-- **The rows of a merged table** are those of the source and those of the target whose key the
source does not have. -/
theorem mem_mergeByKey {target source : List α} (keys : (source.map key).Nodup) {row : α} :
    row ∈ mergeByKey key target source ↔
      row ∈ source ∨ row ∈ target ∧ key row ∉ source.map key := by
  have unique : ∀ {a b : α}, a ∈ source → b ∈ source → key a = key b → a = b :=
    fun first second same => List.inj_on_of_nodup_map keys first second same
  constructor
  · intro member
    rcases List.mem_append.mp member with updated | inserted
    · obtain ⟨old, at_old, rfl⟩ := List.mem_map.mp updated
      cases found : source.find? (key · = key old) with
      | some other => exact .inl (List.mem_of_find?_eq_some found)
      | none =>
          refine .inr ⟨at_old, fun known => ?_⟩
          obtain ⟨other, at_other, same⟩ := List.mem_map.mp known
          exact (List.find?_eq_none.mp found) other at_other (decide_eq_true same)
    · exact .inl (List.mem_filter.mp inserted).1
  · rintro (inSource | ⟨inTarget, unknown⟩)
    · by_cases known : key row ∈ target.map key
      · obtain ⟨old, at_old, same⟩ := List.mem_map.mp known
        refine List.mem_append_left _ (List.mem_map.mpr ⟨old, at_old, ?_⟩)
        cases found : source.find? (key · = key old) with
        | some other =>
            have ofKey := List.find?_some found
            exact unique (List.mem_of_find?_eq_some found) inSource
              ((of_decide_eq_true ofKey).trans same)
        | none => exact absurd (decide_eq_true same.symm) ((List.find?_eq_none.mp found) row inSource)
      · exact List.mem_append_right _ (List.mem_filter.mpr ⟨inSource, decide_eq_true known⟩)
    · refine List.mem_append_left _ (List.mem_map.mpr ⟨row, inTarget, ?_⟩)
      have absent : source.find? (key · = key row) = none := by
        rw [List.find?_eq_none]
        intro other at_other same
        exact unknown (List.mem_map.mpr ⟨other, at_other, of_decide_eq_true same⟩)
      rw [absent]
      rfl

theorem mergeByKey_keys {target source : List α} (keys : (target.map key).Nodup)
    (keys' : (source.map key).Nodup) : ((mergeByKey key target source).map key).Nodup := by
  have updated : (target.map fun row => (source.find? (key · = key row)).getD row).map key =
      target.map key := by
    rw [List.map_map]
    exact List.map_congr_left fun row _ => key_update source row
  rw [mergeByKey, List.map_append, updated]
  refine List.Nodup.append keys (keys'.sublist (List.filter_sublist.map key)) ?_
  intro k known inserted
  obtain ⟨row, member, rfl⟩ := List.mem_map.mp inserted
  exact of_decide_eq_true (List.mem_filter.mp member).2 known

/-! ## The latest row of each key -/

section Latest

variable [LinearOrder ρ] {rank : α → ρ}

/-- The row of each key with the greatest rank. -/
def latestByKey (key : α → κ) (rank : α → ρ) (rows : List α) : List α :=
  (rows.map key).dedup.filterMap fun k => (rows.filter (key · = k)).argmax rank

/-- Rows of one key have different ranks. -/
def RankedApart (key : α → κ) (rank : α → ρ) (rows : List α) : Prop :=
  ∀ a ∈ rows, ∀ b ∈ rows, key a = key b → rank a = rank b → a = b

omit [DecidableEq κ] [LinearOrder ρ] in
theorem RankedApart.subset {rows rows' : List α} (apart : RankedApart key rank rows)
    (within : rows' ⊆ rows) : RankedApart key rank rows' :=
  fun a at_a b at_b => apart a (within at_a) b (within at_b)

theorem latestByKey_sound {rows : List α} {row : α} (member : row ∈ latestByKey key rank rows) :
    row ∈ rows ∧ ∀ a ∈ rows, key a = key row → rank a ≤ rank row := by
  obtain ⟨k, _, greatest⟩ := List.mem_filterMap.mp member
  obtain ⟨inRows, ofKey⟩ := List.mem_filter.mp (List.argmax_mem greatest)
  refine ⟨inRows, fun a at_a same => ?_⟩
  refine List.le_of_mem_argmax (List.mem_filter.mpr ⟨at_a, decide_eq_true ?_⟩) greatest
  exact same.trans (of_decide_eq_true ofKey)

theorem latestByKey_complete (key : α → κ) (rank : α → ρ) {rows : List α} {a : α}
    (member : a ∈ rows) : ∃ row ∈ latestByKey key rank rows, key row = key a := by
  have nonempty : rows.filter (key · = key a) ≠ [] :=
    List.ne_nil_of_mem (List.mem_filter.mpr ⟨member, decide_eq_true rfl⟩)
  obtain ⟨row, greatest⟩ : ∃ row, (rows.filter (key · = key a)).argmax rank = some row :=
    Option.ne_none_iff_exists'.mp fun none => nonempty (List.argmax_eq_none.mp none)
  refine ⟨row, List.mem_filterMap.mpr ⟨key a, ?_, greatest⟩, ?_⟩
  · exact List.mem_dedup.mpr (List.mem_map_of_mem member)
  · exact of_decide_eq_true (List.mem_filter.mp (List.argmax_mem greatest)).2

/-- **The latest rows** are those that no row of their key outranks. -/
theorem mem_latestByKey {rows : List α} (apart : RankedApart key rank rows) {row : α} :
    row ∈ latestByKey key rank rows ↔
      row ∈ rows ∧ ∀ a ∈ rows, key a = key row → rank a ≤ rank row := by
  refine ⟨latestByKey_sound, fun ⟨inRows, greatest⟩ => ?_⟩
  obtain ⟨latest, isLatest, same⟩ := latestByKey_complete key rank inRows
  obtain ⟨inRows', greatest'⟩ := latestByKey_sound isLatest
  have ranks : rank row = rank latest :=
    le_antisymm (greatest' row inRows same.symm) (greatest latest inRows' same)
  rw [apart row inRows latest inRows' same.symm ranks]
  exact isLatest

theorem latestByKey_keys (key : α → κ) (rank : α → ρ) (rows : List α) :
    ((latestByKey key rank rows).map key).Nodup := by
  have sublist : ∀ keys : List κ,
      ((keys.filterMap fun k => (rows.filter (key · = k)).argmax rank).map key).Sublist keys := by
    intro keys
    induction keys with
    | nil => exact List.Sublist.refl _
    | cons k keys ih =>
        rw [List.filterMap_cons]
        cases found : (rows.filter (key · = k)).argmax rank with
        | none => exact ih.cons k
        | some row =>
            have ofKey : key row = k :=
              of_decide_eq_true (List.mem_filter.mp (List.argmax_mem found)).2
            rw [List.map_cons, ofKey]
            exact ih.cons_cons k
  exact (List.nodup_dedup _).sublist (sublist _)

end Latest

/-! ## Maintenance -/

section Maintenance

variable [LinearOrder ρ] {rank : α → ρ} {number : α → ℕ}

/-- The greatest number in a table, and zero in an empty one. -/
def watermark (number : α → ℕ) (table : List α) : ℕ := (table.map number).foldr max 0

theorem number_le_watermark {table : List α} {row : α} (member : row ∈ table) :
    number row ≤ watermark number table := by
  induction table with
  | nil => cases member
  | cons first table ih =>
      rcases List.mem_cons.mp member with rfl | later
      · exact le_max_left _ _
      · exact le_trans (ih later) (le_max_right _ _)

/-- The greatest number is that of a row, unless it is zero. -/
theorem exists_watermark {table : List α} (positive : 0 < watermark number table) :
    ∃ row ∈ table, number row = watermark number table := by
  induction table with
  | nil => exact absurd positive (Nat.lt_irrefl 0)
  | cons first table ih =>
      rcases le_total (watermark number table) (number first) with greater | smaller
      · exact ⟨first, List.mem_cons_self .., (max_eq_left greater).symm⟩
      · have same : watermark number (first :: table) = watermark number table := max_eq_right smaller
        obtain ⟨row, member, greatest⟩ := ih (same ▸ positive)
        exact ⟨row, List.mem_cons_of_mem _ member, greatest.trans same.symm⟩

/-- The rows have the old rows among them, no row that is not old has a number as small as an old
one, and of each key the rows with greater numbers have greater ranks. -/
structure Extension (key : α → κ) (rank : α → ρ) (number : α → ℕ) (old rows : List α) : Prop where
  kept : old ⊆ rows
  positive : ∀ a ∈ rows, 0 < number a
  late : ∀ a ∈ old, ∀ b ∈ rows, number b ≤ number a → b ∈ old
  ranked : ∀ a ∈ rows, ∀ b ∈ rows, key a = key b → number a < number b → rank a < rank b

variable {old rows target : List α}

/-- **The watermark of the table is that of all old rows**, although the table does not have all of
them: the old rows are those with numbers up to it. -/
theorem Extension.old_iff (extension : Extension key rank number old rows)
    (maintained : target.Perm (latestByKey key rank old)) {a : α} (member : a ∈ rows) :
    number a ≤ watermark number target ↔ a ∈ old := by
  constructor
  · intro small
    obtain ⟨row, inTarget, greatest⟩ :=
      exists_watermark (lt_of_lt_of_le (extension.positive a member) small)
    have isOld := (latestByKey_sound (maintained.subset inTarget)).1
    exact extension.late row isOld a member (small.trans greatest.symm.le)
  · intro isOld
    obtain ⟨row, isLatest, same⟩ := latestByKey_complete key rank isOld
    obtain ⟨isOld', greatest⟩ := latestByKey_sound isLatest
    have numbers : number a ≤ number row := by
      by_contra greater
      exact absurd (greatest a isOld same.symm) (not_le.mpr
        (extension.ranked row (extension.kept isOld') a member same (not_le.mp greater)))
    exact numbers.trans (number_le_watermark (maintained.symm.subset isLatest))

/-- **Maintaining the latest rows.** Merging the latest of the rows above the watermark into the
table of the latest old rows gives the latest of all rows. -/
theorem merge_latestByKey (extension : Extension key rank number old rows)
    (apart : RankedApart key rank rows) (maintained : target.Perm (latestByKey key rank old)) :
    (mergeByKey key target (latestByKey key rank
      (rows.filter (watermark number target < number ·)))).Perm (latestByKey key rank rows) := by
  have isOld := @Extension.old_iff _ _ _ _ _ _ _ _ _ _ _ extension maintained
  have fresh : ∀ {a : α}, a ∈ rows.filter (watermark number target < number ·) ↔
      a ∈ rows ∧ watermark number target < number a := by
    intro a
    rw [List.mem_filter, decide_eq_true_iff]
  have sourceKeys := latestByKey_keys key rank
    (rows.filter (watermark number target < number ·))
  have targetKeys : (target.map key).Nodup :=
    (maintained.map key).nodup_iff.mpr (latestByKey_keys key rank old)
  have source := @mem_latestByKey _ _ _ _ key _ rank _
    (apart.subset fun a member => (fresh.mp member).1)
  refine perm_of_keys (mergeByKey_keys targetKeys sourceKeys) (latestByKey_keys key rank rows)
    fun row => ?_
  rw [mem_mergeByKey sourceKeys, mem_latestByKey apart]
  constructor
  · rintro (inSource | ⟨inTarget, unknown⟩)
    · obtain ⟨isFresh, greatest⟩ := source.mp inSource
      obtain ⟨inRows, above⟩ := fresh.mp isFresh
      refine ⟨inRows, fun a at_a same => ?_⟩
      rcases Nat.lt_or_ge (watermark number target) (number a) with later | earlier
      · exact greatest a (fresh.mpr ⟨at_a, later⟩) same
      · exact (extension.ranked a at_a row inRows same (lt_of_le_of_lt earlier above)).le
    · obtain ⟨inOld, greatest⟩ := latestByKey_sound (maintained.subset inTarget)
      refine ⟨extension.kept inOld, fun a at_a same => ?_⟩
      rcases Nat.lt_or_ge (watermark number target) (number a) with later | earlier
      · obtain ⟨latest, inSource, same'⟩ := latestByKey_complete key rank
          (fresh.mpr ⟨at_a, later⟩)
        exact absurd (List.mem_map.mpr ⟨latest, inSource, same'.trans same⟩) unknown
      · exact greatest a ((isOld at_a).mp earlier) same
  · rintro ⟨inRows, greatest⟩
    rcases Nat.lt_or_ge (watermark number target) (number row) with later | earlier
    · exact .inl (source.mpr ⟨fresh.mpr ⟨inRows, later⟩,
        fun a isFresh => greatest a (fresh.mp isFresh).1⟩)
    · have inOld := (isOld inRows).mp earlier
      refine .inr ⟨maintained.symm.subset ((mem_latestByKey
        (apart.subset extension.kept)).mpr ⟨inOld, fun a at_a => greatest a (extension.kept at_a)⟩),
        fun known => ?_⟩
      obtain ⟨latest, inSource, same⟩ := List.mem_map.mp known
      obtain ⟨inRows', above⟩ := fresh.mp (latestByKey_sound inSource).1
      exact absurd (greatest latest inRows' same) (not_le.mpr
        (extension.ranked row inRows latest inRows' same.symm (lt_of_le_of_lt earlier above)))

/-- **The latest old rows can be read back.** Of the rows with numbers up to the watermark the latest
are those of the old rows. -/
theorem Extension.latest_upTo (extension : Extension key rank number old rows)
    (apart : RankedApart key rank rows) (maintained : target.Perm (latestByKey key rank old)) :
    target.Perm (latestByKey key rank (rows.filter (number · ≤ watermark number target))) := by
  have upTo : ∀ {a : α}, a ∈ rows.filter (number · ≤ watermark number target) ↔ a ∈ old := by
    intro a
    rw [List.mem_filter, decide_eq_true_iff]
    constructor
    · rintro ⟨member, small⟩
      exact (extension.old_iff maintained member).mp small
    · intro isOld
      exact ⟨extension.kept isOld, (extension.old_iff maintained (extension.kept isOld)).mpr isOld⟩
  refine maintained.trans (perm_of_keys (latestByKey_keys key rank old)
    (latestByKey_keys key rank _) fun row => ?_)
  rw [mem_latestByKey (apart.subset extension.kept),
    mem_latestByKey (apart.subset (List.filter_subset_self _))]
  constructor
  · rintro ⟨isOld, greatest⟩
    exact ⟨upTo.mpr isOld, fun a member => greatest a (upTo.mp member)⟩
  · rintro ⟨member, greatest⟩
    exact ⟨upTo.mp member, fun a isOld => greatest a (upTo.mpr isOld)⟩

end Maintenance

end PowerMarket.Library
