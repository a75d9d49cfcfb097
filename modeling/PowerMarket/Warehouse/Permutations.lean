import PowerMarket.Library.Sorting
import PowerMarket.Warehouse.Model

/-!
# The order of a batch

A batch has the same rows in whatever order its records come (`batchRows_perm`), since its keys are
different and its rows are sorted by them (`batchRows_strict`). Its hash is that of a map, so that
it does not depend on the order of the rows either (`batchHash_perm`).
-/

set_option autoImplicit false

namespace PowerMarket

open Library

/-! ## Maps -/

theorem lookup_isSome_iff {α β : Type} [BEq α] [LawfulBEq α] {entries : List (α × β)} {key : α} :
    (entries.lookup key).isSome = true ↔ key ∈ entries.map Prod.fst := by
  rw [← not_iff_not, Bool.not_eq_true, Option.isSome_eq_false_iff, Option.isNone_iff_eq_none,
    List.lookup_eq_none_iff]
  constructor
  · intro missing member
    obtain ⟨entry, inEntries, rfl⟩ := List.mem_map.mp member
    exact absurd (missing entry inEntries) (by simp)
  · intro missing entry inEntries
    rw [bne_iff_ne]
    rintro rfl
    exact missing (List.mem_map_of_mem inEntries)

section Maps

variable {entries entries' fields fields' : List (String × String)} {key key' value value' : String}

theorem dictSet_of_mem (known : key ∈ entries.map Prod.fst) (value : String) :
    dictSet entries key value =
      entries.map fun entry => if entry.1 = key then (key, value) else entry :=
  if_pos (lookup_isSome_iff.mpr known)

theorem replace_keys (entries : List (String × String)) (key value : String) :
    (entries.map fun entry => if entry.1 = key then (key, value) else entry).map Prod.fst =
      entries.map Prod.fst := by
  rw [List.map_map]
  refine List.map_congr_left fun entry _ => ?_
  by_cases same : entry.1 = key
  · simp [same]
  · simp [same]

theorem mem_dictSet_keys : key' ∈ (dictSet entries key value).map Prod.fst ↔
    key' = key ∨ key' ∈ entries.map Prod.fst := by
  by_cases known : key ∈ entries.map Prod.fst
  · rw [dictSet_of_mem known, replace_keys]
    constructor
    · exact Or.inr
    · rintro (rfl | member)
      · exact known
      · exact member
  · rw [dictSet_of_fresh known, List.map_append, List.mem_append, List.map_singleton,
      List.mem_singleton, or_comm]

theorem dictSet_nodup (distinct : (entries.map Prod.fst).Nodup) (key value : String) :
    ((dictSet entries key value).map Prod.fst).Nodup := by
  by_cases known : key ∈ entries.map Prod.fst
  · rw [dictSet_of_mem known, replace_keys]
    exact distinct
  · rw [dictSet_of_fresh known, List.map_append, List.map_singleton]
    exact (List.nodup_append_comm.mp (List.nodup_cons.mpr ⟨known, distinct⟩))

theorem dictSet_perm (perm : entries.Perm entries') (key value : String) :
    (dictSet entries key value).Perm (dictSet entries' key value) := by
  have keys : key ∈ entries.map Prod.fst ↔ key ∈ entries'.map Prod.fst :=
    (perm.map Prod.fst).mem_iff
  by_cases known : key ∈ entries.map Prod.fst
  · rw [dictSet_of_mem known, dictSet_of_mem (keys.mp known)]
    exact perm.map _
  · rw [dictSet_of_fresh known, dictSet_of_fresh (mt keys.mpr known)]
    exact perm.append_right _

/-- Replacing a value leaves the other keys where they are. -/
theorem dictSet_append_replace (different : key ≠ key') (known : key ∈ entries.map Prod.fst)
    (fresh : key' ∉ entries.map Prod.fst) :
    dictSet (dictSet entries key' value') key value =
      dictSet (dictSet entries key value) key' value' := by
  have known' : key ∈ (dictSet entries key' value').map Prod.fst :=
    mem_dictSet_keys.mpr (.inr known)
  have fresh' : key' ∉ (dictSet entries key value).map Prod.fst := by
    rw [mem_dictSet_keys, not_or]
    exact ⟨different.symm, fresh⟩
  rw [dictSet_of_mem known', dictSet_of_fresh fresh', dictSet_of_fresh fresh, dictSet_of_mem known,
    List.map_append, List.map_singleton, if_neg different.symm]

theorem dictSet_comm (different : key ≠ key') :
    (dictSet (dictSet entries key value) key' value').Perm
      (dictSet (dictSet entries key' value') key value) := by
  by_cases known : key ∈ entries.map Prod.fst
  · by_cases known' : key' ∈ entries.map Prod.fst
    · have later : key' ∈ (dictSet entries key value).map Prod.fst :=
        mem_dictSet_keys.mpr (.inr known')
      have later' : key ∈ (dictSet entries key' value').map Prod.fst :=
        mem_dictSet_keys.mpr (.inr known)
      rw [dictSet_of_mem later, dictSet_of_mem later', dictSet_of_mem known, dictSet_of_mem known',
        List.map_map, List.map_map]
      refine List.Perm.of_eq (List.map_congr_left fun entry _ => ?_)
      by_cases first : entry.1 = key
      · simp [first, different]
      · by_cases second : entry.1 = key'
        · simp [second, different.symm]
        · simp [first, second]
    · exact .of_eq (dictSet_append_replace different known known').symm
  · by_cases known' : key' ∈ entries.map Prod.fst
    · exact .of_eq (dictSet_append_replace different.symm known' known)
    · have later : key' ∉ (dictSet entries key value).map Prod.fst := by
        rw [mem_dictSet_keys, not_or]
        exact ⟨different.symm, known'⟩
      have later' : key ∉ (dictSet entries key' value').map Prod.fst := by
        rw [mem_dictSet_keys, not_or]
        exact ⟨different, known⟩
      rw [dictSet_of_fresh later, dictSet_of_fresh later', dictSet_of_fresh known,
        dictSet_of_fresh known', List.append_assoc, List.append_assoc]
      exact List.Perm.append_left entries (List.Perm.swap (key', value') (key, value) [])

/-- The map after setting fields one after another. -/
abbrev setAll (entries fields : List (String × String)) : List (String × String) :=
  fields.foldl (fun entries field => dictSet entries field.1 field.2) entries

theorem setAll_nodup (distinct : (entries.map Prod.fst).Nodup)
    (fields : List (String × String)) : ((setAll entries fields).map Prod.fst).Nodup := by
  induction fields generalizing entries with
  | nil => exact distinct
  | cons field fields ih => exact ih (dictSet_nodup distinct field.1 field.2)

theorem setAll_perm_left (perm : entries.Perm entries') (fields : List (String × String)) :
    (setAll entries fields).Perm (setAll entries' fields) := by
  induction fields generalizing entries entries' with
  | nil => exact perm
  | cons field fields ih => exact ih (dictSet_perm perm field.1 field.2)

/-- **Different keys may be set in any order.** -/
theorem setAll_perm (perm : fields.Perm fields') (distinct : (fields.map Prod.fst).Nodup)
    (entries : List (String × String)) : (setAll entries fields).Perm (setAll entries fields') := by
  induction perm generalizing entries with
  | nil => rfl
  | cons field _ ih => exact ih (List.nodup_cons.mp distinct).2 _
  | swap first second fields =>
      have different : second.1 ≠ first.1 := fun same =>
        (List.nodup_cons.mp distinct).1 (same ▸ List.mem_cons_self)
      exact setAll_perm_left (dictSet_comm different) fields
  | trans earlier _ ih ih' =>
      exact (ih distinct entries).trans (ih' ((earlier.map Prod.fst).nodup_iff.mp distinct) entries)

theorem canonicalText_eq_of_perm (perm : entries.Perm entries')
    (distinct : (entries.map Prod.fst).Nodup) :
    JsonText.canonicalText entries = JsonText.canonicalText entries' := by
  have sorted : JsonText.sortedEntries entries' = JsonText.sortedEntries entries :=
    sortOn_eq_of_perm distinct perm.symm
  rw [JsonText.canonicalText, JsonText.canonicalText, sorted]

/-- **A digest does not depend on the order of the fields.** -/
theorem digest_eq_of_perm [Platform] (schema : String) (perm : fields.Perm fields')
    (distinct : (fields.map Prod.fst).Nodup) : digest schema fields = digest schema fields' := by
  have start : (([("schema", schema)] : List (String × String)).map Prod.fst).Nodup :=
    List.nodup_singleton _
  exact congrArg Platform.sha256
    (canonicalText_eq_of_perm (setAll_perm perm distinct _) (setAll_nodup start fields))

end Maps

/-! ## Rows -/

section Rows

variable [Platform] {request : Request} {records records' : List Observation}
  {rows rows' : List BatchRow}

/-- The keys of the rows are those of the records. -/
theorem rowOf_keys (records : List Observation) :
    (records.map (rowOf request)).map BatchRow.logicalKey =
      records.map Observation.logicalKey := by
  rw [List.map_map]
  rfl

/-- **The rows of a batch are strictly in the order of their keys.** -/
theorem batchRows_strict (batched : batchRows request records = .ok rows) :
    rows.Pairwise fun a b => a.logicalKey < b.logicalKey := by
  obtain ⟨rfl, _, _, distinct⟩ := batchRows_eq_ok.mp batched
  rw [← @rowOf_keys _ request] at distinct
  exact sortOn_strict distinct

/-- **The records of a batch may come in any order.** -/
theorem batchRows_perm (perm : records'.Perm records) :
    batchRows request records' = .ok rows ↔ batchRows request records = .ok rows := by
  have forward : ∀ {first second : List Observation}, first.Perm second →
      batchRows request first = .ok rows → batchRows request second = .ok rows := by
    intro first second perm batched
    obtain ⟨rfl, few, each, distinct⟩ := batchRows_eq_ok.mp batched
    refine batchRows_eq_ok.mpr ⟨?_, perm.length_eq ▸ few, fun record member =>
      each record (perm.mem_iff.mpr member), (perm.map _).nodup_iff.mp distinct⟩
    rw [← @rowOf_keys _ request] at distinct
    exact (sortOn_eq_of_perm distinct (perm.map _).symm).symm
  exact ⟨forward perm, forward perm.symm⟩

/-- **The hash of a batch does not depend on the order of its rows.** -/
theorem batchHash_perm (perm : rows.Perm rows') (distinct : (rows.map (·.logicalKey)).Nodup) :
    batchHash rows = batchHash rows' := by
  have entries : ∀ rows : List BatchRow,
      rows.foldl (fun entries row => dictSet entries row.logicalKey row.contentHash) [] =
        setAll [] (rows.map fun row => (row.logicalKey, row.contentHash)) := by
    intro rows
    rw [setAll, List.foldl_map]
  have keys : ((rows.map fun row => (row.logicalKey, row.contentHash)).map Prod.fst).Nodup := by
    rw [List.map_map]
    exact distinct
  have start : (([] : List (String × String)).map Prod.fst).Nodup := List.nodup_nil
  rw [batchHash, batchHash, entries, entries]
  exact digest_eq_of_perm _ (setAll_perm (perm.map _) keys []) (setAll_nodup start _)

end Rows

end PowerMarket
