import Mathlib.Data.List.Induction
import Mathlib.Data.List.Nodup
import Mathlib.Data.List.Perm.Basic
import Mathlib.Logic.Function.Basic

/-!
# A store that keeps the last value of each key

The plainest store is a function from keys to values, and putting values into it overwrites. After
any number of batches it holds of each key the value that the last batch with the key has put
(`foldl_putAll`). A table with a key shows such a store (`shown`).
-/

set_option autoImplicit false

namespace PowerMarket.Library

variable {α κ ν : Type} [DecidableEq κ]

/-- A store with at most one value for each key. -/
abbrev KeyedStore (κ ν : Type) := κ → Option ν

/-- Put values under their keys, one after another. -/
def putAll (store : KeyedStore κ ν) (entries : List (κ × ν)) : KeyedStore κ ν :=
  entries.foldl (fun store entry => Function.update store entry.1 (some entry.2)) store

/-- The value under a key, the first of them. -/
def valueOf (entries : List (κ × ν)) (key : κ) : Option ν :=
  (entries.find? (·.1 = key)).map Prod.snd

/-- The store that a table shows. -/
def shown (key : α → κ) (value : α → ν) (table : List α) : KeyedStore κ ν :=
  valueOf (table.map fun row => (key row, value row))

theorem valueOf_eq_none {entries : List (κ × ν)} {key : κ} :
    valueOf entries key = none ↔ key ∉ entries.map Prod.fst := by
  rw [valueOf, Option.map_eq_none_iff, List.find?_eq_none]
  constructor
  · intro different member
    obtain ⟨entry, at_entry, same⟩ := List.mem_map.mp member
    exact different entry at_entry (decide_eq_true same)
  · intro absent entry member same
    exact absent (List.mem_map.mpr ⟨entry, member, of_decide_eq_true same⟩)

theorem mem_of_valueOf {entries : List (κ × ν)} {key : κ} {value : ν}
    (found : valueOf entries key = some value) : (key, value) ∈ entries := by
  obtain ⟨entry, at_entry, rfl⟩ := Option.map_eq_some_iff.mp found
  have same := List.find?_some at_entry
  rw [decide_eq_true_iff] at same
  exact same ▸ List.mem_of_find?_eq_some at_entry

theorem valueOf_eq_some {entries : List (κ × ν)} (keys : (entries.map Prod.fst).Nodup) {key : κ}
    {value : ν} : valueOf entries key = some value ↔ (key, value) ∈ entries := by
  refine ⟨mem_of_valueOf, fun member => ?_⟩
  cases found : valueOf entries key with
  | none => exact absurd (List.mem_map_of_mem member) (valueOf_eq_none.mp found)
  | some other =>
      have same := List.inj_on_of_nodup_map keys (mem_of_valueOf found) member rfl
      exact congrArg some (congrArg Prod.snd same)

/-- **Putting a batch** overwrites the values of its keys and leaves the others. -/
theorem putAll_apply {entries : List (κ × ν)} (keys : (entries.map Prod.fst).Nodup)
    (store : KeyedStore κ ν) (key : κ) :
    putAll store entries key = (valueOf entries key).or (store key) := by
  induction entries generalizing store with
  | nil => rfl
  | cons entry entries ih =>
      obtain ⟨fresh, rest⟩ := List.nodup_cons.mp keys
      have step : putAll store (entry :: entries) =
          putAll (Function.update store entry.1 (some entry.2)) entries := rfl
      rw [step, ih rest]
      by_cases here : entry.1 = key
      · subst here
        have absent := valueOf_eq_none.mpr fresh
        rw [absent, Function.update_self]
        simp [valueOf]
      · rw [Function.update_of_ne (Ne.symm here)]
        simp [valueOf, here]

/-- **After any number of batches** the store holds the value that was put last. -/
theorem foldl_putAll {β : Type} {puts : β → List (κ × ν)} {batches : List β}
    (keys : ∀ batch ∈ batches, ((puts batch).map Prod.fst).Nodup) (key : κ) :
    batches.foldl (fun store batch => putAll store (puts batch)) (fun _ => none) key =
      (batches.filterMap fun batch => valueOf (puts batch) key).getLast? := by
  induction batches using List.reverseRecOn with
  | nil => rfl
  | append_singleton batches batch ih =>
      have before := ih fun other member => keys other (List.mem_append_left _ member)
      rw [List.foldl_append, List.foldl_cons, List.foldl_nil,
        putAll_apply (keys batch (List.mem_append_right _ (List.mem_singleton_self batch))), before,
        List.filterMap_append]
      cases put : valueOf (puts batch) key with
      | none => simp [put]
      | some value => simp [put]

theorem shown_eq_none {key : α → κ} {value : α → ν} {table : List α} {k : κ} :
    shown key value table k = none ↔ ∀ row ∈ table, key row ≠ k := by
  rw [shown, valueOf_eq_none, List.map_map]
  simp

theorem shown_eq_some {key : α → κ} {value : α → ν} {table : List α} (keys : (table.map key).Nodup)
    {k : κ} {v : ν} : shown key value table k = some v ↔
      ∃ row ∈ table, key row = k ∧ value row = v := by
  rw [shown, valueOf_eq_some (by rw [List.map_map]; exact keys), List.mem_map]
  simp only [Prod.mk.injEq]

end PowerMarket.Library
