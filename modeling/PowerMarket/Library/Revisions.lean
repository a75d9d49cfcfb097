import Mathlib.Data.List.Destutter
import Mathlib.Data.List.MinMax
import Mathlib.Data.List.Dedup

/-!
# Revision logs

The revisions of a sequence of observed values are the values without adjacent repetitions. A
log that appends a value exactly when it differs from its last one holds the revisions
(`revisions_snoc_same`, `revisions_snoc_new`).

`RevisionLog` is a log of such entries with their numbers and `FirstSeen` a table of the
different values, each with the first observer.

The other lemmas are about keyed tables that keep such logs: a table of latest entries is looked
up key by key (`lookup_latest`), and a batch with distinct keys holds one entry of a key at most
(`filter_eq_find?`).
-/

set_option autoImplicit false

namespace PowerMarket.Library

variable {α β κ : Type}

/-! ## Revisions -/

section Revisions

variable [DecidableEq α]

/-- The observed values in their order, without adjacent repetitions. -/
def revisions (observed : List α) : List α := observed.destutter (· ≠ ·)

theorem destutter'_snoc (l : List α) (a b : α) :
    (l ++ [a]).destutter' (· ≠ ·) b =
      if (b :: l).getLast? = some a then l.destutter' (· ≠ ·) b
      else l.destutter' (· ≠ ·) b ++ [a] := by
  induction l generalizing b with
  | nil =>
      by_cases same : b = a
      · simp [same]
      · simp [same]
  | cons c l ih =>
      have last : (b :: c :: l).getLast? = (c :: l).getLast? := List.getLast?_cons_cons
      rw [List.cons_append, last]
      by_cases same : b = c
      · subst same
        rw [List.destutter'_cons_neg _ (not_not.mpr rfl), ih,
          List.destutter'_cons_neg _ (not_not.mpr rfl)]
      · rw [List.destutter'_cons_pos _ same, ih, List.destutter'_cons_pos _ same]
        split_ifs <;> rfl

theorem revisions_snoc_same {observed : List α} {a : α} (last : observed.getLast? = some a) :
    revisions (observed ++ [a]) = revisions observed := by
  cases observed with
  | nil => cases last
  | cons b l =>
      rw [revisions, List.cons_append, List.destutter_cons', destutter'_snoc, if_pos last]
      rfl

theorem revisions_snoc_new {observed : List α} {a : α} (last : observed.getLast? ≠ some a) :
    revisions (observed ++ [a]) = revisions observed ++ [a] := by
  cases observed with
  | nil => rfl
  | cons b l =>
      rw [revisions, List.cons_append, List.destutter_cons', destutter'_snoc, if_neg last]
      rfl

/-- **The last revision is the last observed value.** -/
theorem getLast?_revisions (observed : List α) :
    (revisions observed).getLast? = observed.getLast? := by
  induction observed using List.reverseRecOn with
  | nil => rfl
  | append_singleton observed a ih =>
      rw [List.getLast?_concat]
      by_cases last : observed.getLast? = some a
      · rw [revisions_snoc_same last, ih, last]
      · rw [revisions_snoc_new last, List.getLast?_concat]

end Revisions

/-! ## Logs of revisions -/

theorem argmax_of_increasing [LinearOrder β] {f : α → β} {l : List α}
    (increasing : l.Pairwise fun a b => f a < f b) : l.argmax f = l.getLast? := by
  induction l using List.reverseRecOn with
  | nil => rfl
  | append_singleton l a ih =>
      obtain ⟨before, _, last⟩ := List.pairwise_append.mp increasing
      rw [List.argmax_concat, ih before, List.getLast?_concat]
      cases greatest : l.getLast? with
      | none => rfl
      | some c =>
          have less : f c < f a :=
            last c (List.mem_of_getLast? greatest) a (List.mem_singleton_self a)
          simp only [less, ↓reduceIte]

/-- The entries of a log are numbered from one and hold the revisions of what was observed. -/
structure RevisionLog [DecidableEq α] {ε : Type} (number : ε → Nat) (value : ε → α)
    (observed : List α) (log : List ε) : Prop where
  numbers : log.map number = List.range' 1 log.length
  values : log.map value = revisions observed

namespace RevisionLog

variable [DecidableEq α] {ε : Type} {number : ε → Nat} {value : ε → α} {observed : List α}
  {log : List ε}

theorem nil : RevisionLog number value [] [] := ⟨rfl, rfl⟩

/-- The last entry holds the last observed value. -/
theorem last_value (revised : RevisionLog number value observed log) :
    log.getLast?.map value = observed.getLast? := by
  rw [← List.getLast?_map, revised.values, getLast?_revisions]

theorem last_number (revised : RevisionLog number value observed log) {e : ε}
    (last : log.getLast? = some e) : number e = log.length := by
  have numbers := congrArg List.getLast? revised.numbers
  have nonempty : log.length ≠ 0 := by
    intro empty
    rw [List.length_eq_zero_iff.mp empty] at last
    cases last
  rw [List.getLast?_map, last, List.getLast?_range', if_neg nonempty] at numbers
  have same : number e = 1 + log.length - 1 := Option.some.inj numbers
  omega

theorem increasing (revised : RevisionLog number value observed log) :
    log.Pairwise fun a b => number a < number b := by
  rw [← List.pairwise_map, revised.numbers]
  exact List.pairwise_lt_range'

theorem observe_same (revised : RevisionLog number value observed log) {a : α}
    (last : observed.getLast? = some a) : RevisionLog number value (observed ++ [a]) log :=
  ⟨revised.numbers, by rw [revisions_snoc_same last, revised.values]⟩

theorem observe_new (revised : RevisionLog number value observed log) {e : ε}
    (last : observed.getLast? ≠ some (value e)) (next : number e = log.length + 1) :
    RevisionLog number value (observed ++ [value e]) (log ++ [e]) := by
  constructor
  · rw [List.map_append, revised.numbers, List.length_append, List.length_singleton,
      List.range'_concat, List.map_singleton, next, Nat.one_mul, Nat.add_comm 1]
  · rw [List.map_append, revised.values, revisions_snoc_new last, List.map_singleton]

/-- A change of the entries that keeps numbers and values keeps the log. -/
theorem map (revised : RevisionLog number value observed log) {change : ε → ε}
    (number_eq : ∀ e, number (change e) = number e) (value_eq : ∀ e, value (change e) = value e) :
    RevisionLog number value observed (log.map change) := by
  constructor
  · rw [List.map_map, List.length_map, ← revised.numbers]
    exact List.map_congr_left fun e _ => number_eq e
  · rw [List.map_map, ← revised.values]
    exact List.map_congr_left fun e _ => value_eq e

end RevisionLog

/-- The entries of a table are the different values of what was observed, each with its first
observer. -/
structure FirstSeen [DecidableEq α] {ε ρ : Type} (value : ε → α) (observer : ε → ρ)
    (observed : List (ρ × α)) (table : List ε) : Prop where
  distinct : (table.map value).Nodup
  first : ∀ e ∈ table, observed.find? (·.2 = value e) = some (observer e, value e)
  complete : ∀ o ∈ observed, ∃ e ∈ table, value e = o.2

namespace FirstSeen

variable [DecidableEq α] {ε ρ : Type} {value : ε → α} {observer : ε → ρ}
  {observed : List (ρ × α)} {table : List ε}

theorem nil : FirstSeen value observer ([] : List (ρ × α)) [] :=
  ⟨List.nodup_nil, fun _ impossible => (by cases impossible),
    fun _ impossible => (by cases impossible)⟩

theorem observe_known (seen : FirstSeen value observer observed table) {o : ρ × α}
    (known : ∃ e ∈ table, value e = o.2) : FirstSeen value observer (observed ++ [o]) table := by
  refine ⟨seen.distinct, fun e member => ?_, fun other member => ?_⟩
  · rw [List.find?_append, seen.first e member, Option.some_or]
  · rcases List.mem_append.mp member with before | last
    · exact seen.complete other before
    · exact List.mem_singleton.mp last ▸ known

theorem observe_new (seen : FirstSeen value observer observed table) {e : ε}
    (unknown : ¬ ∃ x ∈ table, value x = value e) :
    FirstSeen value observer (observed ++ [(observer e, value e)]) (table ++ [e]) := by
  have unseen : observed.find? (·.2 = value e) = none := by
    rw [List.find?_eq_none]
    intro o member same
    obtain ⟨x, at_x, known⟩ := seen.complete o member
    exact unknown ⟨x, at_x, known.trans (of_decide_eq_true same)⟩
  refine ⟨?_, fun x member => ?_, fun o member => ?_⟩
  · rw [List.map_append]
    refine List.nodup_append.mpr ⟨seen.distinct, by simp, fun a at_a b at_b clash => ?_⟩
    obtain ⟨x, at_x, rfl⟩ := List.mem_map.mp at_a
    rw [List.map_singleton, List.mem_singleton] at at_b
    exact unknown ⟨x, at_x, clash.trans at_b⟩
  · rw [List.find?_append]
    rcases List.mem_append.mp member with before | last
    · rw [seen.first x before, Option.some_or]
    · rw [List.mem_singleton.mp last, unseen, Option.none_or, List.find?_singleton,
        if_pos (decide_eq_true rfl)]
  · rcases List.mem_append.mp member with before | last
    · obtain ⟨x, at_x, same⟩ := seen.complete o before
      exact ⟨x, List.mem_append_left _ at_x, same⟩
    · rw [List.mem_singleton.mp last]
      exact ⟨e, List.mem_append_right _ (List.mem_singleton_self e), rfl⟩

/-- A change of the entries that keeps values and observers keeps the table. -/
theorem map (seen : FirstSeen value observer observed table) {change : ε → ε}
    (value_eq : ∀ e, value (change e) = value e)
    (observer_eq : ∀ e, observer (change e) = observer e) :
    FirstSeen value observer observed (table.map change) := by
  have values : (table.map change).map value = table.map value := by
    rw [List.map_map]
    exact List.map_congr_left fun e _ => value_eq e
  refine ⟨values ▸ seen.distinct, fun x member => ?_, fun o member => ?_⟩
  · obtain ⟨e, at_e, rfl⟩ := List.mem_map.mp member
    rw [value_eq, observer_eq]
    exact seen.first e at_e
  · obtain ⟨e, at_e, same⟩ := seen.complete o member
    exact ⟨change e, List.mem_map_of_mem at_e, (value_eq e).trans same⟩

end FirstSeen

/-- The first selected observation with a property comes from no later in the list than any
other. -/
theorem find?_filterMap_first {γ : Type} {g : γ → Option α} {p : α → Bool} {l : List γ} {a b : α}
    (first : (l.filterMap g).find? p = some a) (member : b ∈ l.filterMap g) (holds : p b = true) :
    ∃ (i j : Nat) (x y : γ), i ≤ j ∧ l[i]? = some x ∧ g x = some a ∧ l[j]? = some y ∧ g y = some b := by
  induction l with
  | nil => cases member
  | cons x l ih =>
      have later : (l.filterMap g).find? p = some a → b ∈ l.filterMap g →
          ∃ (i j : Nat) (y z : γ), i ≤ j ∧ (x :: l)[i]? = some y ∧ g y = some a ∧ (x :: l)[j]? = some z ∧
            g z = some b := by
        intro first' member'
        obtain ⟨i, j, y, z, le, at_i, isFirst, at_j, isOther⟩ := ih first' member'
        exact ⟨i + 1, j + 1, y, z, Nat.succ_le_succ le, at_i, isFirst, at_j, isOther⟩
      cases selected : g x with
      | none =>
          rw [List.filterMap_cons_none selected] at first member
          exact later first member
      | some c =>
          rw [List.filterMap_cons_some selected] at first member
          by_cases here : p c = true
          · rw [List.find?_cons_of_pos here] at first
            have same := Option.some.inj first
            subst same
            rcases List.mem_cons.mp member with rfl | after
            · exact ⟨0, 0, x, x, le_refl _, rfl, selected, rfl, selected⟩
            · obtain ⟨y, at_y, isOther⟩ := List.mem_filterMap.mp after
              obtain ⟨j, at_j⟩ := List.mem_iff_getElem?.mp at_y
              exact ⟨0, j + 1, x, y, Nat.zero_le _, rfl, selected, at_j, isOther⟩
          · rw [List.find?_cons_of_neg here] at first
            rcases List.mem_cons.mp member with rfl | after
            · exact absurd holds here
            · exact later first after

/-! ## Keyed tables -/

/-- **Looking up a key in a table of the latest entries.** -/
theorem lookup_latest [DecidableEq κ] (latest : κ → Option β) (keys : List κ) (key : κ) :
    (keys.filterMap fun k => (latest k).map (Prod.mk k)).lookup key =
      if key ∈ keys then latest key else none := by
  induction keys with
  | nil => rfl
  | cons k keys ih =>
      rw [List.filterMap_cons]
      cases value : latest k with
      | none =>
          rw [Option.map_none, ih]
          by_cases same : key = k
          · subst same
            simp [value]
          · simp [same]
      | some b =>
          simp only [Option.map_some, List.lookup_cons, ih, List.mem_cons]
          by_cases same : key = k
          · subst same
            simp [value]
          · simp [same, beq_eq_false_iff_ne.mpr same]

theorem filter_eq_find? [DecidableEq κ] {f : α → κ} {l : List α} (distinct : (l.map f).Nodup)
    (key : κ) : l.filter (f · = key) = (l.find? (f · = key)).toList := by
  induction l with
  | nil => rfl
  | cons a l ih =>
      rw [List.map_cons, List.nodup_cons] at distinct
      by_cases same : f a = key
      · have others : l.filter (f · = key) = [] := by
          rw [List.filter_eq_nil_iff]
          intro b member clash
          exact distinct.1 (List.mem_map.mpr ⟨b, member, (of_decide_eq_true clash).trans same.symm⟩)
        simp [same, others]
      · simp [same, ih distinct.2]

theorem filter_filterMap [DecidableEq κ] {γ : Type} {f : α → κ} {h : γ → κ} {g : α → Option γ}
    (keeps : ∀ a b, g a = some b → h b = f a) (l : List α) (key : κ) :
    (l.filterMap g).filter (h · = key) = (l.filter (f · = key)).filterMap g := by
  induction l with
  | nil => rfl
  | cons a l ih =>
      cases selected : g a with
      | none =>
          rw [List.filterMap_cons_none selected, ih]
          by_cases same : f a = key
          · rw [List.filter_cons_of_pos (by simpa using same), List.filterMap_cons_none selected]
          · rw [List.filter_cons_of_neg (by simpa using same)]
      | some b =>
          have same := keeps a b selected
          rw [List.filterMap_cons_some selected]
          by_cases here : f a = key
          · rw [List.filter_cons_of_pos (by simpa [same] using here), ih,
              List.filter_cons_of_pos (by simpa using here), List.filterMap_cons_some selected]
          · rw [List.filter_cons_of_neg (by simpa [same] using here), ih,
              List.filter_cons_of_neg (by simpa using here)]

/-- Where the second function gives a value whenever the first one does, it gives at least as many
values. -/
theorem length_filterMap_le {γ : Type} {f : α → Option β} {g : α → Option γ}
    {l : List α} (implies : ∀ a ∈ l, (f a).isSome → (g a).isSome) :
    (l.filterMap f).length ≤ (l.filterMap g).length := by
  induction l with
  | nil => exact le_refl _
  | cons a l ih =>
      have rest := ih fun b member => implies b (List.mem_cons_of_mem a member)
      have here := implies a List.mem_cons_self
      cases first : f a with
      | none =>
          rw [List.filterMap_cons_none first]
          exact rest.trans ((List.sublist_cons_self a l).filterMap g).length_le
      | some b =>
          rw [first] at here
          obtain ⟨d, second⟩ := Option.isSome_iff_exists.mp (here rfl)
          rw [List.filterMap_cons_some first, List.filterMap_cons_some second]
          exact Nat.succ_le_succ rest

theorem filterMap_singleton (g : α → Option β) (a : α) : [a].filterMap g = (g a).toList := by
  cases selected : g a with
  | none => rw [List.filterMap_cons_none selected]; rfl
  | some b => rw [List.filterMap_cons_some selected]; rfl

theorem nodup_of_determines {ι : Type} {f : α → κ} {g : α → ι} {l : List α}
    (distinct : (l.map f).Nodup) (determines : ∀ a ∈ l, ∀ b ∈ l, g a = g b → f a = f b) :
    (l.map g).Nodup := by
  refine List.Nodup.map_on (fun a at_a b at_b same => ?_) (List.Nodup.of_map _ distinct)
  exact List.inj_on_of_nodup_map distinct at_a at_b (determines a at_a b at_b same)

theorem map_filterMap_sublist {γ : Type} {f : α → κ} {h : γ → κ} {g : α → Option γ}
    (keeps : ∀ a b, g a = some b → h b = f a) (l : List α) :
    ((l.filterMap g).map h).Sublist (l.map f) := by
  induction l with
  | nil => exact .slnil
  | cons a l ih =>
      cases selected : g a with
      | none =>
          rw [List.filterMap_cons_none selected]
          exact ih.cons _
      | some b =>
          rw [List.filterMap_cons_some selected, List.map_cons, List.map_cons, keeps a b selected]
          exact ih.cons_cons _

end PowerMarket.Library
