import Mathlib.Data.List.Perm.Basic

/-!
# Reorderings within classes

Two lists of events are reorderings of one another that keep the order of the events of one class
(`Reordered`). A fold whose steps are idle except for events of a single class ends in the same
state for both (`Reordered.foldl_eq`).
-/

set_option autoImplicit false

namespace PowerMarket.Library

universe u v w

variable {σ : Type u} {α : Type v} {κ : Type w} [DecidableEq κ]

/-- The lists are reorderings of one another, in which the elements of one class stand in the same
order. -/
structure Reordered (kind : α → κ) (xs ys : List α) : Prop where
  perm : xs.Perm ys
  ordered : ∀ k, xs.filter (kind · = k) = ys.filter (kind · = k)

theorem perm_of_filter [DecidableEq α] (kind : α → κ) {xs ys : List α}
    (same : ∀ k, xs.filter (kind · = k) = ys.filter (kind · = k)) : xs.Perm ys := by
  rw [List.perm_iff_count]
  intro a
  have ofKind : ∀ zs : List α, (zs.filter (kind · = kind a)).count a = zs.count a :=
    fun zs => List.count_filter (by simp)
  calc xs.count a
      = (xs.filter (kind · = kind a)).count a := (ofKind xs).symm
    _ = (ys.filter (kind · = kind a)).count a := by rw [same]
    _ = ys.count a := ofKind ys

theorem foldl_of_kind (step : σ → α → σ) {kind : α → κ} {k : κ} {xs : List α}
    (idle : ∀ a ∈ xs, kind a ≠ k → ∀ s, step s a = s) (s : σ) :
    xs.foldl step s = (xs.filter (kind · = k)).foldl step s := by
  induction xs generalizing s with
  | nil => rfl
  | cons a xs ih =>
      have rest := ih fun b member => idle b (List.mem_cons_of_mem a member)
      by_cases ofKind : kind a = k
      · rw [List.filter_cons, if_pos (by simpa using ofKind), List.foldl_cons, List.foldl_cons, rest]
      · rw [List.filter_cons, if_neg (by simpa using ofKind), List.foldl_cons,
          idle a List.mem_cons_self ofKind, rest]

/-- **A fold that only sees the events of a single class** does not depend on how the classes are
interleaved. -/
theorem Reordered.foldl_eq {kind : α → κ} {xs ys : List α} (reordered : Reordered kind xs ys)
    (step : σ → α → σ) (sees : α → Prop) (idle : ∀ a, ¬ sees a → ∀ s, step s a = s)
    (single : ∀ a ∈ xs, ∀ b ∈ xs, sees a → sees b → kind a = kind b) (s : σ) :
    xs.foldl step s = ys.foldl step s := by
  by_cases seen : ∃ a ∈ xs, sees a
  · obtain ⟨a, member, isSeen⟩ := seen
    have idleIn : ∀ {zs : List α}, (∀ b ∈ zs, b ∈ xs) →
        ∀ b ∈ zs, kind b ≠ kind a → ∀ s, step s b = s := by
      intro zs sub b at_b differs
      exact idle b fun also => differs (single b (sub b at_b) a member also isSeen)
    rw [foldl_of_kind step (idleIn fun _ here => here), reordered.ordered,
      foldl_of_kind step (idleIn fun _ here => reordered.perm.mem_iff.mpr here)]
  · push Not at seen
    have stays : ∀ {zs : List α}, (∀ b ∈ zs, b ∈ xs) → zs.foldl step s = s := by
      intro zs sub
      induction zs with
      | nil => rfl
      | cons b zs ih =>
          rw [List.foldl_cons, idle b (seen b (sub b List.mem_cons_self))]
          exact ih fun x member => sub x (List.mem_cons_of_mem b member)
    rw [stays fun _ here => here, stays fun _ here => reordered.perm.mem_iff.mpr here]

end PowerMarket.Library
