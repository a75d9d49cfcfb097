import Mathlib.Logic.Function.Basic

/-!
# Registries

A registry keeps at most one entry under each name. Clients can only ask for an entry: one that is
there stays as it is and is returned, one that is missing is made. The reply can be lost, and what
is made need not be what was asked for (`Registry.Asked`). Whoever asks, registries only grow
(`Registry.Asked.grows`), so that an entry that was returned once is there for good
(`Registry.Asked.returned`).

`Registry.create` is the registry that makes what it is asked for.
-/

set_option autoImplicit false

namespace PowerMarket.Library

variable {Name ε : Type} {Entry : Name → Type}

/-- What there is under each name. -/
def Registry (Entry : Name → Type) : Type := (name : Name) → Option (Entry name)

namespace Registry

/-- Nothing that was there has changed. -/
def Grows (before after : Registry Entry) : Prop :=
  ∀ name entry, before name = some entry → after name = some entry

theorem Grows.refl (registry : Registry Entry) : registry.Grows registry := fun _ _ => id

theorem Grows.trans {a b c : Registry Entry} (ab : a.Grows b) (bc : b.Grows c) : a.Grows c :=
  fun name entry there => bc name entry (ab name entry there)

variable [DecidableEq Name]

/-- Make an entry, unless there is one. -/
def create (registry : Registry Entry) (name : Name) (made : Entry name) : Registry Entry :=
  Function.update registry name (some ((registry name).getD made))

section Create

variable {registry : Registry Entry} {name other : Name} {made : Entry name}

@[simp] theorem create_self :
    registry.create name made name = some ((registry name).getD made) :=
  Function.update_self ..

theorem create_ne (differs : other ≠ name) : registry.create name made other = registry other :=
  Function.update_of_ne differs ..

theorem create_existing {entry : Entry name} (there : registry name = some entry) :
    registry.create name made = registry := by
  rw [create, there, Option.getD_some, ← there]
  exact Function.update_eq_self ..

/-- What would be made of a missing entry tells the same of every name afterwards. -/
theorem create_getD (registry : Registry Entry) (made : (name : Name) → Entry name)
    (name other : Name) :
    (registry.create name (made name) other).getD (made other) =
      (registry other).getD (made other) := by
  by_cases same : other = name
  · subst same
    rw [create_self, Option.getD_some]
  · rw [create_ne same]

theorem create_grows : registry.Grows (registry.create name made) := by
  intro other entry there
  by_cases same : other = name
  · subst same
    rw [create_self, there, Option.getD_some]
  · rw [create_ne same, there]

end Create

/-- What asking for an entry does. It is answered with the entry, or it fails, before or after the
entry was made. -/
inductive Asked (registry : Registry Entry) (name : Name) :
    Except ε (Entry name) → Registry Entry → Prop where
  | answered (made : Entry name) :
      Asked registry name (.ok ((registry name).getD made)) (registry.create name made)
  | lost (made : Entry name) (e : ε) : Asked registry name (.error e) (registry.create name made)
  | refused (e : ε) : Asked registry name (.error e) registry

variable {registry after : Registry Entry} {name : Name} {reply : Except ε (Entry name)}

theorem Asked.grows (asked : registry.Asked name reply after) : registry.Grows after := by
  cases asked with
  | answered made => exact create_grows
  | lost made e => exact create_grows
  | refused e => exact .refl _

theorem Asked.returned {entry : Entry name}
    (asked : registry.Asked name (.ok entry : Except ε (Entry name)) after) :
    after name = some entry := by
  generalize answer : (Except.ok entry : Except ε (Entry name)) = reply at asked
  cases asked with
  | answered made =>
      cases answer
      exact create_self
  | lost made e => cases answer
  | refused e => cases answer

end Registry

end PowerMarket.Library
