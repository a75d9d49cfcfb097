import Mathlib.Algebra.Order.Group.Int
import Mathlib.Order.Monotone.Basic
import Mathlib.Tactic.Linarith

/-!
# Time zones

A zone is an initial offset followed by finitely many offset changes, each at an instant. The
offset of a wall time is found as the standard zone database reader of the platform finds it:
a change has happened on the wall clock once the larger of its two offsets has carried the
wall past it, or the smaller one when the later reading of a repeated wall time is asked for.

The midnights of a zone divide the instants into days. When they do not run backwards, an
instant belongs to one day at most (`Zone.day_unique`). When no change makes the local clock
jump over a midnight or repeat one, an instant lies between two consecutive midnights exactly
when the local clock shows the day between them (`Zone.between_midnights_iff`).
-/

set_option autoImplicit false

namespace PowerMarket.Library

/-- From an instant on, the offset to universal time. Instants and offsets are counted in the
same unit. -/
structure OffsetChange where
  instant : Int
  offset : Int
  deriving DecidableEq

/-- An initial offset and the later changes in order. -/
structure Zone where
  initial : Int
  changes : List OffsetChange
  deriving DecidableEq

namespace Zone

/-- The offset of a wall time after the changes seen so far. Of the two readings of a repeated
wall time `later` asks for the second. -/
def offsetFrom (later : Bool) (wall : Int) : Int → List OffsetChange → Int
  | current, [] => current
  | current, change :: changes =>
    let crossing := if later then min current change.offset else max current change.offset
    if change.instant + crossing ≤ wall then offsetFrom later wall change.offset changes
    else current

/-- The offset that applies to a wall time. -/
def wallOffset (zone : Zone) (later : Bool) (wall : Int) : Int :=
  offsetFrom later wall zone.initial zone.changes

/-- The instant of a wall time, read as its first occurrence. -/
def instantOf (zone : Zone) (wall : Int) : Int := wall - zone.wallOffset false wall

/-- The first instant of a day, given the length of a day on the wall clock. -/
def midnight (zone : Zone) (dayLength : Int) (day : Nat) : Int :=
  zone.instantOf (day * dayLength)

/-- The midnights of the zone do not run backwards. -/
def MidnightsIncrease (zone : Zone) (dayLength : Int) : Prop :=
  ∀ day, zone.midnight dayLength day ≤ zone.midnight dayLength (day + 1)

/-- **An instant lies between the midnights of one day only.** -/
theorem day_unique {zone : Zone} {dayLength : Int} (midnights : zone.MidnightsIncrease dayLength)
    {instant : Int} {day day' : Nat}
    (from_day : zone.midnight dayLength day ≤ instant)
    (before_next : instant < zone.midnight dayLength (day + 1))
    (from_day' : zone.midnight dayLength day' ≤ instant)
    (before_next' : instant < zone.midnight dayLength (day' + 1)) : day = day' := by
  have increase : Monotone (zone.midnight dayLength) := monotone_nat_of_le_succ midnights
  rcases Nat.lt_trichotomy day day' with less | same | greater
  · have later : zone.midnight dayLength (day + 1) ≤ zone.midnight dayLength day' := increase less
    omega
  · exact same
  · have later : zone.midnight dayLength (day' + 1) ≤ zone.midnight dayLength day :=
      increase greater
    omega

theorem midnightsIncrease_of_constant (offset : Int) {dayLength : Int} (nonneg : 0 ≤ dayLength) :
    MidnightsIncrease ⟨offset, []⟩ dayLength := by
  intro day
  simp only [midnight, instantOf, wallOffset, offsetFrom, Nat.cast_add, Nat.cast_one, add_mul,
    one_mul]
  omega

theorem midnight_succ_of_constant (offset dayLength : Int) (day : Nat) :
    midnight ⟨offset, []⟩ dayLength (day + 1) - midnight ⟨offset, []⟩ dayLength day =
      dayLength := by
  simp only [midnight, instantOf, wallOffset, offsetFrom, Nat.cast_add, Nat.cast_one, add_mul,
    one_mul]
  omega

/-! ## The local clock -/

/-- The offset at an instant after the changes seen so far. -/
def offsetAtFrom (instant : Int) : Int → List OffsetChange → Int
  | current, [] => current
  | current, change :: changes =>
    if change.instant ≤ instant then offsetAtFrom instant change.offset changes else current

/-- The offset that applies at an instant. -/
def offsetAt (zone : Zone) (instant : Int) : Int := offsetAtFrom instant zone.initial zone.changes

/-- The wall time that the local clock shows at an instant. -/
def wallOf (zone : Zone) (instant : Int) : Int := instant + zone.offsetAt instant

/-- The day that the local clock shows at an instant. -/
def dayOf (zone : Zone) (dayLength instant : Int) : Int := zone.wallOf instant / dayLength

/-- Whether the wall time at an instant repeats one from before the last change. -/
def foldFrom (instant : Int) (fold : Bool) : Int → List OffsetChange → Bool
  | _, [] => fold
  | current, change :: changes =>
    if change.instant ≤ instant then
      foldFrom instant (instant - change.instant < current - change.offset) change.offset changes
    else fold

/-- Whether the local clock shows its wall time for the second time. -/
def foldOf (zone : Zone) (instant : Int) : Bool :=
  foldFrom instant false zone.initial zone.changes

/-- The changes of the zone are listed in the order of their instants. -/
def Ordered (zone : Zone) : Prop := zone.changes.Pairwise fun a b => a.instant < b.instant

/-- A change makes the local clock jump over a wall time or repeat it. -/
def Disturbs (current : Int) (change : OffsetChange) (wall : Int) : Prop :=
  change.instant + min current change.offset ≤ wall ∧
    wall < change.instant + max current change.offset

/-- No change makes the local clock jump over a wall time or repeat it. -/
def KeepsFrom (wall : Int) : Int → List OffsetChange → Prop
  | _, [] => True
  | current, change :: changes =>
    ¬ Disturbs current change wall ∧ KeepsFrom wall change.offset changes

/-- No offset change makes the local clock jump over a midnight or repeat one. -/
def KeepsMidnights (zone : Zone) (dayLength : Int) : Prop :=
  ∀ day : Nat, KeepsFrom (day * dayLength) zone.initial zone.changes

section Clock

variable {wall : Int}

theorem offsetFrom_later {current : Int} {changes : List OffsetChange}
    (keeps : KeepsFrom wall current changes) :
    offsetFrom true wall current changes = offsetFrom false wall current changes := by
  induction changes generalizing current with
  | nil => rfl
  | cons change changes ih =>
      obtain ⟨undisturbed, keeps⟩ := keeps
      simp only [Disturbs, not_and, not_lt] at undisturbed
      simp only [offsetFrom, if_true, Bool.false_eq_true, if_false, ih keeps]
      by_cases passed : change.instant + max current change.offset ≤ wall
      · rw [if_pos passed, if_pos (by omega)]
      · have earlier : ¬ change.instant + min current change.offset ≤ wall := fun reached =>
          passed (undisturbed reached)
        rw [if_neg passed, if_neg earlier]

theorem offsetAtFrom_before {current instant : Int} {changes : List OffsetChange}
    (before : ∀ change ∈ changes, instant < change.instant) :
    offsetAtFrom instant current changes = current := by
  cases changes with
  | nil => rfl
  | cons change changes =>
      have first := before change List.mem_cons_self
      rw [offsetAtFrom, if_neg (by omega)]

theorem offsetFrom_before {current instant : Int} {changes : List OffsetChange}
    (before : ∀ change ∈ changes, instant < change.instant) (early : wall < instant + current) :
    offsetFrom false wall current changes = current := by
  cases changes with
  | nil => rfl
  | cons change changes =>
      have first := before change List.mem_cons_self
      simp only [offsetFrom, Bool.false_eq_true, if_false]
      rw [if_neg (by omega)]

/-- **The local clock reaches an undisturbed wall time once.** From the instant of the wall time
on, and not before, the local clock shows that time or a later one. -/
theorem reaches_iff {current : Int} {changes : List OffsetChange}
    (ordered : changes.Pairwise fun a b => a.instant < b.instant)
    (keeps : KeepsFrom wall current changes) (instant : Int) :
    wall - offsetFrom false wall current changes ≤ instant ↔
      wall ≤ instant + offsetAtFrom instant current changes := by
  induction changes generalizing current with
  | nil =>
      simp only [offsetFrom, offsetAtFrom]
      omega
  | cons change changes ih =>
      obtain ⟨after, ordered⟩ := List.pairwise_cons.mp ordered
      obtain ⟨undisturbed, keeps⟩ := keeps
      have rest := ih ordered keeps
      simp only [Disturbs, not_and, not_lt] at undisturbed
      simp only [offsetFrom, offsetAtFrom, Bool.false_eq_true, if_false]
      by_cases passed : change.instant + max current change.offset ≤ wall
      · rw [if_pos passed]
        by_cases reached : change.instant ≤ instant
        · rw [if_pos reached]
          exact rest
        · -- Before the change neither offset carries the clock to the wall time.
          rw [if_neg reached, rest, offsetAtFrom_before fun later member => by
            have := after later member
            omega]
          omega
      · have early : wall < change.instant + min current change.offset := by
          by_contra late
          exact passed (undisturbed (by omega))
        rw [if_neg passed]
        by_cases reached : change.instant ≤ instant
        · -- After the change the clock is past the wall time for ever.
          rw [if_pos reached, ← rest, offsetFrom_before after (by omega)]
          omega
        · rw [if_neg reached]
          omega

/-- At the instant of an undisturbed wall time the local clock shows it. -/
theorem offsetAtFrom_instant {current : Int} {changes : List OffsetChange}
    (ordered : changes.Pairwise fun a b => a.instant < b.instant)
    (keeps : KeepsFrom wall current changes) :
    offsetAtFrom (wall - offsetFrom false wall current changes) current changes =
      offsetFrom false wall current changes := by
  induction changes generalizing current with
  | nil => rfl
  | cons change changes ih =>
      obtain ⟨after, ordered⟩ := List.pairwise_cons.mp ordered
      obtain ⟨undisturbed, keeps⟩ := keeps
      have rest := ih ordered keeps
      simp only [Disturbs, not_and, not_lt] at undisturbed
      simp only [offsetFrom, offsetAtFrom, Bool.false_eq_true, if_false]
      by_cases passed : change.instant + max current change.offset ≤ wall
      · have reached : change.instant ≤ wall - offsetFrom false wall change.offset changes := by
          by_contra early
          have shown := (reaches_iff ordered keeps (change.instant - 1)).mp (by omega)
          rw [offsetAtFrom_before fun later member => by
            have := after later member
            omega] at shown
          omega
        rw [if_pos passed, if_pos reached]
        exact rest
      · have early : wall < change.instant + min current change.offset := by
          by_contra late
          exact passed (undisturbed (by omega))
        rw [if_neg passed, if_neg (by omega)]

end Clock

section Days

variable {zone : Zone} {dayLength : Int}

/-- From the midnight of a day on, and not before, the local clock shows that midnight or a later
time. -/
theorem midnight_le_iff (ordered : zone.Ordered) (keeps : zone.KeepsMidnights dayLength)
    (day : Nat) (instant : Int) :
    zone.midnight dayLength day ≤ instant ↔ day * dayLength ≤ zone.wallOf instant :=
  reaches_iff ordered (keeps day) instant

theorem wallOf_midnight (ordered : zone.Ordered) (keeps : zone.KeepsMidnights dayLength)
    (day : Nat) : zone.wallOf (zone.midnight dayLength day) = day * dayLength := by
  have same := offsetAtFrom_instant ordered (keeps day)
  simp only [wallOf, offsetAt, midnight, instantOf, wallOffset, same]
  omega

/-- **An instant lies between the midnights of a day exactly when the local clock shows that
day.** -/
theorem between_midnights_iff (ordered : zone.Ordered) (keeps : zone.KeepsMidnights dayLength)
    (positive : 0 < dayLength) (day : Nat) (instant : Int) :
    (zone.midnight dayLength day ≤ instant ∧ instant < zone.midnight dayLength (day + 1)) ↔
      zone.dayOf dayLength instant = day := by
  have next := midnight_le_iff ordered keeps (day + 1) instant
  rw [midnight_le_iff ordered keeps, ← not_le, next, not_le, dayOf,
    Int.ediv_eq_iff_of_pos positive]
  push_cast
  rw [add_mul, one_mul]

theorem midnight_lt_next (ordered : zone.Ordered) (keeps : zone.KeepsMidnights dayLength)
    (positive : 0 < dayLength) (day : Nat) :
    zone.midnight dayLength day < zone.midnight dayLength (day + 1) := by
  have shown := wallOf_midnight ordered keeps day
  rw [← not_le, midnight_le_iff ordered keeps, shown, not_le]
  push_cast
  linarith

theorem KeepsMidnights.increase (ordered : zone.Ordered) (keeps : zone.KeepsMidnights dayLength)
    (positive : 0 < dayLength) : zone.MidnightsIncrease dayLength :=
  fun day => le_of_lt (midnight_lt_next ordered keeps positive day)

end Days

end Zone

end PowerMarket.Library
