import PowerMarket.Library.Zones

/-!
# Local times

A zone shows a wall time at no, one or several instants. An aware local time names one of them by its
fold, and is read by a scan of the changes (`Zone.wallOffset`). A wall time that no instant shows lies
in a gap, which a change of the zone made (`Zone.jumps_of_gap`).

When no wall time is touched by two changes (`Zone.Separate`), the scan finds an instant for every
wall time that is shown (`Zone.Separate.wallOf_wallOffset`), the first of them or, with the fold set,
the last, and the local time at that instant has the same offset
(`Zone.Separate.wallOffset_foldOf`).
-/

set_option autoImplicit false

namespace PowerMarket.Library

namespace Zone

/-! ## Gaps -/

/-- No instant shows the wall time. -/
def InGap (zone : Zone) (wall : Int) : Prop := ∀ instant, zone.wallOf instant ≠ wall

variable {zone : Zone} {wall instant : Int}

/-- A change makes the zone jump over a wall time. -/
def JumpsFrom (wall : Int) : Int → List OffsetChange → Prop
  | _, [] => False
  | current, change :: changes =>
    (change.instant + current ≤ wall ∧ wall < change.instant + change.offset) ∨
      JumpsFrom wall change.offset changes

/-- Some change of the zone jumps over a wall time. -/
def Jumps (zone : Zone) (wall : Int) : Prop := JumpsFrom wall zone.initial zone.changes

theorem jumpsFrom_of_gap {current : Int} {changes : List OffsetChange}
    (ordered : changes.Pairwise fun a b => a.instant < b.instant)
    (gap : ∀ instant, instant + offsetAtFrom instant current changes ≠ wall) :
    JumpsFrom wall current changes := by
  induction changes generalizing current with
  | nil => exact absurd (sub_add_cancel wall current) (gap (wall - current))
  | cons change changes ih =>
      obtain ⟨after, ordered⟩ := List.pairwise_cons.mp ordered
      have reached : change.instant + current ≤ wall := by
        by_contra early
        have shows := gap (wall - current)
        rw [offsetAtFrom, if_neg (by omega)] at shows
        omega
      by_cases jumped : wall < change.instant + change.offset
      · exact .inl ⟨reached, jumped⟩
      · refine .inr (ih ordered fun instant shows => ?_)
        by_cases passed : change.instant ≤ instant
        · refine gap instant ?_
          rw [offsetAtFrom, if_pos passed]
          exact shows
        · rw [offsetAtFrom_before fun later member => by
            have := after later member
            omega] at shows
          omega

/-- **A wall time that no instant shows was jumped over** by a change. -/
theorem jumps_of_gap (ordered : zone.Ordered) (gap : zone.InGap wall) : zone.Jumps wall :=
  jumpsFrom_of_gap ordered gap

/-! ## Separate changes -/

/-- The wall times that a change jumps over or repeats come before those of the next change. -/
def SeparateFrom : Int → List OffsetChange → Prop
  | _, [] => True
  | current, change :: changes =>
    (∀ next ∈ changes.head?,
      change.instant + max current change.offset ≤ next.instant + min change.offset next.offset) ∧
      SeparateFrom change.offset changes

/-- No wall time is touched by two changes of the zone. -/
def Separate (zone : Zone) : Prop := SeparateFrom zone.initial zone.changes

section Separate

variable {current : Int} {change : OffsetChange} {changes : List OffsetChange}

theorem offsetAtFrom_early (early : ∀ next ∈ changes.head?, instant < next.instant) :
    offsetAtFrom instant current changes = current := by
  cases changes with
  | nil => rfl
  | cons next changes =>
      rw [offsetAtFrom, if_neg (not_le.mpr (early next rfl))]

/-- After a change the zone shows no wall time from before it, except those that the change
touches. -/
theorem shows_after (separate : SeparateFrom current (change :: changes))
    (passed : change.instant ≤ instant) :
    change.instant + min current change.offset ≤
      instant + offsetAtFrom instant change.offset changes := by
  induction changes generalizing current change with
  | nil =>
      rw [offsetAtFrom]
      omega
  | cons next changes ih =>
      obtain ⟨apart, separate⟩ := separate
      have before := apart next rfl
      by_cases reached : next.instant ≤ instant
      · have rest := ih separate reached
        rw [offsetAtFrom, if_pos reached]
        omega
      · rw [offsetAtFrom, if_neg reached]
        omega

/-- A wall time before those that the next change touches is shown with the present offset only. -/
theorem shows_before_next (separate : SeparateFrom current changes)
    (before : ∀ next ∈ changes.head?, wall < next.instant + min current next.offset)
    (shows : instant + offsetAtFrom instant current changes = wall) :
    instant + current = wall := by
  cases changes with
  | nil => exact shows
  | cons next changes =>
      by_cases reached : next.instant ≤ instant
      · have after := shows_after separate reached
        have early := before next rfl
        rw [offsetAtFrom, if_pos reached] at shows
        omega
      · rw [offsetAtFrom, if_neg reached] at shows
        exact shows

theorem shows_present
    (before : ∀ next ∈ changes.head?, wall < next.instant + min current next.offset) :
    wall - current + offsetAtFrom (wall - current) current changes = wall := by
  rw [offsetAtFrom_early fun next isNext => by
    have early := before next isNext
    omega]
  omega

theorem offsetFrom_present (later : Bool)
    (before : ∀ next ∈ changes.head?, wall < next.instant + min current next.offset) :
    offsetFrom later wall current changes = current := by
  cases changes with
  | nil => rfl
  | cons next changes =>
      have early := before next rfl
      rw [offsetFrom]
      cases later with
      | false =>
          rw [if_neg Bool.false_ne_true, if_neg (by omega)]
      | true =>
          rw [if_pos rfl, if_neg (by omega)]

/-- What the scan of the changes finds for a wall time: the offsets at the first and at the last
instant that show it. -/
structure Scanned (wall current : Int) (changes : List OffsetChange) : Prop where
  first : ∀ instant, instant + offsetAtFrom instant current changes = wall →
    wall - offsetFrom false wall current changes ≤ instant
  last : ∀ instant, instant + offsetAtFrom instant current changes = wall →
    instant ≤ wall - offsetFrom true wall current changes
  shown : (∃ instant, instant + offsetAtFrom instant current changes = wall) → ∀ later,
    wall - offsetFrom later wall current changes +
      offsetAtFrom (wall - offsetFrom later wall current changes) current changes = wall

theorem scanned_nil : Scanned wall current [] where
  first instant shows := by
    rw [offsetAtFrom] at shows
    rw [offsetFrom]
    omega
  last instant shows := by
    rw [offsetAtFrom] at shows
    rw [offsetFrom]
    omega
  shown _ later := by
    rw [offsetFrom, offsetAtFrom]
    omega

theorem shows_cons_iff : instant + offsetAtFrom instant current (change :: changes) = wall ↔
    (instant < change.instant ∧ instant + current = wall) ∨
      (change.instant ≤ instant ∧ instant + offsetAtFrom instant change.offset changes = wall) := by
  rw [offsetAtFrom]
  by_cases passed : change.instant ≤ instant
  · rw [if_pos passed]
    exact ⟨fun shows => .inr ⟨passed, shows⟩, fun shows => shows.elim
      (fun before => absurd passed (not_le.mpr before.1)) (fun after => after.2)⟩
  · rw [if_neg passed]
    exact ⟨fun shows => .inl ⟨not_le.mp passed, shows⟩, fun shows => shows.elim
      (fun before => before.2) (fun after => absurd after.1 passed)⟩

theorem scanned_early (separate : SeparateFrom current (change :: changes))
    (early : wall < change.instant + min current change.offset) :
    Scanned wall current (change :: changes) := by
  have before : ∀ next ∈ (change :: changes).head?,
      wall < next.instant + min current next.offset := by
    rintro next isNext
    obtain rfl := Option.some.inj isNext
    exact early
  have scan : ∀ later, offsetFrom later wall current (change :: changes) = current :=
    fun later => offsetFrom_present later before
  have only : ∀ instant, instant + offsetAtFrom instant current (change :: changes) = wall →
      instant + current = wall := fun instant => shows_before_next separate before
  have present := shows_present before
  refine ⟨fun instant shows => ?_, fun instant shows => ?_, fun _ later => ?_⟩
  · rw [scan, ← only instant shows]
    omega
  · rw [scan, ← only instant shows]
    omega
  · rw [scan]
    exact present

theorem scanned_late (after : ∀ later ∈ changes, change.instant < later.instant)
    (late : change.instant + max current change.offset ≤ wall)
    (rest : Scanned wall change.offset changes) : Scanned wall current (change :: changes) := by
  have scan : ∀ later, offsetFrom later wall current (change :: changes) =
      offsetFrom later wall change.offset changes := by
    intro later
    cases later with
    | false => rw [offsetFrom, if_neg Bool.false_ne_true, if_pos late]
    | true => rw [offsetFrom, if_pos rfl, if_pos (by omega)]
  have passed : ∀ {instant}, instant + offsetAtFrom instant change.offset changes = wall →
      change.instant ≤ instant := by
    intro instant shows
    by_contra early
    rw [offsetAtFrom_before fun later member => by
      have := after later member
      omega] at shows
    omega
  have same : ∀ {instant}, instant + offsetAtFrom instant current (change :: changes) = wall ↔
      instant + offsetAtFrom instant change.offset changes = wall := by
    intro instant
    rw [shows_cons_iff]
    constructor
    · rintro (⟨early, shows⟩ | ⟨_, shows⟩)
      · omega
      · exact shows
    · exact fun shows => .inr ⟨passed shows, shows⟩
  refine ⟨fun instant shows => ?_, fun instant shows => ?_, fun shown later => ?_⟩
  · rw [scan]
    exact rest.first instant (same.mp shows)
  · rw [scan]
    exact rest.last instant (same.mp shows)
  · rw [scan]
    obtain ⟨instant, shows⟩ := shown
    exact same.mpr (rest.shown ⟨instant, same.mp shows⟩ later)

/-- A wall time that the first change touches is shown once on each side of it, or not at all. -/
theorem scanned_touched (separate : SeparateFrom current (change :: changes))
    (reached : change.instant + min current change.offset ≤ wall)
    (early : wall < change.instant + max current change.offset) :
    Scanned wall current (change :: changes) := by
  have before : ∀ next ∈ changes.head?, wall < next.instant + min change.offset next.offset := by
    intro next isNext
    have := separate.1 next isNext
    omega
  have earlier : offsetFrom false wall current (change :: changes) = current := by
    rw [offsetFrom, if_neg Bool.false_ne_true, if_neg (by omega)]
  have later : offsetFrom true wall current (change :: changes) = change.offset := by
    rw [offsetFrom, if_pos rfl, if_pos reached]
    exact offsetFrom_present true before
  have only : ∀ {instant}, instant + offsetAtFrom instant current (change :: changes) = wall →
      (instant < change.instant ∧ instant + current = wall) ∨
        (change.instant ≤ instant ∧ instant + change.offset = wall) := by
    intro instant shows
    rw [shows_cons_iff] at shows
    exact shows.imp_right fun rest => ⟨rest.1, shows_before_next separate.2 before rest.2⟩
  refine ⟨fun instant shows => ?_, fun instant shows => ?_, ?_⟩
  · rw [earlier]
    have := only shows
    omega
  · rw [later]
    have := only shows
    omega
  · rintro ⟨instant, shows⟩ fold
    have sides := only shows
    cases fold with
    | false =>
        rw [earlier, shows_cons_iff]
        exact .inl ⟨by omega, by omega⟩
    | true =>
        rw [later, shows_cons_iff]
        exact .inr ⟨by omega, shows_present before⟩

/-- **The scan of separate changes** finds the instants that show a wall time. -/
theorem scanned (ordered : changes.Pairwise fun a b => a.instant < b.instant)
    (separate : SeparateFrom current changes) : Scanned wall current changes := by
  induction changes generalizing current with
  | nil => exact scanned_nil
  | cons change changes ih =>
      obtain ⟨after, ordered⟩ := List.pairwise_cons.mp ordered
      by_cases reached : change.instant + min current change.offset ≤ wall
      · by_cases late : change.instant + max current change.offset ≤ wall
        · exact scanned_late after late (ih ordered separate.2)
        · exact scanned_touched separate reached (not_le.mp late)
      · exact scanned_early separate (not_le.mp reached)

/-- The fold after the last change that has happened. -/
theorem foldFrom_last (passed : change.instant ≤ instant)
    (last : ∀ next ∈ changes.head?, instant < next.instant) (fold : Bool) :
    foldFrom instant fold current (change :: changes) = true ↔
      ∃ other < instant, other + offsetAtFrom other current (change :: changes) =
        instant + offsetAtFrom instant change.offset changes := by
  have scan : foldFrom instant fold current (change :: changes) =
      decide (instant - change.instant < current - change.offset) := by
    rw [foldFrom, if_pos passed]
    cases changes with
    | nil => rfl
    | cons next changes => rw [foldFrom, if_neg (not_le.mpr (last next rfl))]
  rw [scan, decide_eq_true_eq, offsetAtFrom_early last]
  constructor
  · intro back
    refine ⟨instant + change.offset - current, by omega, ?_⟩
    rw [shows_cons_iff]
    exact .inl ⟨by omega, by omega⟩
  · rintro ⟨other, less, shows⟩
    rcases shows_cons_iff.mp shows with before | ⟨_, after⟩
    · omega
    · rw [offsetAtFrom_early fun next isNext => less.trans (last next isNext)] at after
      omega

/-- **The scan of the folds.** A wall time was shown before when the last change that has happened
put the clock back behind it. -/
theorem foldFrom_iff (ordered : (change :: changes).Pairwise fun a b => a.instant < b.instant)
    (separate : SeparateFrom current (change :: changes)) (passed : change.instant ≤ instant)
    (fold : Bool) : foldFrom instant fold current (change :: changes) = true ↔
      ∃ other < instant, other + offsetAtFrom other current (change :: changes) =
        instant + offsetAtFrom instant change.offset changes := by
  induction changes generalizing current change fold with
  | nil => exact foldFrom_last passed (fun next isNext => by cases isNext) fold
  | cons next changes ih =>
      obtain ⟨after, ordered⟩ := List.pairwise_cons.mp ordered
      have less := after next List.mem_cons_self
      have apart := separate.1 next rfl
      by_cases reached : next.instant ≤ instant
      · -- The wall time lies behind those that the earlier change touches.
        have shown := shows_after separate.2 reached
        have here : offsetAtFrom instant change.offset (next :: changes) =
            offsetAtFrom instant next.offset changes := by rw [offsetAtFrom, if_pos reached]
        rw [foldFrom, if_pos passed, ih ordered separate.2 reached, here]
        refine exists_congr fun other => and_congr_right fun _ => ?_
        constructor
        · intro shows
          refine shows_cons_iff.mpr (.inr ⟨?_, shows⟩)
          by_contra early
          rw [offsetAtFrom, if_neg (by omega)] at shows
          omega
        · intro shows
          rcases shows_cons_iff.mp shows with before | ⟨_, shows⟩
          · omega
          · exact shows
      · refine foldFrom_last passed ?_ fold
        rintro next' isNext
        obtain rfl := Option.some.inj isNext
        exact not_le.mp reached

theorem jumps_after (separate : SeparateFrom current (change :: changes))
    (jumps : JumpsFrom wall current (change :: changes)) :
    change.instant + min current change.offset ≤ wall := by
  induction changes generalizing current change with
  | nil =>
      rcases jumps with ⟨reached, _⟩ | impossible
      · omega
      · exact impossible.elim
  | cons next changes ih =>
      rcases jumps with ⟨reached, _⟩ | later
      · omega
      · have rest := ih separate.2 later
        have apart := separate.1 next rfl
        omega

theorem gap_of_jumpsFrom (separate : SeparateFrom current changes)
    (jumps : JumpsFrom wall current changes) (instant : Int) :
    instant + offsetAtFrom instant current changes ≠ wall := by
  induction changes generalizing current with
  | nil => exact jumps.elim
  | cons change changes ih =>
      intro shows
      rw [shows_cons_iff] at shows
      rcases jumps with ⟨reached, jumped⟩ | later
      · rcases shows with before | ⟨passed, after⟩
        · omega
        · have present := shows_before_next separate.2 (fun next isNext => by
            have := separate.1 next isNext
            omega) after
          omega
      · rcases shows with before | ⟨_, after⟩
        · cases changes with
          | nil => exact later.elim
          | cons next changes =>
              have behind := jumps_after separate.2 later
              have apart := separate.1 next rfl
              omega
        · exact ih separate.2 later after

end Separate

/-- **A zone with separate changes hides exactly the wall times that a change jumps over.** -/
theorem Separate.inGap_iff (separate : zone.Separate) (ordered : zone.Ordered) :
    zone.InGap wall ↔ zone.Jumps wall :=
  ⟨jumps_of_gap ordered, gap_of_jumpsFrom separate⟩

/-- **The scan finds an instant for every wall time that is shown.** -/
theorem Separate.wallOf_wallOffset (separate : zone.Separate) (ordered : zone.Ordered)
    (shown : ¬ zone.InGap wall) (fold : Bool) :
    zone.wallOf (wall - zone.wallOffset fold wall) = wall :=
  (scanned ordered separate).shown (not_forall_not.mp shown) fold

theorem Separate.foldOf_iff (separate : zone.Separate) (ordered : zone.Ordered) (instant : Int) :
    zone.foldOf instant = true ↔ ∃ other < instant, zone.wallOf other = zone.wallOf instant := by
  obtain ⟨initial, changes⟩ := zone
  have never : ∀ {changes : List OffsetChange},
      (∀ change ∈ changes, instant < change.instant) →
      ¬ ∃ other < instant, wallOf ⟨initial, changes⟩ other = wallOf ⟨initial, changes⟩ instant := by
    rintro changes after ⟨other, less, shows⟩
    simp only [wallOf, offsetAt] at shows
    rw [offsetAtFrom_before after,
      offsetAtFrom_before fun change member => less.trans (after change member)] at shows
    omega
  cases changes with
  | nil =>
      have unfolded : foldOf ⟨initial, []⟩ instant = false := rfl
      rw [unfolded]
      exact iff_of_false Bool.false_ne_true (never (List.forall_mem_nil _))
  | cons change changes =>
      by_cases passed : change.instant ≤ instant
      · have here : wallOf ⟨initial, change :: changes⟩ instant =
            instant + offsetAtFrom instant change.offset changes := by
          rw [wallOf, offsetAt, offsetAtFrom, if_pos passed]
        rw [here]
        exact foldFrom_iff ordered separate passed false
      · have after : ∀ later ∈ change :: changes, instant < later.instant := by
          have ordered' := List.pairwise_cons.mp ordered
          refine List.forall_mem_cons.mpr ⟨not_le.mp passed, fun later member => ?_⟩
          exact (not_le.mp passed).trans (ordered'.1 later member)
        rw [foldOf, foldFrom, if_neg passed]
        exact iff_of_false Bool.false_ne_true (never after)

/-- **The round trip of a local time keeps its offset.** At the instant that a shown local time
names, the zone shows a local time of the same offset. -/
theorem Separate.wallOffset_foldOf (separate : zone.Separate) (ordered : zone.Ordered)
    (shown : ¬ zone.InGap wall) (fold : Bool) :
    zone.wallOffset (zone.foldOf (wall - zone.wallOffset fold wall)) wall =
      zone.wallOffset fold wall := by
  have scan : Scanned wall zone.initial zone.changes := scanned ordered separate
  have shows := separate.wallOf_wallOffset ordered shown
  have again := separate.foldOf_iff ordered (wall - zone.wallOffset fold wall)
  rw [shows fold] at again
  cases found : zone.foldOf (wall - zone.wallOffset fold wall) with
  | true =>
      cases fold with
      | true => rfl
      | false =>
          -- Without a fold the scan finds the first instant, which repeats nothing.
          obtain ⟨other, less, earlier⟩ := again.mp found
          exact absurd (scan.first other earlier) (not_le.mpr less)
  | false =>
      cases fold with
      | false => rfl
      | true =>
          have first := scan.first _ (shows true)
          by_contra apart
          refine absurd (again.mpr ⟨wall - zone.wallOffset false wall, ?_, shows false⟩) ?_
          · exact lt_of_le_of_ne first fun same => apart (sub_right_inj.mp same)
          · rw [found]
            exact Bool.false_ne_true

end Zone

end PowerMarket.Library
