import PowerMarket.Library.LocalTimes
import PowerMarket.Time

/-!
# Aware local times

An aware local time is converted to universal time when its zone shows its wall time again after the
round trip, with the same offset. In a zone in which no two changes touch one wall time that is so
exactly when the zone shows the wall time at all (`asUtc_exact`). Where changes touch, the round trip
may fail for a wall time that is shown (`touching_changes`).
-/

set_option autoImplicit false

namespace PowerMarket

open Library

/-! ## Instants -/

/-- The exception of arithmetic that leaves the calendar. -/
def dateOverflow : Exn := .new .overflowError "date value out of range"

/-- An instant, if it lies in the calendar. -/
def UtcTime.ofInstant (instant : Int) : Except Exn UtcTime :=
  if inside : dayMicros ≤ instant.toNat ∧ instant.toNat < (maxOrdinal + 1) * dayMicros then
    .ok ⟨instant.toNat, inside.1, inside.2⟩
  else .error dateOverflow

theorem UtcTime.ofInstant_eq_ok {instant : Int} {time : UtcTime} :
    UtcTime.ofInstant instant = .ok time ↔ time.micros = instant := by
  obtain ⟨micros, positive, bounded⟩ := time
  unfold ofInstant
  split_ifs with inside
  · simp only [Except.ok.injEq, UtcTime.mk.injEq]
    have : 0 < dayMicros := by decide
    omega
  · simp only [false_iff]
    rintro rfl
    exact inside ⟨by omega, by omega⟩

/-! ## Time zones -/

/-- A time zone by the outcomes of its two methods: the offset of a wall time with its fold, and the
wall time at an instant with its fold. -/
structure TzInfo where
  utcoffset : UtcTime → Bool → Except Exn (Option Int)
  fromutc : UtcTime → Except Exn (UtcTime × Bool)

/-- The methods of a zone that is read by a scan of its changes. -/
def TzInfo.ofZone (zone : Zone) : TzInfo where
  utcoffset wall fold := .ok (some (zone.wallOffset fold wall.micros))
  fromutc time := do
    let wall ← UtcTime.ofInstant (zone.wallOf time.micros)
    return (wall, zone.foldOf time.micros)

theorem TzInfo.fromutc_ofZone {zone : Zone} {time wall : UtcTime} {fold : Bool} :
    (TzInfo.ofZone zone).fromutc time = .ok (wall, fold) ↔
      (wall.micros : Int) = zone.wallOf time.micros ∧ fold = zone.foldOf time.micros := by
  simp only [ofZone, bind_eq_ok, UtcTime.ofInstant_eq_ok, pure, Except.pure, Except.ok.injEq,
    Prod.mk.injEq]
  constructor
  · rintro ⟨_, shows, rfl, rfl⟩
    exact ⟨shows, rfl⟩
  · rintro ⟨shows, rfl⟩
    exact ⟨wall, shows, rfl, rfl⟩

/-- A timestamp on a wall clock, with its fold and its zone if it has one. -/
structure LocalTime where
  wall : UtcTime
  fold : Bool
  tzinfo : Option TzInfo

/-- Universal time as a zone. -/
def utcZone : Zone := ⟨0, []⟩

/-- An instant as a timestamp in universal time. -/
def UtcTime.toLocal (time : UtcTime) : LocalTime := ⟨time, false, some (.ofZone utcZone)⟩

/-! ## Conversion -/

/-- A value error or an overflow makes a timestamp invalid. -/
def invalidTimestamp (e : Exn) : Exn :=
  if e.error.kind = .valueError ∨ e.error.kind = .overflowError then
    .newFrom .validationError ("invalid timestamp: " ++ e.error.message) e
  else e

def withoutOffset : Exn :=
  .new .validationError "timestamp must include an explicit timezone/offset"

/-- The instant of a wall time in a zone. -/
def TzInfo.toUtc (tz : TzInfo) (wall : UtcTime) (fold : Bool) : Except Exn UtcTime := do
  match ← tz.utcoffset wall fold with
  | none => .error withoutOffset
  | some offset => do
    -- The round trip catches wall times that the clock jumps over.
    let converted ← UtcTime.ofInstant (wall.micros - offset)
    let back ← tz.fromutc converted
    if back.1 ≠ wall then
      .error (.new .validationError "timestamp is a nonexistent local wall time")
    else if (← tz.utcoffset back.1 back.2) ≠ some offset then
      .error (.new .validationError "timestamp offset does not survive a timezone round-trip")
    else .ok converted

/-- The instant of an aware local time. Naive and nonexistent local times are refused. -/
def LocalTime.asUtc (value : LocalTime) : Except Exn UtcTime :=
  match value.tzinfo with
  | none => .error withoutOffset
  | some tz => (tz.toUtc value.wall value.fold).mapError invalidTimestamp

section Conversion

variable {wall time : UtcTime} {fold : Bool}

/-- **What the conversion accepts**: a wall time that the zone shows, with the same offset, at the
instant that its offset leads to. -/
theorem LocalTime.asUtc_eq_ok {tz : TzInfo} : LocalTime.asUtc ⟨wall, fold, some tz⟩ = .ok time ↔
    ∃ offset fold', tz.utcoffset wall fold = .ok (some offset) ∧
      (time.micros : Int) = wall.micros - offset ∧ tz.fromutc time = .ok (wall, fold') ∧
      tz.utcoffset wall fold' = .ok (some offset) := by
  simp only [asUtc, TzInfo.toUtc, mapError_eq_ok, bind_eq_ok]
  constructor
  · rintro ⟨found, isFound, rest⟩
    cases found with
    | none => cases rest
    | some offset =>
        obtain ⟨converted, leads, rest⟩ := bind_eq_ok.mp rest
        obtain ⟨⟨back, fold'⟩, shows, rest⟩ := bind_eq_ok.mp rest
        dsimp only at rest
        split_ifs at rest with same
        obtain ⟨again, isAgain, rest⟩ := bind_eq_ok.mp rest
        split_ifs at rest with survives
        rw [not_not] at same survives
        obtain rfl := Except.ok.inj rest
        exact ⟨offset, fold', isFound, UtcTime.ofInstant_eq_ok.mp leads, same ▸ shows,
          survives ▸ same ▸ isAgain⟩
  · rintro ⟨offset, fold', isFound, leads, shows, isAgain⟩
    refine ⟨some offset, isFound, bind_eq_ok.mpr ⟨time, UtcTime.ofInstant_eq_ok.mpr leads,
      bind_eq_ok.mpr ⟨(wall, fold'), shows, ?_⟩⟩⟩
    rw [if_neg (not_not.mpr rfl)]
    exact bind_eq_ok.mpr ⟨some offset, isAgain, if_neg (not_not.mpr rfl)⟩

/-- The conversion in a zone that is read by a scan of its changes. -/
theorem LocalTime.asUtc_zone {zone : Zone} :
    LocalTime.asUtc ⟨wall, fold, some (.ofZone zone)⟩ = .ok time ↔
      (time.micros : Int) = wall.micros - zone.wallOffset fold wall.micros ∧
        zone.wallOf time.micros = wall.micros ∧
        zone.wallOffset (zone.foldOf time.micros) wall.micros =
          zone.wallOffset fold wall.micros := by
  simp only [asUtc_eq_ok, TzInfo.fromutc_ofZone]
  constructor
  · rintro ⟨offset, fold', isFound, leads, ⟨shows, rfl⟩, isAgain⟩
    obtain rfl := Option.some.inj (Except.ok.inj isFound)
    exact ⟨leads, shows.symm, Option.some.inj (Except.ok.inj isAgain)⟩
  · rintro ⟨leads, shows, survives⟩
    exact ⟨_, _, rfl, leads, ⟨shows.symm, rfl⟩, congrArg (fun offset => Except.ok (some offset))
      survives⟩

theorem LocalTime.asUtc_toLocal : time.toLocal.asUtc = .ok time := by
  rw [UtcTime.toLocal, asUtc_zone]
  have offset : ∀ later wall, utcZone.wallOffset later wall = 0 := fun _ _ => rfl
  have shows : utcZone.wallOf time.micros = time.micros := Int.add_zero _
  exact ⟨by rw [offset, Int.sub_zero], shows, by rw [offset, offset]⟩

end Conversion

/-- **Exactly the nonexistent local times are refused** in a zone in which no two changes touch one
wall time: a local time whose instant can be represented is converted exactly when some instant shows
its wall time, and the others are those that a change jumps over. In every zone an accepted local
time is shown at the result, which is the wall time less the offset, converts to itself, and
determines the wall time and the offset. -/
theorem asUtc_exact (zone : Zone) :
    (zone.Ordered → zone.Separate →
      (∀ (wall : UtcTime) (fold : Bool),
        (∃ instant, UtcTime.ofInstant (wall.micros - zone.wallOffset fold wall.micros) =
          .ok instant) →
        ((∃ time, LocalTime.asUtc ⟨wall, fold, some (.ofZone zone)⟩ = .ok time) ↔
          ¬ zone.InGap wall.micros)) ∧
      ∀ wall : Int, zone.InGap wall ↔ zone.Jumps wall) ∧
    (∀ (wall : UtcTime) (fold : Bool) (time : UtcTime),
      LocalTime.asUtc ⟨wall, fold, some (.ofZone zone)⟩ = .ok time →
      zone.wallOf time.micros = wall.micros ∧
        (time.micros : Int) = wall.micros - zone.wallOffset fold wall.micros ∧
        time.toLocal.asUtc = .ok time) ∧
    (∀ (wall wall' : UtcTime) (fold fold' : Bool) (time : UtcTime),
      LocalTime.asUtc ⟨wall, fold, some (.ofZone zone)⟩ = .ok time →
      LocalTime.asUtc ⟨wall', fold', some (.ofZone zone)⟩ = .ok time →
      wall = wall' ∧ zone.wallOffset fold wall.micros = zone.wallOffset fold' wall'.micros) := by
  refine ⟨fun ordered separate => ⟨?_, fun wall => separate.inGap_iff ordered⟩, ?_, ?_⟩
  · rintro wall fold ⟨instant, representable⟩
    have leads := UtcTime.ofInstant_eq_ok.mp representable
    constructor
    · rintro ⟨time, converted⟩ gap
      exact gap _ (LocalTime.asUtc_zone.mp converted).2.1
    · intro shown
      have shows := separate.wallOf_wallOffset ordered shown fold
      have survives := separate.wallOffset_foldOf ordered shown fold
      rw [← leads] at shows survives
      exact ⟨instant, LocalTime.asUtc_zone.mpr ⟨leads, shows, survives⟩⟩
  · intro wall fold time converted
    obtain ⟨leads, shows, _⟩ := LocalTime.asUtc_zone.mp converted
    exact ⟨shows, leads, LocalTime.asUtc_toLocal⟩
  · intro wall wall' fold fold' time converted converted'
    obtain ⟨leads, shows, _⟩ := LocalTime.asUtc_zone.mp converted
    obtain ⟨leads', shows', _⟩ := LocalTime.asUtc_zone.mp converted'
    have same : wall = wall' := UtcTime.micros_injective (by omega)
    subst same
    exact ⟨rfl, by omega⟩

/-! ## A zone with short and long days -/

/-- A zone that moves its clock forward in the night of one day and back in the night of
another. -/
def shiftingZone : Zone :=
  ⟨-28800000000, [⟨737990 * 86400000000 + 36000000000, -25200000000⟩,
    ⟨738001 * 86400000000 + 32400000000, -28800000000⟩]⟩

theorem shiftingZone_ordered : shiftingZone.Ordered := by
  simp [Zone.Ordered, shiftingZone]

theorem shiftingZone_separate : shiftingZone.Separate := by
  refine ⟨?_, ?_, trivial⟩
  · rintro next isNext
    obtain rfl := Option.some.inj isNext
    decide
  · rintro next isNext
    cases isNext

/-- The middle of the hour that the shifting zone jumps over. -/
def skippedWall : UtcTime := ⟨63762345000000000, by decide, by decide⟩

/-- The middle of the hour that the shifting zone repeats. -/
def repeatedWall : UtcTime := ⟨63763291800000000, by decide, by decide⟩

/-- A skipped hour is refused with both folds, and the two passes through a repeated hour are
different instants. -/
theorem asUtc_exact_sample :
    (∀ fold, ¬ ∃ time, LocalTime.asUtc ⟨skippedWall, fold, some (.ofZone shiftingZone)⟩ =
      .ok time) ∧
    ∃ first second,
      LocalTime.asUtc ⟨repeatedWall, false, some (.ofZone shiftingZone)⟩ = .ok first ∧
      LocalTime.asUtc ⟨repeatedWall, true, some (.ofZone shiftingZone)⟩ = .ok second ∧
      first ≠ second := by
  obtain ⟨apart, _, distinct⟩ := asUtc_exact shiftingZone
  obtain ⟨accepts, gaps⟩ := apart shiftingZone_ordered shiftingZone_separate
  constructor
  · intro fold converted
    have jumps : shiftingZone.Jumps skippedWall.micros := .inl (by decide)
    refine (accepts skippedWall fold ?_).mp converted ((gaps _).mpr jumps)
    cases fold
    · exact ⟨⟨63762373800000000, by decide, by decide⟩, by decide⟩
    · exact ⟨⟨63762370200000000, by decide, by decide⟩, by decide⟩
  · have first : LocalTime.asUtc ⟨repeatedWall, false, some (.ofZone shiftingZone)⟩ =
        .ok ⟨63763317000000000, by decide, by decide⟩ :=
      LocalTime.asUtc_zone.mpr (by decide)
    have second : LocalTime.asUtc ⟨repeatedWall, true, some (.ofZone shiftingZone)⟩ =
        .ok ⟨63763320600000000, by decide, by decide⟩ :=
      LocalTime.asUtc_zone.mpr (by decide)
    refine ⟨_, _, first, second, fun same => ?_⟩
    have offsets := (distinct _ _ _ _ _ first (second.trans (congrArg Except.ok same.symm))).2
    exact absurd offsets (by decide)

/-! ## Changes that touch -/

/-- A zone that moves its clock forward by an hour and, half an hour later, back by two. -/
def touchingZone : Zone :=
  ⟨0, [⟨738000 * 86400000000, 3600000000⟩,
    ⟨738000 * 86400000000 + 1800000000, -3600000000⟩]⟩

/-- Twelve minutes after the first change of that zone, on the wall before it. -/
def touchedWall : UtcTime := ⟨738000 * 86400000000 + 720000000, by decide, by decide⟩

/-- **A wall time that two changes touch** can be jumped over by one of them and be shown
nevertheless. It is refused without a fold and accepted with it. -/
theorem touching_changes :
    touchingZone.Ordered ∧ touchingZone.Jumps touchedWall.micros ∧
      ¬ touchingZone.InGap touchedWall.micros ∧
      (∃ instant, UtcTime.ofInstant (touchedWall.micros -
        touchingZone.wallOffset false touchedWall.micros) = .ok instant) ∧
      (∀ time, LocalTime.asUtc ⟨touchedWall, false, some (.ofZone touchingZone)⟩ ≠ .ok time) ∧
      ∃ time, LocalTime.asUtc ⟨touchedWall, true, some (.ofZone touchingZone)⟩ = .ok time := by
  have accepted : LocalTime.asUtc ⟨touchedWall, true, some (.ofZone touchingZone)⟩ =
      .ok ⟨738000 * 86400000000 + 4320000000, by decide, by decide⟩ :=
    LocalTime.asUtc_zone.mpr (by decide)
  refine ⟨by simp [Zone.Ordered, touchingZone], .inl (by decide), fun gap => ?_,
    ⟨touchedWall, by decide⟩, fun time converted => ?_, _, accepted⟩
  · exact gap _ (LocalTime.asUtc_zone.mp accepted).2.1
  · obtain ⟨leads, shows, _⟩ := LocalTime.asUtc_zone.mp converted
    have read : touchingZone.wallOffset false touchedWall.micros = 0 := by decide
    rw [leads, read] at shows
    exact absurd shows (by decide)

end PowerMarket
