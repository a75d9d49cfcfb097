import PowerMarket.LocalTimes
import PowerMarket.Warehouse.Model

/-!
# Pacific days

The program finds the day of an instant in two ways: it asks whether the instant lies between two
midnights of the Pacific zone (`Request.bounds`, `dayBounds`), or it reads the date off the local
clock (`pacificDate`). `pacific_days` says that both agree in every zone whose changes never make
the clock jump over a midnight or repeat one, however long the days are.
-/

set_option autoImplicit false

namespace PowerMarket

open Library

variable [Platform]

/-! ## Dates and wall times -/

/-- The next date, if there is one. -/
def Date.next (day : Date) : Except Exn Date :=
  if inside : day.ordinal + 1 ≤ maxOrdinal then .ok ⟨day.ordinal + 1, Nat.succ_pos _, inside⟩
  else .error dateOverflow

/-- A date some days later. -/
def Date.plus (day : Date) (days : Nat) : Except Exn Date :=
  if inside : day.ordinal + days ≤ maxOrdinal then
    .ok ⟨day.ordinal + days, Nat.add_pos_left day.positive days, inside⟩
  else .error dateOverflow

/-- The date that the Pacific clock shows at an instant. -/
def pacificDate (time : UtcTime) : Except Exn Date :=
  let day := Platform.pacific.dayOf dayMicros time.micros
  if inside : 0 < day ∧ day ≤ maxOrdinal then .ok ⟨day.toNat, by omega, by omega⟩
  else .error dateOverflow

theorem pacificDate_eq_ok {time : UtcTime} {day : Date} :
    pacificDate time = .ok day ↔ Platform.pacific.dayOf dayMicros time.micros = day.ordinal := by
  obtain ⟨ordinal, positive, bounded⟩ := day
  unfold pacificDate
  simp only
  split_ifs with inside
  · simp only [Except.ok.injEq, Date.mk.injEq]
    omega
  · simp only [false_iff]
    rintro same
    exact inside ⟨by omega, by omega⟩

/-- The first midnight of a day on the wall. -/
def Date.wall (day : Date) : UtcTime where
  micros := day.ordinal * dayMicros
  positive := Nat.le_mul_of_pos_left dayMicros day.positive
  bounded := Nat.mul_lt_mul_of_pos_right (Nat.lt_succ_of_le day.bounded) (by decide)

/-- The first midnight of a day on the Pacific clock. -/
def Date.midnight (day : Date) : LocalTime := ⟨day.wall, false, some (.ofZone Platform.pacific)⟩

omit [Platform] in
theorem Date.wall_micros (day : Date) : (day.wall.micros : Int) = day.ordinal * dayMicros :=
  Int.natCast_mul ..

/-! ## The two pairs of bounds -/

/-- The bounds of the requested day in universal time. -/
def Request.bounds (request : Request) : Except Exn (UtcTime × UtcTime) := do
  let first ← UtcTime.ofInstant (Platform.pacific.instantOf request.day.wall.micros)
  let next ← request.day.next
  let stop ← UtcTime.ofInstant (Platform.pacific.instantOf next.wall.micros)
  return (first, stop)

/-- The bounds of a day as the source adapter finds them. -/
def dayBounds (day : Date) : Except Exn (UtcTime × UtcTime) := do
  let next ← day.next
  return (← day.midnight.asUtc, ← next.midnight.asUtc)

omit [Platform] in
theorem Date.next_eq_ok {day next : Date} : day.next = .ok next ↔ next.ordinal = day.ordinal + 1 := by
  obtain ⟨ordinal, positive, bounded⟩ := next
  unfold Date.next
  split_ifs with inside
  · simp only [Except.ok.injEq, Date.mk.injEq]
    omega
  · simp only [false_iff]
    omega

omit [Platform] in
theorem Date.plus_eq_ok {day later : Date} {days : Nat} :
    day.plus days = .ok later ↔ later.ordinal = day.ordinal + days := by
  obtain ⟨ordinal, positive, bounded⟩ := later
  unfold Date.plus
  split_ifs with inside
  · simp only [Except.ok.injEq, Date.mk.injEq]
    omega
  · simp only [false_iff]
    omega

/-- A request has bounds when its day is not the last one and both bounds lie in the
calendar. -/
theorem Request.bounds_eq_ok {request : Request} {first stop : UtcTime} :
    request.bounds = .ok (first, stop) ↔ request.day.ordinal < maxOrdinal ∧
      (first.micros : Int) = request.start ∧ (stop.micros : Int) = request.stop := by
  simp only [Request.bounds, bind_eq_ok, UtcTime.ofInstant_eq_ok, Date.next_eq_ok, pure,
    Except.pure, Except.ok.injEq, Prod.mk.injEq]
  constructor
  · rintro ⟨first, atFirst, next, follows, stop, atStop, rfl, rfl⟩
    have bounded := next.bounded
    refine ⟨by omega, atFirst, ?_⟩
    rw [atStop, next.wall_micros, follows]
    rfl
  · rintro ⟨before, atFirst, atStop⟩
    refine ⟨first, atFirst, ⟨request.day.ordinal + 1, Nat.succ_pos _, before⟩, rfl, stop, ?_, rfl,
      rfl⟩
    rw [atStop]
    rfl

/-! ## Days without a disturbed midnight -/

section Undisturbed

variable (ordered : Platform.pacific.Ordered)
  (keeps : Platform.pacific.KeepsMidnights dayMicros)

include ordered keeps

theorem asUtc_midnight {day : Date} {time : UtcTime} : day.midnight.asUtc = .ok time ↔
    (time.micros : Int) = Platform.pacific.instantOf day.wall.micros := by
  rw [Date.midnight, LocalTime.asUtc_zone]
  refine ⟨fun converted => converted.1, fun leads => ⟨leads, ?_, ?_⟩⟩
  · rw [leads, day.wall_micros]
    exact Zone.wallOf_midnight ordered keeps day.ordinal
  · cases Platform.pacific.foldOf time.micros with
    | false => rfl
    | true =>
        rw [day.wall_micros]
        exact Zone.offsetFrom_later (keeps day.ordinal)

/-- **The two pairs of bounds agree.** -/
theorem dayBounds_eq_ok {request : Request} {bounds : UtcTime × UtcTime} :
    dayBounds request.day = .ok bounds ↔ request.bounds = .ok bounds := by
  obtain ⟨first, stop⟩ := bounds
  rw [Request.bounds_eq_ok]
  simp only [dayBounds, bind_eq_ok, Date.next_eq_ok, asUtc_midnight ordered keeps, pure,
    Except.pure, Except.ok.injEq, Prod.mk.injEq]
  constructor
  · rintro ⟨next, follows, first, atFirst, stop, atStop, rfl, rfl⟩
    have bounded := next.bounded
    refine ⟨by omega, atFirst, ?_⟩
    rw [atStop, next.wall_micros, follows]
    rfl
  · rintro ⟨before, atFirst, atStop⟩
    refine ⟨⟨request.day.ordinal + 1, Nat.succ_pos _, before⟩, rfl, first, atFirst, stop, ?_, rfl,
      rfl⟩
    rw [atStop]
    rfl

/-- **An instant lies in the requested day exactly when the Pacific clock shows that day.** -/
theorem pacificDate_iff {request : Request} {time : UtcTime} :
    (request.start ≤ time.micros ∧ time.micros < request.stop) ↔
      pacificDate time = .ok request.day := by
  rw [pacificDate_eq_ok]
  exact Zone.between_midnights_iff ordered keeps (by decide) request.day.ordinal time.micros

/-- An instant between the first midnight of the calendar and the last has a date. -/
theorem pacificDate_exists {time : UtcTime}
    (from_first : Platform.pacific.midnight dayMicros 1 ≤ time.micros)
    (before_last : time.micros < Platform.pacific.midnight dayMicros (maxOrdinal + 1)) :
    ∃ day, pacificDate time = .ok day := by
  have positive : (0 : Int) < dayMicros := by decide
  have reached := (Zone.midnight_le_iff ordered keeps 1 time.micros).mp from_first
  have notReached : ¬ ((maxOrdinal + 1 : Nat) : Int) * dayMicros ≤
      Platform.pacific.wallOf time.micros := fun late =>
    absurd ((Zone.midnight_le_iff ordered keeps (maxOrdinal + 1) time.micros).mpr late)
      (not_le.mpr before_last)
  have low : 1 ≤ Platform.pacific.dayOf dayMicros time.micros :=
    (Int.le_ediv_iff_mul_le positive).mpr (by simpa using reached)
  have high : Platform.pacific.dayOf dayMicros time.micros < (maxOrdinal + 1 : Nat) :=
    (Int.ediv_lt_iff_lt_mul positive).mpr (not_le.mp notReached)
  refine ⟨⟨(Platform.pacific.dayOf dayMicros time.micros).toNat, by omega, by omega⟩, ?_⟩
  rw [pacificDate_eq_ok]
  exact (Int.toNat_of_nonneg (by omega)).symm

end Undisturbed

/-! ## One notion of a day -/

/-- The ways to find the day of an instant agree. -/
structure DaysAgree : Prop where
  /-- The bounds of a request hold an instant exactly when the clock shows the requested day. -/
  member : ∀ {request : Request} {first stop : UtcTime}, request.bounds = .ok (first, stop) →
    ∀ time, (first ≤ time ∧ time < stop) ↔ pacificDate time = .ok request.day
  /-- A request has bounds unless its day is the last one or ends outside the calendar. -/
  bounded : ∀ {request : Request} {first stop : UtcTime}, request.bounds = .ok (first, stop) ↔
    request.day.ordinal < maxOrdinal ∧ (first.micros : Int) = request.start ∧
      (stop.micros : Int) = request.stop
  /-- The source adapter computes the same bounds. -/
  adapter : ∀ {request : Request} {bounds : UtcTime × UtcTime},
    dayBounds request.day = .ok bounds ↔ request.bounds = .ok bounds
  /-- A day ends where the next one starts, and later than it starts. -/
  tiled : ∀ {request next : Request}, next.day.ordinal = request.day.ordinal + 1 →
    request.start < request.stop ∧ request.stop = next.start
  /-- Every instant of the calendar lies in exactly one day. -/
  unique : ∀ {time : UtcTime}, Platform.pacific.midnight dayMicros 1 ≤ time.micros →
    time.micros < Platform.pacific.midnight dayMicros (maxOrdinal + 1) →
    ∃! day, ∀ request : Request, request.day = day →
      request.start ≤ time.micros ∧ time.micros < request.stop

/-- **Pacific day membership is the same in every code path.** In a zone whose changes never make
the local clock jump over or repeat a midnight, the bounds of a request, the bounds of the source
adapter and the date on the local clock agree, and the days tile the instants. -/
theorem pacific_days (ordered : Platform.pacific.Ordered)
    (keeps : Platform.pacific.KeepsMidnights dayMicros) : DaysAgree where
  member := by
    intro request first stop bounds time
    obtain ⟨_, atFirst, atStop⟩ := Request.bounds_eq_ok.mp bounds
    have shown := @pacificDate_iff _ ordered keeps request time
    rw [← atFirst, ← atStop, Int.ofNat_le, Int.ofNat_lt] at shown
    exact shown
  bounded := Request.bounds_eq_ok
  adapter := dayBounds_eq_ok ordered keeps
  tiled := by
    intro request next follows
    refine ⟨Zone.midnight_lt_next ordered keeps (by decide) request.day.ordinal, ?_⟩
    rw [Request.start, follows]
    rfl
  unique := by
    intro time from_first before_last
    obtain ⟨day, dated⟩ := pacificDate_exists ordered keeps from_first before_last
    refine ⟨day, ?_, ?_⟩
    · rintro request rfl
      exact (pacificDate_iff ordered keeps).mpr dated
    · intro day' holds
      have dated' := (pacificDate_iff ordered keeps).mp
        (holds ⟨.load, day', none, by decide⟩ rfl)
      rw [dated] at dated'
      exact (Except.ok.inj dated').symm

/-! ## A zone with short and long days -/

omit [Platform] in
theorem shiftingZone_keeps : shiftingZone.KeepsMidnights dayMicros := by
  intro day
  refine ⟨?_, ?_, trivial⟩ <;>
    rintro ⟨low, high⟩ <;>
    norm_num [shiftingZone, dayMicros] at low high <;>
    omega

/-- A platform with that zone. -/
@[reducible] def Platform.shifting : Platform :=
  { Platform.plain with
    pacific := shiftingZone
    midnights := shiftingZone_keeps.increase shiftingZone_ordered (by decide) }

omit [Platform] in
/-- Days agree in a zone with days of 23 and of 25 hours. -/
theorem pacific_days_sample : @DaysAgree Platform.shifting :=
  @pacific_days Platform.shifting shiftingZone_ordered shiftingZone_keeps

example : shiftingZone.midnight dayMicros 737991 - shiftingZone.midnight dayMicros 737990 =
    23 * 3600000000 := by decide

example : shiftingZone.midnight dayMicros 738002 - shiftingZone.midnight dayMicros 738001 =
    25 * 3600000000 := by decide

end PowerMarket
