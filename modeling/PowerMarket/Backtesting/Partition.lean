import PowerMarket.Backtesting.Coverage
import PowerMarket.Backtesting.Metrics
import PowerMarket.Library.Blocks

/-!
# The days that are solved

Before it solves a day the benchmark compares the rows of each day with the hours of that day. A
list of rows passes exactly when it has one row for each hour of all days, in any order
(`daily_acceptance`). The rows of a day are those whose Pacific date it is, and the days tile the
instants, so that the hours of the days are the hours of the whole range in blocks.
-/

set_option autoImplicit false

namespace PowerMarket.Backtesting

open Library

variable [Platform]

/-! ## The rows of one day -/

/-- The start of a price as a number. -/
def startOf (row : MarketPrice) : ℤ := row.interval.interval.start.micros

/-- The rows of a day in the order of their starts. -/
def rowsOn (inputs : List MarketPrice) (ordinal : ℕ) : List MarketPrice :=
  (inputs.filter (·.marketDate.ordinal = ordinal)).insertionSort fun a b =>
    a.interval.interval.start ≤ b.interval.interval.start

/-- The hours of a day as numbers. -/
def hoursOn (ordinal : ℕ) : List ℤ :=
  slotsOf hourMicros (Platform.pacific.midnight dayMicros ordinal)
    (Platform.pacific.midnight dayMicros (ordinal + 1))

/-- A requested day has bounds that are 23 to 25 whole hours apart. -/
structure WholeHours (request : Request) : Prop where
  bounds : ∃ first stop, request.bounds = .ok (first, stop)
  hours : ∃ count : ℕ, 23 ≤ count ∧ count ≤ 25 ∧
    request.stop - request.start = count * hourMicros

omit [Platform] in
theorem hourMicros_pos : 0 < hourMicros := by decide

theorem rowsOn_perm (inputs : List MarketPrice) (ordinal : ℕ) :
    (rowsOn inputs ordinal).Perm (inputs.filter (·.marketDate.ordinal = ordinal)) :=
  List.perm_insertionSort _ _

theorem rowsOn_sorted (inputs : List MarketPrice) (ordinal : ℕ) :
    ((rowsOn inputs ordinal).map startOf).Pairwise (· ≤ ·) := by
  have sorted : (rowsOn inputs ordinal).map startOf =
      ((inputs.filter (·.marketDate.ordinal = ordinal)).map startOf).insertionSort (· ≤ ·) :=
    List.map_insertionSort _ _ _ _ fun a _ b _ => by
      rw [UtcTime.le_iff, startOf, startOf, Nat.cast_le]
  rw [sorted]
  exact List.pairwise_insertionSort _ _

theorem rowsOn_horizon {inputs : List MarketPrice} {request : Request} (whole : WholeHours request)
    (hours : (rowsOn inputs request.day.ordinal).map startOf = hoursOn request.day.ordinal) :
    Optimization.checkHorizon ((rowsOn inputs request.day.ordinal).map (·.interval)) = .ok () := by
  obtain ⟨_, count, atLeast, atMost, exact⟩ := whole
  have slots := hours.trans (slotsOf_eq hourMicros_pos exact)
  have length := congrArg List.length slots
  rw [List.length_map, List.length_map, List.length_range] at length
  have started : ∀ (i : ℕ) (row : MarketPrice),
      (rowsOn inputs request.day.ordinal)[i]? = some row →
        startOf row = request.start + i * hourMicros := by
    intro i row at_i
    have inside := (List.getElem?_eq_some_iff.mp at_i).1
    have starts := congrArg (·[i]?) slots
    rw [List.getElem?_map, List.getElem?_map, at_i,
      List.getElem?_range (length ▸ inside)] at starts
    exact Option.some.inj starts
  have continued : ¬ ∃ pair ∈ ((rowsOn inputs request.day.ordinal).map (·.interval)).zip
      ((rowsOn inputs request.day.ordinal).map (·.interval)).tail,
        pair.1.interval.stop ≠ pair.2.interval.start := by
    rintro ⟨⟨first, second⟩, member, apart⟩
    obtain ⟨i, at_pair⟩ := List.mem_iff_getElem?.mp member
    obtain ⟨at_first, at_second⟩ := List.getElem?_zip_eq_some.mp at_pair
    rw [List.getElem?_tail] at at_second
    rw [List.getElem?_map, Option.map_eq_some_iff] at at_first at_second
    obtain ⟨row, at_row, rfl⟩ := at_first
    obtain ⟨next, at_next, rfl⟩ := at_second
    have starts := started i row at_row
    have starts' := started (i + 1) next at_next
    have lasts := row.interval.interval.length
    refine apart (UtcTime.micros_injective ?_)
    rw [startOf, hourMicros] at starts starts'
    push_cast at starts'
    dsimp only
    omega
  rw [Optimization.checkHorizon, if_neg (not_not.mpr ?_), if_neg continued]
  rw [List.length_map, length]
  omega

/-! ## The days of a range -/

section Range

variable {today start stop : Date} {location : String} {plan : List Request}
  {inputs : List MarketPrice}

/-- The hours of the days between two dates. -/
def rangeHours (start stop : Date) : List ℤ :=
  slotsOf hourMicros (Platform.pacific.midnight dayMicros start.ordinal)
    (Platform.pacific.midnight dayMicros (stop.ordinal + 1))

/-- The rows are for one hub, have different keys, and there is exactly one of them for each hour of
the days, in any order. -/
structure ExactHours (inputs : List MarketPrice) (start stop : Date) (location : String) :
    Prop where
  hub : ∀ row ∈ inputs, row.location.text = location
  distinct : (inputs.map (·.logicalKey)).Nodup
  hours : (inputs.map startOf).Perm (rangeHours start stop)

omit [Platform] in
theorem requests_ordinals (planned : requests today start stop location = .ok plan) :
    plan.map (·.day.ordinal) =
      (List.range (stop.ordinal + 1 - start.ordinal)).map (start.ordinal + ·) := by
  obtain ⟨_, each⟩ := requests_eq_ok.mp planned
  rw [← List.forall₂_eq_eq_eq, List.forall₂_map_left_iff, List.forall₂_map_right_iff]
  refine each.flip.imp fun request i created => ?_
  obtain ⟨day, plus, created⟩ := created
  obtain ⟨_, isDay, _⟩ := Request.create_eq_ok.mp created
  rw [isDay]
  exact Date.plus_eq_ok.mp plus

/-- The hours of the days make up those of the range. -/
theorem hoursOn_range (planned : requests today start stop location = .ok plan)
    (whole : ∀ request ∈ plan, WholeHours request) :
    (List.range (stop.ordinal + 1 - start.ordinal)).flatMap
      (fun i => hoursOn (start.ordinal + i)) = rangeHours start stop := by
  obtain ⟨⟨order, _⟩, _⟩ := requests_eq_ok.mp planned
  have ordinals := requests_ordinals planned
  have blocks := (slotsOf_blocks (n := stop.ordinal + 1 - start.ordinal) hourMicros_pos
    (fun i => Platform.pacific.midnight dayMicros (start.ordinal + i)) ?_).1
  · have last : start.ordinal + (stop.ordinal + 1 - start.ordinal) = stop.ordinal + 1 := by omega
    rw [last, Nat.add_zero] at blocks
    exact blocks
  · intro i inside
    have member : start.ordinal + i ∈ plan.map (·.day.ordinal) := by
      rw [ordinals]
      exact List.mem_map.mpr ⟨i, List.mem_range.mpr inside, rfl⟩
    obtain ⟨request, inPlan, ordinal⟩ := List.mem_map.mp member
    obtain ⟨count, _, _, hours⟩ := (whole request inPlan).hours
    rw [Request.start, Request.stop, ordinal] at hours
    exact ⟨count, hours⟩

/-- The rows of all days are all rows. -/
theorem rowsOn_all (inRange : ∀ row ∈ inputs, start.ordinal ≤ row.marketDate.ordinal ∧
    row.marketDate.ordinal ≤ stop.ordinal) :
    ((List.range (stop.ordinal + 1 - start.ordinal)).flatMap
      fun i => rowsOn inputs (start.ordinal + i)).Perm inputs := by
  have blocks := blocks_perm (fun row : MarketPrice => row.marketDate.ordinal - start.ordinal)
    (stop.ordinal + 1 - start.ordinal) fun row (member : row ∈ inputs) => by
      have := inRange row member
      omega
  refine (List.Perm.flatMap_left _ fun i _ => (rowsOn_perm inputs _).trans ?_).trans blocks
  refine List.Perm.of_eq (List.filter_congr fun row member => ?_)
  have after := (inRange row member).1
  rw [decide_eq_decide]
  omega

section Zone

variable (ordered : Platform.pacific.Ordered) (keeps : Platform.pacific.KeepsMidnights dayMicros)

include ordered keeps

theorem mem_hoursOn {ordinal : ℕ} {hour : ℤ} (member : hour ∈ hoursOn ordinal) :
    Platform.pacific.dayOf dayMicros hour = ordinal := by
  obtain ⟨first, last⟩ := mem_slotsOf hourMicros_pos member
  have positive := hourMicros_pos
  exact (Zone.between_midnights_iff ordered keeps (by decide) _ _).mp ⟨first, by linarith⟩

/-- **The rows of all days start with the hours of each day** exactly when all rows together start
with all hours. -/
theorem covered_iff_hours (planned : requests today start stop location = .ok plan)
    (whole : ∀ request ∈ plan, WholeHours request)
    (inRange : ∀ row ∈ inputs, start.ordinal ≤ row.marketDate.ordinal ∧
      row.marketDate.ordinal ≤ stop.ordinal) :
    (∀ i < stop.ordinal + 1 - start.ordinal,
      (rowsOn inputs (start.ordinal + i)).map startOf = hoursOn (start.ordinal + i)) ↔
        (inputs.map startOf).Perm (rangeHours start stop) := by
  rw [← hoursOn_range planned whole]
  constructor
  · intro each
    refine ((rowsOn_all inRange).symm.map startOf).trans ?_
    rw [List.map_flatMap]
    refine List.Perm.flatMap_left _ fun i member => ?_
    rw [each i (List.mem_range.mp member)]
  · intro hours i inside
    have kept := hours.filter fun hour =>
      (Platform.pacific.dayOf dayMicros hour - start.ordinal).toNat = i
    rw [filter_blocks fun j hour member => by
      rw [mem_hoursOn ordered keeps member]
      omega, if_pos inside, List.filter_map] at kept
    have ofHour : inputs.filter ((fun hour : ℤ => decide
        ((Platform.pacific.dayOf dayMicros hour - start.ordinal).toNat = i)) ∘ startOf) =
          inputs.filter (fun row => row.marketDate.ordinal = start.ordinal + i) := by
      refine List.filter_congr fun row member => ?_
      have after := (inRange row member).1
      rw [Function.comp_apply, decide_eq_decide, startOf, pacificDate_eq_ok.mp row.dated]
      omega
    rw [ofHour] at kept
    refine List.Perm.eq_of_pairwise (fun _ _ _ _ => le_antisymm) (rowsOn_sorted inputs _)
      ((slotsOf_sorted hourMicros_pos).imp le_of_lt)
      (((rowsOn_perm inputs _).map startOf).trans kept)

/-- Rows that start with the hours of a range are for its days. -/
theorem ExactHours.inRange (planned : requests today start stop location = .ok plan)
    (whole : ∀ request ∈ plan, WholeHours request) (exact : ExactHours inputs start stop location) :
    ∀ row ∈ inputs, start.ordinal ≤ row.marketDate.ordinal ∧
      row.marketDate.ordinal ≤ stop.ordinal := by
  intro row member
  have hour := exact.hours.subset (List.mem_map_of_mem (f := startOf) member)
  rw [← hoursOn_range planned whole] at hour
  obtain ⟨i, inside, hour⟩ := List.mem_flatMap.mp hour
  have shown := mem_hoursOn ordered keeps hour
  rw [startOf, pacificDate_eq_ok.mp row.dated] at shown
  have less := List.mem_range.mp inside
  omega

/-- The groups of accepted inputs are their days. -/
structure Partition (plan : List Request) (inputs : List MarketPrice)
    (groups : List (List MarketPrice)) : Prop where
  all : groups.flatten.Perm inputs
  days : List.Forall₂ (fun request rows => ∀ row ∈ rows, row.marketDate = request.day) plan groups
  horizons : ∀ rows ∈ groups, Optimization.checkHorizon (rows.map (·.interval)) = .ok ()

/-- **The groups of accepted inputs** are their days, each of them a horizon that is solved. -/
theorem ExactHours.partition (planned : requests today start stop location = .ok plan)
    (whole : ∀ request ∈ plan, WholeHours request) (exact : ExactHours inputs start stop location) :
    Partition plan inputs ((List.range (stop.ordinal + 1 - start.ordinal)).map
      fun i => rowsOn inputs (start.ordinal + i)) := by
  have inRange := ExactHours.inRange ordered keeps planned whole exact
  have each := (covered_iff_hours ordered keeps planned whole inRange).mpr exact.hours
  have groups : (List.range (stop.ordinal + 1 - start.ordinal)).map
      (fun i => rowsOn inputs (start.ordinal + i)) =
        plan.map fun request => rowsOn inputs request.day.ordinal := by
    have ordinals := congrArg (List.map (rowsOn inputs)) (requests_ordinals planned)
    rw [List.map_map, List.map_map] at ordinals
    exact ordinals.symm
  refine ⟨?_, ?_, ?_⟩
  · rw [← List.flatMap_def]
    exact rowsOn_all inRange
  · rw [groups, List.forall₂_map_right_iff, List.forall₂_same]
    intro request _ row member
    have ofDay := (List.mem_filter.mp ((rowsOn_perm inputs _).subset member)).2
    exact Date.ordinal_injective (of_decide_eq_true ofDay)
  · rw [groups, List.forall_mem_map]
    intro request inPlan
    refine rowsOn_horizon (whole request inPlan) ?_
    have member := List.mem_map_of_mem (f := fun request : Request => request.day.ordinal) inPlan
    rw [requests_ordinals planned] at member
    obtain ⟨i, inside, same⟩ := List.mem_map.mp member
    rw [← same]
    exact each i (List.mem_range.mp inside)

end Zone

end Range

/-- The requests for both days. -/
def samplePlan : List Request :=
  [samplePriceRequest, ⟨.lmp, sampleNextDay, some .np15, samplePriceRequest.supported⟩]

end PowerMarket.Backtesting
