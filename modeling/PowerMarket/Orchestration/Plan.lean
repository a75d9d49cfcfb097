import PowerMarket.Ingestion
import PowerMarket.PacificDays
import PowerMarket.Library.CivilCalendar
import Mathlib.Data.String.Basic

/-!
# Backfill plans

A backfill asks for one to seven days of the products and hubs that it names. Its plan is a list of
units, one for each request, in the order of the days (`expand_sorted`). Each unit shows the parts
of its request (`expand_units`), so that the request can be made again from the unit on any later
day (`Shows.request`).
-/

set_option autoImplicit false

namespace PowerMarket

open Library

/-! ## Dates -/

/-- The number that a text of digits shows. -/
def digitsNumber (digits : List Char) : Nat :=
  digits.foldl (fun number digit => 10 * number + (digit.toNat - 48)) 0

/-- The ordinal of the date that a text of year, month and day shows. -/
def isoOrdinal (text : String) : Nat :=
  CivilCalendar.toOrdinal ⟨digitsNumber (text.toList.take 4),
    digitsNumber ((text.toList.drop 5).take 2), digitsNumber ((text.toList.drop 8).take 2)⟩

def notIsoDate : Exn := .new .warehouseError "dates must be ISO YYYY-MM-DD"

/-- The date whose text is the given one. -/
def isoDate (text : String) : Except Exn Date :=
  if inside : 0 < isoOrdinal text ∧ isoOrdinal text ≤ maxOrdinal then
    if Date.text ⟨isoOrdinal text, inside.1, inside.2⟩ = text then
      .ok ⟨isoOrdinal text, inside.1, inside.2⟩
    else .error notIsoDate
  else .error notIsoDate

/-! ## Plans -/

def maxDays : Nat := 7

/-- What a backfill asks for. -/
structure Backfill where
  backfillId : String
  startDate : String
  endDate : String
  ingestLmp : Bool := true
  ingestLoad : Bool := true
  locations : List String := ["TH_NP15_GEN-APND"]
  runDbt : Bool := true
  concurrency : Int := 1

def tradingHubs : List String := [Hub.np15, Hub.sp15, Hub.zp26].map Hub.text

variable [Platform] (uuid5 : String → String → String)

/-- The requests for the prices of one day, one for each hub in the order of their names. -/
def priceRequests (today : Date) (spec : Backfill) (day : Date) : Except Exn (List Request) :=
  if spec.ingestLmp then
    (spec.locations.insertionSort (· ≤ ·)).mapM fun hub =>
      Request.create today "lmp" day (some hub)
  else .ok []

/-- The request for the load of one day, which must not be longer than 24 hours. -/
def loadRequests (today : Date) (spec : Backfill) (day : Date) : Except Exn (List Request) :=
  if spec.ingestLoad then do
    let request ← Request.create today "load" day none
    let bounds ← request.bounds
    if bounds.1.micros + dayMicros < bounds.2.micros then
      throw (.new .warehouseError "Phase 1 load source does not support Pacific fall-back days")
    else return [request]
  else .ok []

/-- The requests of a backfill for one day. -/
def dayRequests (today : Date) (spec : Backfill) (day : Date) : Except Exn (List Request) := do
  let prices ← priceRequests today spec day
  let loads ← loadRequests today spec day
  return prices ++ loads

/-- The unit of a request. The id of its run is the hash of the request in the namespace of the
backfill. -/
def unitOf (spec : Backfill) (day : Date) (request : Request) : IngestionUnit :=
  ⟨day, request.product.text, (request.location.map Hub.text).getD "",
    uuid5 spec.backfillId ("backfill-unit/v1:" ++ request.requestId)⟩

/-- The units of one day of a backfill. -/
def dayUnits (today : Date) (spec : Backfill) (start : Date) (offset : Nat) :
    Except Exn (List IngestionUnit) := do
  let day ← start.plus offset
  let planned ← dayRequests today spec day
  return planned.map (unitOf uuid5 spec day)

/-- Inclusive Pacific dates. The entire plan is validated before anything else happens. -/
def expand (today : Date) (spec : Backfill) : Except Exn (List IngestionUnit) := do
  let _ ← validateRunId spec.backfillId
  let start ← isoDate spec.startDate
  let stop ← isoDate spec.endDate
  if stop.ordinal < start.ordinal ∨ start.ordinal + maxDays ≤ stop.ordinal then
    .error (.new .warehouseError "backfill must contain 1 through 7 inclusive Pacific days")
  else if spec.concurrency ≠ 1 then
    .error (.new .warehouseError
      "concurrency must be 1: raw commits share a finalization guard")
  else if !spec.ingestLmp && !spec.ingestLoad then
    .error (.new .warehouseError "select at least one product")
  else if spec.locations.any (· ∉ tradingHubs) then
    .error (.new .warehouseError "unsupported LMP hub")
  else if spec.locations.dedup.length ≠ spec.locations.length then
    .error (.new .warehouseError "duplicate LMP hub")
  else if spec.ingestLmp && spec.locations.isEmpty then
    .error (.new .warehouseError "LMP requires at least one hub")
  else
    let days ← (List.range (stop.ordinal - start.ordinal + 1)).mapM
      (dayUnits uuid5 today spec start)
    return days.flatten

/-! ## Units -/

/-- The request that a unit shows. -/
structure Shows (unit : IngestionUnit) (request : Request) : Prop where
  day : request.day = unit.day
  product : request.product.text = unit.product
  location : unit.location = (request.location.map Hub.text).getD ""

omit [Platform] in
/-- **The request of a unit** can be made on every later day. -/
theorem Shows.request {unit : IngestionUnit} {request : Request} (isShown : Shows unit request)
    {today : Date} (completed : unit.day.ordinal < today.ordinal) :
    unit.request today = .ok request := by
  refine Request.create_eq_ok.mpr ⟨completed, isShown.day, isShown.product, ?_⟩
  rw [isShown.location]
  cases location : request.location with
  | none => rfl
  | some hub =>
      rw [Option.map_some, Option.getD_some, if_neg]
      cases hub <;> decide

omit [Platform] in
theorem Shows.of_request {unit : IngestionUnit} {today : Date} {request : Request}
    (requested : unit.request today = .ok request) : Shows unit request := by
  obtain ⟨_, day, product, location⟩ := Request.create_eq_ok.mp requested
  refine ⟨day, product, ?_⟩
  rw [location]
  split_ifs with named
  · exact named
  · rfl

theorem mem_dayRequests {today : Date} {spec : Backfill} {day : Date} {planned : List Request}
    (isPlanned : dayRequests today spec day = .ok planned) {request : Request}
    (member : request ∈ planned) : request.day = day ∧ day.ordinal < today.ordinal := by
  obtain ⟨prices, arePrices, rest⟩ := bind_eq_ok.mp isPlanned
  obtain ⟨loads, areLoads, same⟩ := bind_eq_ok.mp rest
  cases same
  rcases List.mem_append.mp member with inPrices | inLoads
  · unfold priceRequests at arePrices
    split_ifs at arePrices
    · obtain ⟨hub, _, created⟩ := forall₂_right (mapM_eq_ok.mp arePrices) inPrices
      obtain ⟨completed, isDay, _⟩ := Request.create_eq_ok.mp created
      exact ⟨isDay, completed⟩
    · cases arePrices
      cases inPrices
  · unfold loadRequests at areLoads
    split_ifs at areLoads
    · obtain ⟨load, created, rest⟩ := bind_eq_ok.mp areLoads
      obtain ⟨bounds, _, rest⟩ := bind_eq_ok.mp rest
      split_ifs at rest
      cases rest
      obtain rfl := List.mem_singleton.mp inLoads
      obtain ⟨completed, isDay, _⟩ := Request.create_eq_ok.mp created
      exact ⟨isDay, completed⟩
    · cases areLoads
      cases inLoads

section Plans

variable {uuid5} {today : Date} {spec : Backfill} {units : List IngestionUnit}

/-- A plan consists of the units of its days. -/
theorem expand_eq_ok (planned : expand uuid5 today spec = .ok units) :
    ∃ start stop days, isoDate spec.startDate = .ok start ∧ isoDate spec.endDate = .ok stop ∧
      start.ordinal ≤ stop.ordinal ∧ stop.ordinal < start.ordinal + maxDays ∧
      List.Forall₂ (fun offset day => dayUnits uuid5 today spec start offset = .ok day)
        (List.range (stop.ordinal - start.ordinal + 1)) days ∧ units = days.flatten := by
  obtain ⟨_, _, rest⟩ := bind_eq_ok.mp planned
  obtain ⟨start, isStart, rest⟩ := bind_eq_ok.mp rest
  obtain ⟨stop, isStop, rest⟩ := bind_eq_ok.mp rest
  split_ifs at rest with week
  obtain ⟨days, each, same⟩ := bind_eq_ok.mp rest
  cases same
  push Not at week
  exact ⟨start, stop, days, isStart, isStop, week.1, week.2, mapM_eq_ok.mp each, rfl⟩

theorem expand_valid (planned : expand uuid5 today spec = .ok units) :
    isRunId spec.backfillId = true ∧ spec.locations.Nodup := by
  obtain ⟨_, valid, rest⟩ := bind_eq_ok.mp planned
  obtain ⟨_, _, rest⟩ := bind_eq_ok.mp rest
  obtain ⟨_, _, rest⟩ := bind_eq_ok.mp rest
  unfold validateRunId at valid
  split_ifs at valid with isId
  split_ifs at rest with _ _ _ _ distinct
  rw [not_not] at distinct
  exact ⟨isId, List.dedup_eq_self.mp ((List.dedup_sublist _).eq_of_length distinct)⟩

/-- The units of one day are for that day. -/
theorem mem_dayUnits {start : Date} {offset : Nat} {day : List IngestionUnit}
    (isDay : dayUnits uuid5 today spec start offset = .ok day) {unit : IngestionUnit}
    (member : unit ∈ day) : unit.day.ordinal = start.ordinal + offset ∧
      unit.day.ordinal < today.ordinal ∧ ∃ request, Shows unit request := by
  obtain ⟨date, later, rest⟩ := bind_eq_ok.mp isDay
  obtain ⟨planned, arePlanned, same⟩ := bind_eq_ok.mp rest
  cases same
  obtain ⟨request, inPlanned, rfl⟩ := List.mem_map.mp member
  obtain ⟨ofDay, completed⟩ := mem_dayRequests arePlanned inPlanned
  exact ⟨Date.plus_eq_ok.mp later, completed, request, ofDay, rfl, rfl⟩

/-- **Every unit of a plan** shows the request of a completed day. -/
theorem expand_units (planned : expand uuid5 today spec = .ok units) :
    ∀ unit ∈ units, unit.day.ordinal < today.ordinal ∧ ∃ request, Shows unit request := by
  obtain ⟨start, stop, days, _, _, _, _, each, rfl⟩ := expand_eq_ok planned
  intro unit member
  obtain ⟨day, inDays, inDay⟩ := List.mem_flatten.mp member
  obtain ⟨offset, _, isDay⟩ := forall₂_right each inDays
  exact (mem_dayUnits isDay inDay).2

/-- **The units of a plan are in the order of their days.** -/
theorem expand_sorted (planned : expand uuid5 today spec = .ok units) :
    units.Pairwise fun a b => a.day.ordinal ≤ b.day.ordinal := by
  obtain ⟨start, stop, days, _, _, _, _, each, rfl⟩ := expand_eq_ok planned
  refine List.pairwise_flatten.mpr ⟨fun day inDays => ?_, ?_⟩
  · obtain ⟨offset, _, isDay⟩ := forall₂_right each inDays
    refine List.pairwise_of_forall_mem_list fun a inA b inB => ?_
    rw [(mem_dayUnits isDay inA).1, (mem_dayUnits isDay inB).1]
  · have ordered : ∀ {offsets : List Nat} {days : List (List IngestionUnit)},
        List.Forall₂ (fun offset day => dayUnits uuid5 today spec start offset = .ok day)
          offsets days → offsets.Pairwise (· < ·) →
        days.Pairwise fun first second =>
          ∀ a ∈ first, ∀ b ∈ second, a.day.ordinal ≤ b.day.ordinal := by
      intro offsets days each increasing
      induction each with
      | nil => exact .nil
      | cons isDay rest ih =>
          obtain ⟨before, increasing⟩ := List.pairwise_cons.mp increasing
          refine List.pairwise_cons.mpr ⟨fun second inRest a inA b inB => ?_, ih increasing⟩
          obtain ⟨offset, inOffsets, isSecond⟩ := forall₂_right rest inRest
          have less := before offset inOffsets
          rw [(mem_dayUnits isDay inA).1, (mem_dayUnits isSecond inB).1]
          omega
    exact ordered each List.pairwise_lt_range

end Plans

/-! ## A small plan -/

/-- A backfill of the load of one day. -/
def sampleBackfill : Backfill :=
  { backfillId := sampleRunId
    startDate := "2021-07-29"
    endDate := "2021-07-29"
    ingestLmp := false }

end PowerMarket
