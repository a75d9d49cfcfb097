import PowerMarket.Backtesting.Engine
import PowerMarket.Library.Slots
import PowerMarket.Sources.Normalization

/-!
# Fetched days

What the source adapter returns for a day is what the warehouse accepts for it. The adapter checks
where an observation starts and the warehouse also where it ends, which makes no difference when the
day ends on a whole hour. A day of at most 25 hours has room for 300 observations of one request
(`admissible_few`), so that the limit of a batch is never the reason to refuse one
(`fetches_accepted`).
-/

set_option autoImplicit false

namespace PowerMarket

open Library

variable [Platform]

/-! ## Room for observations -/

section Room

variable {request : Request} {records : List Observation}

/-- The length of the intervals of a product. -/
def unitMicros : Product → Int
  | .lmp => 3600000000
  | .load => 300000000

/-- A day whose midnights are whole hours and that has at most 25 hours. -/
structure WholeHours (request : Request) : Prop where
  start : hourMicros ∣ request.start
  stop : hourMicros ∣ request.stop
  short : request.stop - request.start ≤ 25 * hourMicros

omit [Platform] in
theorem unitMicros_dvd (product : Product) : unitMicros product ∣ hourMicros := by
  cases product <;> decide

omit [Platform] in
/-- A record of the product has its length and starts at a multiple of it. -/
theorem unit_of_product {record : Observation}
    (product : record.isLmp = true ↔ request.product = .lmp) :
    (record.intervalEndUtc.micros : Int) =
        record.intervalStartUtc.micros + unitMicros request.product ∧
      unitMicros request.product ∣ (record.intervalStartUtc.micros : Int) := by
  cases record with
  | lmp record =>
      have length := record.interval.length
      have aligned := record.interval.aligned
      rw [product.mp rfl]
      simp only [Observation.intervalStartUtc, Observation.intervalEndUtc, unitMicros]
      omega
  | load record =>
      have length := record.interval.length
      have aligned := record.interval.aligned
      have isLoad : request.product = .load := by
        cases kind : request.product with
        | lmp => exact absurd (product.mpr kind) Bool.false_ne_true
        | load => rfl
      rw [isLoad]
      simp only [Observation.intervalStartUtc, Observation.intervalEndUtc, unitMicros]
      omega

theorem Admissible.sameGrain {a b : Observation} (first : Admissible request a)
    (second : Admissible request b) (start : a.intervalStartUtc = b.intervalStartUtc) :
    a.SameGrain b := by
  have products := first.product.trans second.product.symm
  cases a with
  | lmp a =>
      cases b with
      | lmp b =>
          have hub : request.location = some a.location := by simpa [outsideHub] using first.hub
          have hub' : request.location = some b.location := by simpa [outsideHub] using second.hub
          exact ⟨rfl, start, hub.symm.trans hub'⟩
      | load b => exact absurd (products.mp rfl) Bool.false_ne_true
  | load a =>
      cases b with
      | lmp b => exact absurd (products.mpr rfl) Bool.false_ne_true
      | load b => exact ⟨rfl, start, rfl⟩

/-- **A day has room for few observations of one request.** -/
theorem admissible_few (hours : WholeHours request)
    (admissible : ∀ record ∈ records, Admissible request record)
    (distinct : (records.map Observation.logicalKey).Nodup) : records.length ≤ maxBatchRows := by
  let starts : List Int := records.map fun record => record.intervalStartUtc.micros
  have different : starts.Nodup := by
    refine List.pairwise_map.mpr ((List.pairwise_map.mp distinct).imp_of_mem ?_)
    intro a b inA inB apart same
    have start : a.intervalStartUtc = b.intervalStartUtc :=
      UtcTime.micros_injective (Int.ofNat_inj.mp same)
    have grain := (admissible a inA).sameGrain (admissible b inB) start
    exact apart (by rw [Observation.logicalKey, grain.identityFields, Observation.logicalKey])
  have aligned : ∀ x ∈ starts, unitMicros request.product ∣ x := by
    intro x member
    obtain ⟨record, inRecords, rfl⟩ := List.mem_map.mp member
    exact (unit_of_product (admissible record inRecords).product).2
  have inside : ∀ x ∈ starts,
      request.start ≤ x ∧ x + unitMicros request.product ≤ request.stop := by
    intro x member
    obtain ⟨record, inRecords, rfl⟩ := List.mem_map.mp member
    have fits := admissible record inRecords
    exact ⟨fits.start_le, (unit_of_product fits.product).1 ▸ fits.stop_le⟩
  have room := (apart_of_dvd different aligned).length_le inside
    (Platform.midnights request.day.ordinal)
  rw [List.length_map] at room
  have short := hours.short
  have unit : (300000000 : Int) ≤ unitMicros request.product := by
    cases request.product <;> decide
  rw [hourMicros] at short
  rw [maxBatchRows]
  nlinarith

/-- **The limit of a batch refuses nothing** that passes the checks of the records. -/
theorem collectRows_fits (hours : WholeHours request) {rows : List BatchRow}
    (collected : collectRows request [] records = .ok rows) :
    batchRows request records = .ok (sortOn BatchRow.logicalKey rows) := by
  obtain ⟨rfl, each, distinct, _⟩ := collectRows_eq_ok.mp collected
  exact batchRows_eq_ok.mpr ⟨rfl, admissible_few hours (fun record member => (each record member).1)
    distinct, each, distinct⟩

theorem WholeHours.room (hours : WholeHours request) {product : Product} {start : Int}
    (aligned : unitMicros product ∣ start) (before : start < request.stop) :
    start + unitMicros product ≤ request.stop := by
  have whole : unitMicros product ∣ request.stop := (unitMicros_dvd product).trans hours.stop
  have fits := Int.le_of_dvd (sub_pos.mpr before) (Int.dvd_sub whole aligned)
  omega

end Room

/-! ## Bounds of a day -/

section Bounds

theorem asUtc_leads {day : Date} {time : UtcTime} (converted : day.midnight.asUtc = .ok time) :
    (time.micros : Int) = Platform.pacific.instantOf day.wall.micros :=
  (LocalTime.asUtc_zone.mp converted).1

/-- **The bounds that the adapter finds** are those of the request. -/
theorem dayBounds_leads {request : Request} {bounds : UtcTime × UtcTime}
    (found : dayBounds request.day = .ok bounds) : request.bounds = .ok bounds := by
  obtain ⟨next, follows, fromNext⟩ := bind_eq_ok.mp found
  obtain ⟨first, isFirst, fromFirst⟩ := bind_eq_ok.mp fromNext
  obtain ⟨stop, isStop, same⟩ := bind_eq_ok.mp fromFirst
  obtain rfl := Except.ok.inj same
  have order := Date.next_eq_ok.mp follows
  have bounded := next.bounded
  refine Request.bounds_eq_ok.mpr ⟨by omega, asUtc_leads isFirst, ?_⟩
  rw [asUtc_leads isStop, next.wall_micros, order]
  rfl

end Bounds

namespace Sources

/-! ## Fetched records -/

section Fetched

variable {upstream : Upstream} {today : Date} {now : UtcTime} {request : Request}

/-- What a fetch of prices returns. -/
theorem fetchLmp_eq_ok {day : Date} {location : String} {records : List LmpObservation}
    (fetched : fetchLmp upstream today now day location = .ok records) :
    ∃ hub frame retrieval bounds, Hub.ofText location = some hub ∧
      normalizeLmp frame retrieval = .ok records ∧ dayBounds day = .ok bounds ∧
      ∀ record ∈ records, record.location = hub ∧ within bounds record.interval.start = true := by
  rw [fetchLmp] at fetched
  obtain ⟨_, _, known⟩ := bind_eq_ok.mp fetched
  cases found : Hub.ofText location with
  | none =>
      rw [found] at known
      cases known
  | some hub =>
      rw [found] at known
      obtain ⟨frame, _, called⟩ := bind_eq_ok.mp known
      obtain ⟨retrieval, _, retrieved⟩ := bind_eq_ok.mp called
      obtain ⟨records', normalized, checked⟩ := bind_eq_ok.mp retrieved
      obtain ⟨bounds, isBounds, last⟩ := bind_eq_ok.mp checked
      split_ifs at last with outside
      obtain rfl := Except.ok.inj last
      refine ⟨hub, frame, retrieval, bounds, rfl, normalized, isBounds, fun record member => ?_⟩
      simp only [List.any_eq_true, not_exists, not_and, Bool.or_eq_true, not_or, decide_eq_true_eq,
        not_not, Bool.not_eq_true', Bool.not_eq_false] at outside
      exact outside record member

/-- What a fetch of demands returns. -/
theorem fetchLoad_eq_ok {day : Date} {records : List LoadObservation}
    (fetched : fetchLoad upstream today now day = .ok records) :
    ∃ frame retrieval bounds, normalizeLoad frame retrieval = .ok records ∧
      dayBounds day = .ok bounds ∧
      ∀ record ∈ records, within bounds record.interval.start = true := by
  obtain ⟨_, _, completed⟩ := bind_eq_ok.mp fetched
  obtain ⟨_, _, known⟩ := bind_eq_ok.mp completed
  obtain ⟨frame, _, called⟩ := bind_eq_ok.mp known
  obtain ⟨retrieval, _, retrieved⟩ := bind_eq_ok.mp called
  obtain ⟨records', normalized, checked⟩ := bind_eq_ok.mp retrieved
  obtain ⟨bounds, isBounds, last⟩ := bind_eq_ok.mp checked
  split_ifs at last with outside
  obtain rfl := Except.ok.inj last
  refine ⟨frame, retrieval, bounds, normalized, isBounds, fun record member => ?_⟩
  simp only [List.any_eq_true, not_exists, not_and, Bool.not_eq_true', Bool.not_eq_false] at outside
  exact outside record member

/-- The bounds of a request hold the records that start in them, when it has whole hours. -/
theorem admissible_of_within (hours : WholeHours request) {bounds : UtcTime × UtcTime}
    (found : dayBounds request.day = .ok bounds) {record : Observation}
    (product : record.isLmp = true ↔ request.product = .lmp)
    (hub : outsideHub request record = false)
    (inside : within bounds record.intervalStartUtc = true) : Admissible request record := by
  obtain ⟨first, stop⟩ := bounds
  obtain ⟨_, atFirst, atStop⟩ := Request.bounds_eq_ok.mp (dayBounds_leads found)
  simp only [within, Bool.and_eq_true, decide_eq_true_eq] at inside
  have start_le : request.start ≤ record.intervalStartUtc.micros :=
    atFirst ▸ Int.ofNat_le.mpr inside.1
  have start_lt : record.intervalStartUtc.micros < request.stop :=
    atStop ▸ Int.ofNat_lt.mpr inside.2
  refine ⟨product, start_le, start_lt, ?_, hub⟩
  obtain ⟨length, aligned⟩ := unit_of_product product
  rw [length]
  exact hours.room aligned start_lt

omit [Platform] in
/-- The keys of normalized records are different. -/
theorem normalize_distinct {α κ : Type} [LinearOrder κ] {required : List String} {label : String}
    {read : Row → Except Exn α} {key : α → String} {order : α → κ} {frame : Frame}
    {records : List α} (normalized : normalize required label read key order frame = .ok records) :
    (records.map key).Nodup := by
  obtain ⟨_, unsorted, _, _, _, distinct, rfl⟩ :=
    (normalize_eq_ok fun _ _ => Iff.rfl).mp normalized
  exact ((sortOn_perm order unsorted).map key).nodup_iff.mpr distinct

/-- Records that start in the day of a request, with different keys, are accepted exactly when their
decimals can be stored. -/
theorem accepted_iff (hours : WholeHours request) {records : List Observation}
    (admissible : ∀ record ∈ records, Admissible request record)
    (distinct : (records.map Observation.logicalKey).Nodup) :
    (∃ rows, batchRows request records = .ok rows) ↔
      ∀ record ∈ records, ∀ value ∈ decimalsOf record, Storable value := by
  simp only [batchRows_eq_ok]
  constructor
  · rintro ⟨_, _, _, each, _⟩ record member
    exact (each record member).2
  · exact fun storable => ⟨_, rfl, admissible_few hours admissible distinct,
      fun record member => ⟨admissible record member, storable record member⟩, distinct⟩

/-- The warehouse accepts what was fetched for a request, unless a decimal cannot be stored. -/
def AcceptsFetched (request : Request) (records : List Observation) : Prop :=
  (∃ bounds, request.bounds = .ok bounds) ∧
    ((∃ rows, batchRows request records = .ok rows) ↔
      ∀ record ∈ records, ∀ value ∈ decimalsOf record, Storable value)

/-- **The checks of the adapter imply those of the warehouse.** On a day of at most 25 hours with
midnights at whole hours, fetched records are accepted for the request unless one of their decimals
cannot be stored, and no batch is refused only because it has too many records. -/
theorem fetches_accepted (hours : WholeHours request) :
    (∀ (upstream : Upstream) (today : Date) (now : UtcTime) (hub : Hub)
        (records : List LmpObservation), request.product = .lmp → request.location = some hub →
      fetchLmp upstream today now request.day hub.text = .ok records →
        AcceptsFetched request (records.map .lmp)) ∧
    (∀ (upstream : Upstream) (today : Date) (now : UtcTime) (records : List LoadObservation),
      request.product = .load → fetchLoad upstream today now request.day = .ok records →
        AcceptsFetched request (records.map .load)) ∧
    (∀ records : List Observation, (∀ record ∈ records, Admissible request record) →
      (records.map Observation.logicalKey).Nodup → records.length ≤ maxBatchRows) ∧
    ∀ (records : List Observation) (rows : List BatchRow),
      collectRows request [] records = .ok rows →
        batchRows request records = .ok (sortOn BatchRow.logicalKey rows) := by
  refine ⟨?_, ?_, fun records => admissible_few hours, fun records rows => collectRows_fits hours⟩
  · intro upstream today now hub records isLmp location fetched
    obtain ⟨hub', frame, retrieval, bounds, found, normalized, isBounds, inside⟩ :=
      fetchLmp_eq_ok fetched
    obtain rfl := Option.some.inj ((Hub.ofText_text hub).symm.trans found)
    refine ⟨⟨bounds, dayBounds_leads isBounds⟩, accepted_iff hours ?_ ?_⟩
    · intro record member
      obtain ⟨price, inRecords, rfl⟩ := List.mem_map.mp member
      obtain ⟨atHub, starts⟩ := inside price inRecords
      exact admissible_of_within hours isBounds (iff_of_true rfl isLmp)
        (by simp [outsideHub, location, atHub]) starts
    · rw [List.map_map]
      exact normalize_distinct normalized
  · intro upstream today now records isLoad fetched
    obtain ⟨frame, retrieval, bounds, normalized, isBounds, inside⟩ := fetchLoad_eq_ok fetched
    refine ⟨⟨bounds, dayBounds_leads isBounds⟩, accepted_iff hours ?_ ?_⟩
    · intro record member
      obtain ⟨demand, inRecords, rfl⟩ := List.mem_map.mp member
      have notLmp : ¬ request.product = .lmp := by
        rw [isLoad]
        exact Product.noConfusion
      exact admissible_of_within hours isBounds (iff_of_false Bool.false_ne_true notLmp) rfl
        (inside demand inRecords)
    · rw [List.map_map]
      exact normalize_distinct normalized

end Fetched

/-! ## A fetched hour -/

/-- A source that has one price for every day. -/
def sampleUpstream : Upstream where
  getLmp := fun _ _ _ => .ok (tableOf lmpColumns [hubRow .np15])
  getLoad := fun _ => .error (.new .other "no load")

/-- The prices of the day of that price. -/
def plainRequest : Request :=
  ⟨.lmp, ⟨738500, by decide, by decide⟩, some .np15, samplePriceRequest.supported⟩

/-- The day after it. -/
def plainToday : Date := ⟨738501, by decide, by decide⟩

omit [Platform] in
theorem sampleUpstream_fetched :
    (@fetchLmp Platform.plain sampleUpstream plainToday plainHour.stop plainRequest.day
      Hub.np15.text).toBool = true := by
  decide +kernel

omit [Platform] in
/-- The price is fetched and accepted. -/
theorem fetches_accepted_sample : letI := Platform.plain
    ∃ records, fetchLmp sampleUpstream plainToday plainHour.stop plainRequest.day Hub.np15.text =
        .ok records ∧
      AcceptsFetched plainRequest (records.map .lmp) := by
  let _ := Platform.plain
  have hours : WholeHours plainRequest := ⟨by decide, by decide, by decide⟩
  obtain ⟨prices, _⟩ := @fetches_accepted Platform.plain plainRequest hours
  cases fetched : fetchLmp sampleUpstream plainToday plainHour.stop plainRequest.day
      Hub.np15.text with
  | error e =>
      have made := sampleUpstream_fetched
      rw [fetched] at made
      cases made
  | ok records =>
      exact ⟨records, rfl, prices sampleUpstream plainToday plainHour.stop .np15 records rfl rfl
        fetched⟩

end Sources

end PowerMarket
