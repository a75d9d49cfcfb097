import PowerMarket.Sources.Caiso
import PowerMarket.Warehouse.Permutations

/-!
# Row contracts

What a row must hold to be read is stated cell by cell (`LmpContract`, `LoadContract`), and the
readers of rows accept exactly that (`lmpRecord_eq_ok`, `loadRecord_eq_ok`). A table has rows to read
when its columns are different names and its rows have the required fields (`rowsOf_eq_ok`).
-/

set_option autoImplicit false

namespace PowerMarket.Sources

open Library

/-! ## Cells -/

/-- A cell that shows an instant. -/
def Cell.Instant (cell : Cell) (time : UtcTime) : Prop :=
  ∃ value, cell = .timestamp value 0 ∧ value.asUtc = .ok time

/-- A cell that shows a finite number. -/
inductive Cell.Finite : Cell → Decimal → Prop where
  | integer (n : Int) : Finite (.integer n) ⟨decide (n < 0), n.natAbs, 0⟩
  | float (d : Decimal) : Finite (.float (.finite d)) d
  | decimal (d : Decimal) : Finite (.decimal (.finite d)) d
  | numeric (d : Decimal) : Finite (.numeric (.ok (.finite d))) d

/-- An integer that is too long to be written as a text. -/
def Cell.TooLong (cell : Cell) : Prop := ∃ n, cell = .integer n ∧ 10 ^ maxStrDigits ≤ n.natAbs

/-- A cell with a number that can be read from its text. -/
structure Cell.Number (cell : Cell) (value : Decimal) : Prop where
  finite : cell.Finite value
  short : ¬ cell.TooLong

theorem Cell.Number.float (value : Decimal) : (Cell.float (.finite value)).Number value :=
  ⟨.float value, by rintro ⟨_, impossible, _⟩; cases impossible⟩

theorem Cell.Number.decimal (value : Decimal) : (Cell.decimal (.finite value)).Number value :=
  ⟨.decimal value, by rintro ⟨_, impossible, _⟩; cases impossible⟩

section Cells

variable {cell : Cell} {name : String} {time : UtcTime} {value : Decimal}

theorem timestamp_eq_ok : timestamp cell name = .ok time ↔ cell.Instant time := by
  rw [Cell.Instant]
  cases cell with
  | timestamp stamp nanosecond =>
      rw [timestamp]
      split_ifs with precise
      · simp [precise]
      · simp [mapError_eq_ok, not_not.mp precise]
  | _ => simp [timestamp]

theorem finite_eq_ok {shown : DecimalObject} :
    finite name shown = .ok value ↔ shown = .finite value := by
  cases shown <;> simp [finite]

theorem convertedNumber_eq_ok {converted : Except Exn DecimalObject} :
    convertedNumber name converted = .ok value ↔ converted = .ok (.finite value) := by
  cases converted with
  | ok shown => rw [convertedNumber, finite_eq_ok, Except.ok.injEq]
  | error e =>
      rw [convertedNumber]
      split_ifs
      · exact ⟨fun impossible => (by cases impossible), fun impossible => (by cases impossible)⟩
      · exact ⟨fun impossible => (by cases impossible), fun impossible => (by cases impossible)⟩

/-- **The numbers that are read.** -/
theorem number_eq_ok : number cell name = .ok value ↔ cell.Number value := by
  constructor
  · intro read
    cases cell with
    | integer n =>
        rw [number] at read
        split_ifs at read with long
        obtain rfl := Except.ok.inj read
        refine ⟨.integer n, ?_⟩
        rintro ⟨_, same, tooLong⟩
        obtain rfl := Cell.integer.inj same
        exact long tooLong
    | float shown =>
        obtain rfl := finite_eq_ok.mp read
        exact .float value
    | decimal shown =>
        obtain rfl := finite_eq_ok.mp read
        exact .decimal value
    | numeric converted =>
        obtain rfl := convertedNumber_eq_ok.mp read
        exact ⟨.numeric value, by rintro ⟨_, impossible, _⟩; cases impossible⟩
    | _ => cases read
  · rintro ⟨shown, short⟩
    cases shown with
    | integer n => rw [number, if_neg fun long => short ⟨n, rfl, long⟩]
    | float d => rfl
    | decimal d => rfl
    | numeric d => rfl

theorem Cell.Instant.unique {time' : UtcTime} (shows : cell.Instant time)
    (shows' : cell.Instant time') : time = time' := by
  have read : Sources.timestamp cell "" = Except.ok time := timestamp_eq_ok.mpr shows
  exact Except.ok.inj (read.symm.trans (timestamp_eq_ok.mpr shows'))

end Cells

/-! ## Rows -/

section Rows

variable {row : Row} {start stop : UtcTime}

theorem times_eq_ok : times row = .ok (start, stop) ↔
    (row.cell "Interval Start").Instant start ∧ (row.cell "Interval End").Instant stop ∧
      (row.cell "Time").Instant start := by
  simp only [times, bind_eq_ok, timestamp_eq_ok]
  constructor
  · rintro ⟨first, isFirst, last, isLast, label, isLabel, labels⟩
    split_ifs at labels with same
    obtain ⟨rfl, rfl⟩ := Prod.mk.inj (Except.ok.inj labels)
    exact ⟨isFirst, isLast, not_not.mp same ▸ isLabel⟩
  · rintro ⟨isFirst, isLast, isLabel⟩
    exact ⟨start, isFirst, stop, isLast, start, isLabel, if_neg (not_not.mpr rfl)⟩

theorem interval_eq_ok {seconds : Nat} {duration : String} {result : Interval seconds} :
    interval seconds duration start stop = .ok result ↔
      start = result.start ∧ stop = result.stop := by
  rw [interval]
  constructor
  · intro made
    split_ifs at made
    obtain rfl := Except.ok.inj made
    exact ⟨rfl, rfl⟩
  · rintro ⟨rfl, rfl⟩
    rw [dif_pos result.length, dif_pos result.aligned]

theorem hub_eq_ok {cell : Cell} {location : Hub} :
    hub cell = .ok location ↔ cell = .text location.text := by
  constructor
  · intro read
    cases cell with
    | text shown =>
        rw [hub] at read
        cases found : Hub.ofText shown with
        | none =>
            rw [found] at read
            cases read
        | some location' =>
            rw [found] at read
            obtain rfl := Except.ok.inj read
            rw [Hub.ofText_eq_some.mp found]
    | _ => cases read
  · rintro rfl
    rw [hub, Hub.ofText_text]

theorem checkLabels_eq_ok {market locationType : Cell} :
    checkLabels market locationType = .ok () ↔
      market = .text "DAY_AHEAD_HOURLY" ∧ locationType = .text "Trading Hub" := by
  constructor
  · intro checked
    unfold checkLabels at checked
    split at checked
    · cases checked
    · cases checked
    · exact ⟨rfl, rfl⟩
    · cases checked
  · rintro ⟨rfl, rfl⟩
    rfl

/-- The contract of a row with a price. -/
structure LmpContract (provenance : Provenance) (row : Row) (record : LmpObservation) : Prop where
  start : (row.cell "Interval Start").Instant record.interval.start
  stop : (row.cell "Interval End").Instant record.interval.stop
  label : (row.cell "Time").Instant record.interval.start
  location : row.cell "Location" = .text record.location.text
  market : row.cell "Market" = .text "DAY_AHEAD_HOURLY"
  locationType : row.cell "Location Type" = .text "Trading Hub"
  lmp : (row.cell "LMP").Number record.lmp
  energy : (row.cell "Energy").Number record.energy
  congestion : (row.cell "Congestion").Number record.congestion
  loss : (row.cell "Loss").Number record.loss
  provenance : record.provenance = provenance

/-- **The rows that are read as prices.** -/
theorem lmpRecord_eq_ok {retrieval : Provenance} {record : LmpObservation} :
    lmpRecord retrieval row = .ok record ↔ LmpContract retrieval row record := by
  simp only [lmpRecord, bind_eq_ok, hub_eq_ok, number_eq_ok, interval_eq_ok, pure, Except.pure,
    Except.ok.injEq]
  constructor
  · rintro ⟨⟨start, stop⟩, shown, location, isLocation, _, labels, lmp, isLmp, energy, isEnergy,
      congestion, isCongestion, loss, isLoss, interval, ⟨rfl, rfl⟩, rfl⟩
    obtain ⟨first, last, label⟩ := times_eq_ok.mp shown
    obtain ⟨market, locationType⟩ := checkLabels_eq_ok.mp labels
    exact ⟨first, last, label, isLocation, market, locationType, isLmp, isEnergy, isCongestion,
      isLoss, rfl⟩
  · rintro ⟨first, last, label, location, market, locationType, lmp, energy, congestion, loss, rfl⟩
    exact ⟨(_, _), times_eq_ok.mpr ⟨first, last, label⟩, _, location, (),
      checkLabels_eq_ok.mpr ⟨market, locationType⟩, _, lmp, _, energy, _, congestion, _, loss,
      record.interval, ⟨rfl, rfl⟩, rfl⟩

section Load

variable [Platform]

/-- The Pacific day of an instant has bounds and is not longer than 24 hours. -/
def UnambiguousDay (time : UtcTime) : Prop :=
  ∃ day bounds, pacificDate time = .ok day ∧ dayBounds day = .ok bounds ∧
    bounds.2.micros ≤ bounds.1.micros + dayMicros

theorem checkLoadDay_eq_ok {day : Date} : checkLoadDay day = .ok () ↔
    ∃ bounds, dayBounds day = .ok bounds ∧ bounds.2.micros ≤ bounds.1.micros + dayMicros := by
  rw [checkLoadDay, bind_eq_ok]
  refine exists_congr fun bounds => and_congr_right fun _ => ?_
  dsimp only
  split_ifs with long
  · exact ⟨fun impossible => (by cases impossible), fun short => absurd long (not_lt.mpr short)⟩
  · exact ⟨fun _ => not_lt.mp long, fun _ => rfl⟩

/-- The contract of a row with a demand. -/
structure LoadContract (provenance : Provenance) (row : Row) (record : LoadObservation) :
    Prop where
  start : (row.cell "Interval Start").Instant record.interval.start
  stop : (row.cell "Interval End").Instant record.interval.stop
  label : (row.cell "Time").Instant record.interval.start
  day : UnambiguousDay record.interval.start
  load : (row.cell "Load").Number record.load
  provenance : record.provenance = provenance

/-- **The rows that are read as demands.** -/
theorem loadRecord_eq_ok {retrieval : Provenance} {record : LoadObservation} :
    loadRecord retrieval row = .ok record ↔ LoadContract retrieval row record := by
  simp only [loadRecord, bind_eq_ok, number_eq_ok, interval_eq_ok]
  constructor
  · rintro ⟨⟨start, stop⟩, shown, day, dated, _, checked, load, isLoad, interval, ⟨rfl, rfl⟩, made⟩
    obtain ⟨first, last, label⟩ := times_eq_ok.mp shown
    obtain ⟨bounds, isBounds, short⟩ := checkLoadDay_eq_ok.mp checked
    split_ifs at made with nonneg
    obtain rfl := Except.ok.inj made
    exact ⟨first, last, label, ⟨day, bounds, dated, isBounds, short⟩, isLoad, rfl⟩
  · rintro ⟨first, last, label, ⟨day, bounds, dated, isBounds, short⟩, load, rfl⟩
    exact ⟨(_, _), times_eq_ok.mpr ⟨first, last, label⟩, day, dated, (),
      checkLoadDay_eq_ok.mpr ⟨bounds, isBounds, short⟩, _, load, record.interval, ⟨rfl, rfl⟩,
      dif_pos record.nonneg⟩

end Load

end Rows

/-! ## Tables -/

/-- A table whose columns are different names, with the required ones among them, and whose rows
have the required fields. -/
structure Offers (frame : Frame) (required : List String) (rows : List Row) : Prop where
  table : ∃ columns, frame = .table (.ok columns) (.ok (.list (rows.map .fields))) ∧
    Column.other ∉ columns ∧ columns.Nodup ∧ ∀ column ∈ required, .name column ∈ columns
  complete : ∀ row ∈ rows, ∀ column ∈ required, (List.lookup column row).isSome = true

theorem checkColumns_eq_ok {required : List String} {columns : List Column} :
    checkColumns required columns = .ok () ↔
      Column.other ∉ columns ∧ columns.Nodup ∧ ∀ column ∈ required, .name column ∈ columns := by
  have different : columns.length ≠ columns.dedup.length ↔ ¬ columns.Nodup := by
    refine not_congr ⟨fun same => ?_, fun distinct => congrArg List.length distinct.dedup.symm⟩
    exact List.dedup_eq_self.mp ((List.dedup_sublist columns).eq_of_length same.symm)
  have present : required.filter (Column.name · ∉ columns) ≠ [] ↔
      ¬ ∀ column ∈ required, .name column ∈ columns := by
    simp [List.filter_eq_nil_iff]
  simp only [checkColumns, different, present]
  split_ifs with foreign duplicate missing <;> simp_all

theorem checkRecord_eq_ok {required : List String} {index : Nat} {record : Record} {row : Row} :
    checkRecord required index record = .ok row ↔
      record = .fields row ∧ ∀ column ∈ required, (List.lookup column row).isSome = true := by
  cases record with
  | other =>
      exact ⟨fun impossible => (by cases impossible), fun impossible => (by cases impossible.1)⟩
  | fields row' =>
      simp only [checkRecord, List.any_eq_true, Record.fields.injEq]
      split_ifs with missing
      · obtain ⟨column, member, absent⟩ := missing
        refine ⟨fun impossible => (by cases impossible), ?_⟩
        rintro ⟨rfl, complete⟩
        have present := complete column member
        rw [Option.isNone_iff_eq_none] at absent
        rw [absent] at present
        cases present
      · constructor
        · intro same
          obtain rfl := Except.ok.inj same
          refine ⟨rfl, fun column member => ?_⟩
          by_contra absent
          rw [Bool.not_eq_true, Option.isSome_eq_false_iff] at absent
          exact missing ⟨column, member, absent⟩
        · rintro ⟨rfl, _⟩
          rfl

/-- **The tables that have rows to read.** -/
theorem rowsOf_eq_ok {frame : Frame} {required : List String} {rows : List Row} :
    rowsOf frame required = .ok rows ↔ Offers frame required rows ∧ rows ≠ [] := by
  have converted : ∀ (records : List Record) (rows : List Row),
      records.zipIdx.mapM (fun record => checkRecord required record.2 record.1) = .ok rows ↔
        records = rows.map .fields ∧
          ∀ row ∈ rows, ∀ column ∈ required, (List.lookup column row).isSome = true := by
    intro records rows
    have places := @List.forall₂_map_left_iff _ _ _ (fun record row => record = .fields row ∧
      ∀ column ∈ required, (List.lookup column row).isSome = true) Prod.fst records.zipIdx rows
    rw [List.zipIdx_map_fst] at places
    rw [mapM_eq_ok]
    simp only [checkRecord_eq_ok]
    rw [← forall₂_eq_map, ← places]
    exact ⟨List.Forall₂.flip, List.Forall₂.flip⟩
  constructor
  · intro offered
    cases frame with
    | other => cases offered
    | table columns records =>
        rw [rowsOf] at offered
        obtain ⟨names, isNames, afterNames⟩ := bind_eq_ok.mp offered
        obtain ⟨_, checked, afterCheck⟩ := bind_eq_ok.mp afterNames
        obtain ⟨result, isResult, afterResult⟩ := bind_eq_ok.mp afterCheck
        obtain rfl := mapError_eq_ok.mp isNames
        obtain rfl := mapError_eq_ok.mp isResult
        cases result with
        | other => cases afterResult
        | list records =>
            obtain ⟨rows', isRows, last⟩ := bind_eq_ok.mp afterResult
            split_ifs at last with empty
            obtain rfl := Except.ok.inj last
            obtain ⟨rfl, complete⟩ := (converted records rows').mp isRows
            exact ⟨⟨⟨names, rfl, checkColumns_eq_ok.mp checked⟩, complete⟩, empty⟩
  · rintro ⟨⟨⟨columns, rfl, checked⟩, complete⟩, nonempty⟩
    rw [rowsOf]
    refine bind_eq_ok.mpr ⟨columns, rfl, bind_eq_ok.mpr ⟨(), checkColumns_eq_ok.mpr checked,
      bind_eq_ok.mpr ⟨_, rfl, bind_eq_ok.mpr ⟨rows, (converted _ rows).mpr ⟨rfl, complete⟩, ?_⟩⟩⟩⟩
    exact if_neg nonempty

/-! ## Tables of known rows -/

/-- A cell with an instant in universal time. -/
def Cell.ofTime (time : UtcTime) : Cell := .timestamp time.toLocal 0

theorem Cell.instant_ofTime (time : UtcTime) : (Cell.ofTime time).Instant time :=
  ⟨time.toLocal, rfl, LocalTime.asUtc_toLocal⟩

/-- A table with the required columns and some rows. -/
def tableOf (required : List String) (rows : List Row) : Frame :=
  .table (.ok (required.map .name)) (.ok (.list (rows.map .fields)))

theorem offers_tableOf {required : List String} {rows : List Row} (distinct : required.Nodup)
    (complete : ∀ row ∈ rows, ∀ column ∈ required, (List.lookup column row).isSome = true) :
    Offers (tableOf required rows) required rows := by
  refine ⟨⟨_, rfl, ?_, ?_, ?_⟩, complete⟩
  · simp
  · exact distinct.map fun _ _ => Column.name.inj
  · exact fun column member => List.mem_map_of_mem member

/-- A row with a price at a hub. -/
def lmpRow (start stop : UtcTime) (location : Hub) (lmp energy congestion loss : Cell) : Row :=
  [("Time", .ofTime start), ("Interval Start", .ofTime start), ("Interval End", .ofTime stop),
    ("Market", .text "DAY_AHEAD_HOURLY"), ("Location", .text location.text),
    ("Location Type", .text "Trading Hub"), ("LMP", lmp), ("Energy", energy),
    ("Congestion", congestion), ("Loss", loss)]

/-- A row with a demand. -/
def loadRow (start stop : UtcTime) (load : Cell) : Row :=
  [("Time", .ofTime start), ("Interval Start", .ofTime start), ("Interval End", .ofTime stop),
    ("Load", load)]

theorem offers_lmpRows {rows : List Row}
    (made : ∀ row ∈ rows, ∃ start stop location lmp energy congestion loss,
      row = lmpRow start stop location lmp energy congestion loss) :
    Offers (tableOf lmpColumns rows) lmpColumns rows := by
  refine offers_tableOf (by decide) fun row member => ?_
  obtain ⟨start, stop, location, lmp, energy, congestion, loss, rfl⟩ := made row member
  intro column isColumn
  exact lookup_isSome_iff.mpr isColumn

theorem offers_loadRows {rows : List Row}
    (made : ∀ row ∈ rows, ∃ start stop load, row = loadRow start stop load) :
    Offers (tableOf loadColumns rows) loadColumns rows := by
  refine offers_tableOf (by decide) fun row member => ?_
  obtain ⟨start, stop, load, rfl⟩ := made row member
  intro column isColumn
  exact lookup_isSome_iff.mpr isColumn

/-- A row with known numbers keeps the contract of prices. -/
theorem lmpRow_contract {record : LmpObservation} {lmp energy congestion loss : Cell}
    (isLmp : lmp.Number record.lmp) (isEnergy : energy.Number record.energy)
    (isCongestion : congestion.Number record.congestion) (isLoss : loss.Number record.loss) :
    LmpContract record.provenance (lmpRow record.interval.start record.interval.stop record.location
      lmp energy congestion loss) record where
  start := Cell.instant_ofTime _
  stop := Cell.instant_ofTime _
  label := Cell.instant_ofTime _
  location := rfl
  market := rfl
  locationType := rfl
  lmp := isLmp
  energy := isEnergy
  congestion := isCongestion
  loss := isLoss
  provenance := rfl

end PowerMarket.Sources
