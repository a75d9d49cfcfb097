import PowerMarket.Identities
import PowerMarket.Sources.Contracts

/-!
# Normalization of a table

A table is normalized as a whole or not at all (`AllOrNothing`): it needs rows, each of them must
keep the contract of its product, and no two may have the same hub and start. The observations are
then those of the rows, strictly in order, and the same for every order of the rows. The order of
the observations does not matter to the warehouse either (`normalization_all_or_nothing`).
-/

set_option autoImplicit false

namespace PowerMarket.Sources

open Library

/-! ## Collecting -/

section Collecting

variable {α κ : Type} [LinearOrder κ] {required : List String} {label : String}
  {read : Row → Except Exn α} {key : α → String} {order : α → κ} {contract : Row → α → Prop}
  {frame frame' : Frame} {rows rows' : List Row} {records unsorted : List α}

theorem fresh_eq_ok {seen : List String} {record result : α} :
    fresh key seen record = .ok result ↔ key record ∉ seen ∧ record = result := by
  rw [fresh]
  split_ifs with known
  · exact ⟨fun impossible => (by cases impossible), fun found => absurd known found.1⟩
  · exact ⟨fun same => ⟨known, Except.ok.inj same⟩, fun found => congrArg _ found.2⟩

/-- **Rows are collected** when each of them is read and their keys are new. -/
theorem collect_eq_ok {index : Nat} {seen : List String} :
    collect label read key index seen rows = .ok records ↔
      List.Forall₂ (fun row record => read row = .ok record) rows records ∧
        (records.map key).Nodup ∧ ∀ record ∈ records, key record ∉ seen := by
  induction rows generalizing index seen records with
  | nil =>
      rw [collect, List.forall₂_nil_left_iff]
      constructor
      · intro same
        obtain rfl := Except.ok.inj same
        exact ⟨rfl, List.nodup_nil, fun _ impossible => (by cases impossible)⟩
      · rintro ⟨rfl, _⟩
        rfl
  | cons row rows ih =>
      simp only [collect, bind_eq_ok, mapError_eq_ok, fresh_eq_ok, ih, List.forall₂_cons_left_iff]
      constructor
      · rintro ⟨record, ⟨_, isRead, new, rfl⟩, later, ⟨each, distinct, unseen⟩, same⟩
        obtain rfl := Except.ok.inj same
        refine ⟨⟨_, _, isRead, each, rfl⟩, List.nodup_cons.mpr ⟨fun member => ?_, distinct⟩,
          List.forall_mem_cons.mpr ⟨new, fun other inLater member => ?_⟩⟩
        · obtain ⟨other, inLater, same⟩ := List.mem_map.mp member
          exact unseen other inLater (same ▸ List.mem_cons_self)
        · exact unseen other inLater (List.mem_cons_of_mem _ member)
      · rintro ⟨⟨record, later, isRead, each, rfl⟩, distinct, unseen⟩
        obtain ⟨new, distinct⟩ := List.nodup_cons.mp distinct
        obtain ⟨first, unseen⟩ := List.forall_mem_cons.mp unseen
        refine ⟨record, ⟨record, isRead, first, rfl⟩, later, ⟨each, distinct, ?_⟩, rfl⟩
        intro other inLater member
        rcases List.mem_cons.mp member with same | known
        · exact new (List.mem_map.mpr ⟨other, inLater, same⟩)
        · exact unseen other inLater known

/-- **When a table is normalized**, and to what. -/
theorem normalize_eq_ok (reads : ∀ row record, read row = .ok record ↔ contract row record) :
    normalize required label read key order frame = .ok records ↔
      ∃ rows unsorted, Offers frame required rows ∧ rows ≠ [] ∧
        List.Forall₂ contract rows unsorted ∧ (unsorted.map key).Nodup ∧
          records = sortOn order unsorted := by
  simp only [normalize, bind_eq_ok, rowsOf_eq_ok, collect_eq_ok, reads]
  constructor
  · rintro ⟨rows, ⟨offers, nonempty⟩, unsorted, ⟨each, distinct, _⟩, same⟩
    exact ⟨rows, unsorted, offers, nonempty, each, distinct, (Except.ok.inj same).symm⟩
  · rintro ⟨rows, unsorted, offers, nonempty, each, distinct, rfl⟩
    exact ⟨rows, ⟨offers, nonempty⟩, unsorted,
      ⟨each, distinct, fun _ _ impossible => (by cases impossible)⟩, rfl⟩

omit [LinearOrder κ] in
theorem Offers.unique (offers : Offers frame required rows)
    (offers' : Offers frame required rows') : rows = rows' := by
  obtain ⟨columns, shape, _⟩ := offers.table
  obtain ⟨columns', shape', _⟩ := offers'.table
  rw [shape] at shape'
  simp only [Frame.table.injEq, Except.ok.injEq, Records.list.injEq] at shape'
  exact List.map_injective_iff.mpr (fun _ _ => Record.fields.inj) shape'.2

/-- The rows of a table that is normalized keep the contract. -/
theorem normalize_keeps (reads : ∀ row record, read row = .ok record ↔ contract row record)
    (offers : Offers frame required rows)
    (normalized : normalize required label read key order frame = .ok records) :
    ∀ row ∈ rows, ∃ record, contract row record := by
  obtain ⟨_, unsorted, offers', _, each, _⟩ := (normalize_eq_ok reads).mp normalized
  obtain rfl := offers.unique offers'
  intro row member
  obtain ⟨record, _, keeps⟩ := forall₂_left each member
  exact ⟨record, keeps⟩

end Collecting

/-! ## All or nothing -/

section AllOrNothing

variable {α κ : Type} [LinearOrder κ]

/-- The records of two rows have different places in the order. -/
def Different (contract : Row → α → Prop) (order : α → κ) (row row' : Row) : Prop :=
  ∀ record record', contract row record → contract row' record' → order record ≠ order record'

/-- A normalization by the contract of a row and the order of the records. -/
structure AllOrNothing (required : List String) (contract : Row → α → Prop) (order : α → κ)
    (normalize : Frame → Except Exn (List α)) : Prop where
  /-- Rows are normalized exactly when there are some, each of them keeps the contract and no two
  have the same place. -/
  accepts : ∀ {frame rows}, Offers frame required rows →
    ((∃ records, normalize frame = .ok records) ↔
      rows ≠ [] ∧ (∀ row ∈ rows, ∃ record, contract row record) ∧
        rows.Pairwise (Different contract order))
  /-- Only tables of rows are normalized, and there is one record for each row. -/
  complete : ∀ {frame records}, normalize frame = .ok records →
    ∃ rows unsorted, Offers frame required rows ∧ List.Forall₂ contract rows unsorted ∧
      records.Perm unsorted
  /-- The records are strictly in order. -/
  sorted : ∀ {frame records}, normalize frame = .ok records →
    records.Pairwise fun a b => order a < order b
  /-- The order of the rows does not matter. -/
  stable : ∀ {frame frame' rows rows'}, Offers frame required rows → Offers frame' required rows' →
    rows'.Perm rows → ∀ records, normalize frame' = .ok records ↔ normalize frame = .ok records

variable {required : List String} {label : String} {read : Row → Except Exn α}
  {key : α → String} {order : α → κ} {contract : Row → α → Prop} {rows : List Row}
  {unsorted : List α}

omit [LinearOrder κ] in
theorem pairwise_different (unique : ∀ row record record', contract row record →
    contract row record' → record = record') (each : List.Forall₂ contract rows unsorted) :
    rows.Pairwise (Different contract order) ↔ (unsorted.map order).Nodup := by
  induction each with
  | nil => exact ⟨fun _ => List.nodup_nil, fun _ => List.Pairwise.nil⟩
  | @cons row record rows unsorted first each ih =>
      rw [List.pairwise_cons, ih, List.map_cons, List.nodup_cons]
      refine and_congr_left fun _ => ⟨fun apart member => ?_, fun apart row' inRows => ?_⟩
      · obtain ⟨record', inRecords, same⟩ := List.mem_map.mp member
        obtain ⟨row', inRows, keeps⟩ := forall₂_right each inRecords
        exact apart row' inRows record record' first keeps same.symm
      · intro other record' keeps keeps' same
        obtain rfl := unique row other record keeps first
        obtain ⟨partner, inRecords, keeps''⟩ := forall₂_left each inRows
        obtain rfl := unique row' record' partner keeps' keeps''
        exact apart (List.mem_map.mpr ⟨record', inRecords, same.symm⟩)

/-- **Normalization is all-or-nothing and does not depend on the order of the rows.** -/
theorem normalize_allOrNothing
    (reads : ∀ row record, read row = .ok record ↔ contract row record)
    (keys : ∀ a b, key a = key b ↔ order a = order b) :
    AllOrNothing required contract order (normalize required label read key order) := by
  have unique : ∀ row record record', contract row record → contract row record' →
      record = record' := by
    intro row record record' keeps keeps'
    exact Except.ok.inj (((reads row record).mpr keeps).symm.trans ((reads row record').mpr keeps'))
  have distinct : ∀ unsorted : List α, (unsorted.map key).Nodup ↔ (unsorted.map order).Nodup := by
    intro unsorted
    simp only [List.Nodup, List.pairwise_map, ne_eq, keys]
  constructor
  · intro frame rows offers
    simp only [normalize_eq_ok reads]
    constructor
    · rintro ⟨_, rows', unsorted, offers', nonempty, each, apart, rfl⟩
      obtain rfl := offers.unique offers'
      refine ⟨nonempty, fun row member => ?_, (pairwise_different unique each).mpr
        ((distinct unsorted).mp apart)⟩
      obtain ⟨record, _, keeps⟩ := forall₂_left each member
      exact ⟨record, keeps⟩
    · rintro ⟨nonempty, keeps, apart⟩
      have each : ∀ row ∈ rows, ∃ record, read row = .ok record ∧ contract row record := by
        intro row member
        obtain ⟨record, keeps⟩ := keeps row member
        exact ⟨record, (reads row record).mpr keeps, keeps⟩
      obtain ⟨unsorted, isRead, _⟩ := mapM_ok each
      have each : List.Forall₂ contract rows unsorted :=
        (mapM_eq_ok.mp isRead).imp fun row record => (reads row record).mp
      exact ⟨_, rows, unsorted, offers, nonempty, each, (distinct unsorted).mpr
        ((pairwise_different unique each).mp apart), rfl⟩
  · intro frame records normalized
    obtain ⟨rows, unsorted, offers, _, each, _, rfl⟩ := (normalize_eq_ok reads).mp normalized
    exact ⟨rows, unsorted, offers, each, sortOn_perm order unsorted⟩
  · intro frame records normalized
    obtain ⟨rows, unsorted, _, _, _, apart, rfl⟩ := (normalize_eq_ok reads).mp normalized
    exact sortOn_strict ((distinct unsorted).mp apart)
  · have forward : ∀ {frame frame' : Frame} {rows rows' : List Row} {records : List α},
        Offers frame required rows → Offers frame' required rows' → rows'.Perm rows →
          normalize required label read key order frame = .ok records →
            normalize required label read key order frame' = .ok records := by
      intro frame frame' rows rows' records offers offers' perm normalized
      obtain ⟨_, unsorted, offers'', nonempty, each, apart, rfl⟩ :=
        (normalize_eq_ok reads).mp normalized
      obtain rfl := offers.unique offers''
      obtain ⟨unsorted', each', perm'⟩ := List.perm_comp_forall₂ perm each
      have nonempty' : rows' ≠ [] := fun empty => nonempty (List.nil_perm.mp (empty ▸ perm))
      exact (normalize_eq_ok reads).mpr ⟨rows', unsorted', offers', nonempty', each',
        (perm'.map key).nodup_iff.mpr apart,
        (sortOn_eq_of_perm ((distinct unsorted).mp apart) perm').symm⟩
    intro frame frame' rows rows' offers offers' perm records
    exact ⟨forward offers' offers perm.symm, forward offers offers' perm⟩

end AllOrNothing

/-! ## The two products -/

section Products

variable [Platform]

/-- **The logical key of a price** stands for its hub and start. -/
theorem lmpKey_iff (noCollisions : NoCollisions) (a b : LmpObservation) :
    lmpKey a = lmpKey b ↔ lmpOrder a = lmpOrder b := by
  rw [lmpKey, lmpKey, logicalKey_eq_iff noCollisions]
  constructor
  · rintro ⟨_, start, hub⟩
    have starts : a.interval.start = b.interval.start := start
    have hubs : a.location = b.location := Option.some.inj hub
    rw [lmpOrder, lmpOrder, starts, hubs]
  · intro same
    obtain ⟨start, location⟩ := Prod.mk.inj (toLex.injective same)
    exact ⟨rfl, start, congrArg some (Hub.text_injective location)⟩

/-- **The logical key of a demand** stands for its start. -/
theorem loadKey_iff (noCollisions : NoCollisions) (a b : LoadObservation) :
    loadKey a = loadKey b ↔ loadOrder a = loadOrder b := by
  rw [loadKey, loadKey, logicalKey_eq_iff noCollisions]
  exact ⟨fun same => same.start, fun same => ⟨rfl, same, rfl⟩⟩

/-- A batch whose result does not depend on the order of its records. -/
structure OrderFree (request : Request) (records : List Observation) : Prop where
  /-- Every order of the records has the same rows. -/
  rows : ∀ records' batch, records'.Perm records →
    (batchRows request records' = .ok batch ↔ batchRows request records = .ok batch)
  /-- The rows are strictly in the order of their keys. -/
  sorted : ∀ batch, batchRows request records = .ok batch →
    batch.Pairwise fun a b => a.logicalKey < b.logicalKey
  /-- Every order of the rows has the same hash. -/
  hash : ∀ batch batch', batchRows request records = .ok batch → batch'.Perm batch →
    ∀ runId current plan plan', planWrite runId batch current = .ok plan →
      planWrite runId batch' current = .ok plan' → plan'.batchHash = plan.batchHash

theorem batch_orderFree (request : Request) (records : List Observation) :
    OrderFree request records := by
  constructor
  · intro records' batch perm
    exact batchRows_perm perm
  · intro batch batched
    exact batchRows_strict batched
  · intro batch batch' batched perm runId current plan plan' planned planned'
    rw [(planWrite_eq planned).2, (planWrite_eq planned').2]
    exact batchHash_perm perm ((perm.map _).nodup_iff.mpr (batchRows_spec batched).distinct)

/-- **Normalization is all-or-nothing and independent of order.** For every table and both products
the records are those of the rows or there are none, and neither the order of the rows nor that of
the records makes a difference. -/
theorem normalization_all_or_nothing (noCollisions : NoCollisions) (retrieval : Provenance) :
    AllOrNothing lmpColumns (LmpContract retrieval) lmpOrder (normalizeLmp · retrieval) ∧
      AllOrNothing loadColumns (LoadContract retrieval) loadOrder (normalizeLoad · retrieval) ∧
      ∀ request records, OrderFree request records :=
  ⟨normalize_allOrNothing (fun _ _ => lmpRecord_eq_ok) (lmpKey_iff noCollisions),
    normalize_allOrNothing (fun _ _ => loadRecord_eq_ok) (loadKey_iff noCollisions),
    batch_orderFree⟩

end Products

/-- An hour of a day of the sample zone. -/
def plainHour : Interval 3600 :=
  ⟨⟨738500 * dayMicros + 36000000000, by decide, by decide⟩,
    ⟨738500 * dayMicros + 39600000000, by decide, by decide⟩, by decide, by decide⟩

/-- A price in that hour. -/
def hubRecord (location : Hub) : LmpObservation where
  location := location
  interval := plainHour
  lmp := ⟨false, 4250, -2⟩
  energy := ⟨false, 400, -1⟩
  congestion := ⟨false, 20, -1⟩
  loss := ⟨false, 5, -1⟩
  provenance := sampleObservation.provenance

/-- The row of that price. -/
def hubRow (location : Hub) : Row :=
  lmpRow plainHour.start plainHour.stop location (.float (.finite ⟨false, 4250, -2⟩))
    (.float (.finite ⟨false, 400, -1⟩)) (.float (.finite ⟨false, 20, -1⟩))
    (.decimal (.finite ⟨false, 5, -1⟩))

theorem hubRow_contract (location : Hub) :
    LmpContract sampleObservation.provenance (hubRow location) (hubRecord location) :=
  @lmpRow_contract (hubRecord location) _ _ _ _ (.float _) (.float _) (.float _) (.decimal _)

/-- Two prices of one hour are normalized to the same records in both orders. -/
theorem normalization_all_or_nothing_sample : letI := Platform.plain
    ∃ records, normalizeLmp (tableOf lmpColumns [hubRow .sp15, hubRow .np15])
        sampleObservation.provenance = .ok records ∧
      normalizeLmp (tableOf lmpColumns [hubRow .np15, hubRow .sp15])
        sampleObservation.provenance = .ok records ∧
      records.Pairwise fun a b => lmpOrder a < lmpOrder b := by
  let _ := Platform.plain
  obtain ⟨prices, _⟩ := @normalization_all_or_nothing Platform.plain noCollisions_plain
    sampleObservation.provenance
  have made : ∀ locations : List Hub,
      Offers (tableOf lmpColumns (locations.map hubRow)) lmpColumns (locations.map hubRow) := by
    intro locations
    refine offers_lmpRows fun row member => ?_
    obtain ⟨location, _, rfl⟩ := List.mem_map.mp member
    exact ⟨_, _, _, _, _, _, _, rfl⟩
  have apart : [hubRow .sp15, hubRow .np15].Pairwise
      (Different (LmpContract sampleObservation.provenance) lmpOrder) := by
    refine List.pairwise_pair.mpr fun record record' first second same => ?_
    have location := (Prod.mk.inj (toLex.injective same)).2
    rw [← Cell.text.inj first.location, ← Cell.text.inj second.location] at location
    exact absurd location (by decide)
  have keeps : ∀ row ∈ [Hub.sp15, .np15].map hubRow, ∃ record,
      LmpContract sampleObservation.provenance row record := by
    intro row member
    obtain ⟨location, _, rfl⟩ := List.mem_map.mp member
    exact ⟨hubRecord location, hubRow_contract location⟩
  obtain ⟨records, normalized⟩ := (prices.accepts (made [.sp15, .np15])).mpr
    ⟨List.cons_ne_nil _ _, keeps, apart⟩
  exact ⟨records, normalized, (prices.stable (made [.sp15, .np15]) (made [.np15, .sp15])
    (List.Perm.swap _ _ _) records).mpr normalized, prices.sorted normalized⟩

/-! ## Rows at a limit -/

/-- The last instant of the calendar at which a day of the sample zone is half over. -/
def lastNoon : UtcTime := ⟨maxOrdinal * dayMicros + 72000000000, by decide, by decide⟩

/-- The five minutes from there. -/
def lastInterval : Interval 300 :=
  ⟨lastNoon, ⟨maxOrdinal * dayMicros + 72300000000, by decide, by decide⟩, by decide, by decide⟩

/-- A demand in the last day of the calendar. -/
def lastRow : Row :=
  loadRow lastInterval.start lastInterval.stop (.float (.finite ⟨false, 25000, 0⟩))

/-- The least integer with 4301 digits. -/
def longInteger : Nat := 10 ^ maxStrDigits

/-- A price that is an integer with too many digits. -/
def longRow : Row :=
  lmpRow plainHour.start plainHour.stop .np15 (.integer longInteger) (.integer 40) (.integer 1)
    (.integer 1)

theorem finite_natural (n : Nat) : (Cell.integer n).Finite ⟨false, n, 0⟩ := by
  have shown := Cell.Finite.integer n
  have nonneg : decide ((n : Int) < 0) = false :=
    decide_eq_false (not_lt.mpr (Int.natCast_nonneg n))
  rw [nonneg, Int.natAbs_natCast] at shown
  exact shown

theorem lastRow_offered : Offers (tableOf loadColumns [lastRow]) loadColumns [lastRow] :=
  offers_loadRows fun _ member => ⟨_, _, _, List.mem_singleton.mp member⟩

theorem longRow_offered : Offers (tableOf lmpColumns [longRow]) lmpColumns [longRow] :=
  offers_lmpRows fun _ member => ⟨_, _, _, _, _, _, _, List.mem_singleton.mp member⟩

/-- **Two limits of what a row can hold.** A demand in the last day of the calendar has its time at
its start, an exact interval, a nonnegative finite number and a day of 24 hours, and a price can be
an integer of 4301 digits, but neither of them is normalized. -/
theorem rows_beyond_limits : letI := Platform.plain
    (Offers (tableOf loadColumns [lastRow]) loadColumns [lastRow] ∧
      ((lastRow.cell "Interval Start").Instant lastInterval.start ∧
        (lastRow.cell "Interval End").Instant lastInterval.stop ∧
        (lastRow.cell "Time").Instant lastInterval.start ∧
        (lastRow.cell "Load").Finite ⟨false, 25000, 0⟩) ∧
      (∃ day, pacificDate lastInterval.start = .ok day ∧
        Platform.pacific.midnight dayMicros (day.ordinal + 1) -
          Platform.pacific.midnight dayMicros day.ordinal = dayMicros) ∧
      ¬ ∃ records, normalizeLoad (tableOf loadColumns [lastRow]) sampleObservation.provenance =
        .ok records) ∧
    (Offers (tableOf lmpColumns [longRow]) lmpColumns [longRow] ∧
      ((longRow.cell "Interval Start").Instant plainHour.start ∧
        (longRow.cell "Interval End").Instant plainHour.stop ∧
        (longRow.cell "Time").Instant plainHour.start ∧
        longRow.cell "Location" = .text Hub.np15.text ∧
        longRow.cell "Market" = .text "DAY_AHEAD_HOURLY" ∧
        longRow.cell "Location Type" = .text "Trading Hub" ∧
        (longRow.cell "LMP").Finite ⟨false, longInteger, 0⟩ ∧
        (longRow.cell "Energy").Finite ⟨false, 40, 0⟩ ∧
        (longRow.cell "Congestion").Finite ⟨false, 1, 0⟩ ∧
        (longRow.cell "Loss").Finite ⟨false, 1, 0⟩) ∧
      ¬ ∃ records, normalizeLmp (tableOf lmpColumns [longRow]) sampleObservation.provenance =
        .ok records) := by
  let _ := Platform.plain
  refine ⟨⟨lastRow_offered, ⟨Cell.instant_ofTime _, Cell.instant_ofTime _, Cell.instant_ofTime _,
    .float _⟩, ?_, ?_⟩, longRow_offered, ⟨Cell.instant_ofTime _, Cell.instant_ofTime _,
    Cell.instant_ofTime _, rfl, rfl, rfl, finite_natural longInteger, .integer 40, .integer 1,
    .integer 1⟩, ?_⟩
  · exact ⟨⟨maxOrdinal, by decide, le_rfl⟩, pacificDate_eq_ok.mpr (by decide), by decide⟩
  · rintro ⟨records, normalized⟩
    obtain ⟨record, keeps⟩ := normalize_keeps (fun _ _ => loadRecord_eq_ok) lastRow_offered
      normalized lastRow (List.mem_singleton.mpr rfl)
    obtain ⟨day, bounds, dated, isBounds, _⟩ := keeps.day
    obtain ⟨next, follows, _⟩ := bind_eq_ok.mp isBounds
    rw [← (Cell.instant_ofTime lastInterval.start).unique keeps.start] at dated
    have last : pacificDate lastInterval.start = .ok ⟨maxOrdinal, by decide, le_rfl⟩ :=
      pacificDate_eq_ok.mpr (by decide)
    obtain rfl := Except.ok.inj (dated.symm.trans last)
    have bounded := next.bounded
    rw [Date.next_eq_ok.mp follows] at bounded
    exact absurd bounded (by decide)
  · rintro ⟨records, normalized⟩
    obtain ⟨record, keeps⟩ := normalize_keeps (fun _ _ => lmpRecord_eq_ok) longRow_offered
      normalized longRow (List.mem_singleton.mpr rfl)
    exact keeps.lmp.short ⟨longInteger, rfl, (Int.natAbs_natCast longInteger).ge⟩

end PowerMarket.Sources
