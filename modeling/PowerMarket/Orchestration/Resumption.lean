import PowerMarket.Orchestration.Plan
import PowerMarket.Warehouse.Origins
import Mathlib.Data.List.Sort

/-!
# Complete and resumable plans

What a backfill selects in one day is a list of products and hubs (`selection`). A plan has one unit
for each of them on each of its days, in order (`expand_keys`). The id of the run of a unit is made
of the request that the unit shows, so that it is the same in all plans of one backfill id that
contain the unit, and different from the ids of all other units (`runId_eq_iff`).
-/

set_option autoImplicit false

namespace PowerMarket

open Library

/-! ## Keys -/

/-- The day, the product and the hub of a unit. -/
def IngestionUnit.key (unit : IngestionUnit) : Date × String × String :=
  (unit.day, unit.product, unit.location)

/-- The products and hubs of a backfill in the order in which they are requested on a day. -/
def selection (spec : Backfill) : List (String × String) :=
  (if spec.ingestLmp then (spec.locations.insertionSort (· ≤ ·)).map ("lmp", ·) else []) ++
    if spec.ingestLoad then [("load", "")] else []

/-- Whether a backfill selects a product and a hub. The load of the system has no hub. -/
def Selects (spec : Backfill) (product location : String) : Prop :=
  (spec.ingestLmp = true ∧ product = "lmp" ∧ location ∈ spec.locations) ∨
    (spec.ingestLoad = true ∧ product = "load" ∧ location = "")

/-- The order of the products and hubs of one day: sorted hubs before the load. -/
def SelectedBefore (a b : String × String) : Prop :=
  a.1 = "lmp" ∧ (b.1 = "lmp" ∧ a.2 < b.2 ∨ b.1 = "load")

/-- The order of the units of a plan. -/
def UnitBefore (a b : IngestionUnit) : Prop :=
  a.day.ordinal < b.day.ordinal ∨
    a.day = b.day ∧ SelectedBefore (a.product, a.location) (b.product, b.location)

theorem UnitBefore.key_ne {a b : IngestionUnit} (before : UnitBefore a b) : a.key ≠ b.key := by
  intro same
  rw [IngestionUnit.key, IngestionUnit.key, Prod.mk.injEq, Prod.mk.injEq] at same
  obtain ⟨day, product, location⟩ := same
  rcases before with earlier | ⟨_, isPrice, ⟨_, less⟩ | isLoad⟩
  · rw [day] at earlier
    exact lt_irrefl _ earlier
  · dsimp only at less
    rw [location] at less
    exact lt_irrefl _ less
  · dsimp only at isPrice isLoad
    rw [product, isLoad] at isPrice
    exact absurd isPrice (by decide)

theorem mem_selection {spec : Backfill} {product location : String} :
    (product, location) ∈ selection spec ↔ Selects spec product location := by
  rw [selection, List.mem_append, Selects]
  cases lmp : spec.ingestLmp <;> cases load : spec.ingestLoad <;> simp <;> tauto

/-- **The selection of a day is in order.** -/
theorem selection_sorted {spec : Backfill} (distinct : spec.locations.Nodup) :
    (selection spec).Pairwise SelectedBefore := by
  have strict : (spec.locations.insertionSort (· ≤ ·)).Pairwise (· < ·) := by
    have sorted := List.pairwise_insertionSort (· ≤ ·) spec.locations
    have different := (List.perm_insertionSort (· ≤ ·) spec.locations).nodup_iff.mpr distinct
    exact (sorted.and different).imp fun both => lt_of_le_of_ne both.1 both.2
  refine List.pairwise_append.mpr ⟨?_, ?_, ?_⟩
  · split_ifs
    · exact List.pairwise_map.mpr (strict.imp fun less => ⟨rfl, .inl ⟨rfl, less⟩⟩)
    · exact .nil
  · split_ifs
    · exact List.pairwise_singleton _ _
    · exact .nil
  · intro price inPrices load inLoads
    split_ifs at inPrices
    · obtain ⟨hub, _, rfl⟩ := List.mem_map.mp inPrices
      split_ifs at inLoads
      · rw [List.mem_singleton.mp inLoads]
        exact ⟨rfl, .inr rfl⟩
      · cases inLoads
    · cases inPrices

theorem insertionSort_perm {hubs hubs' : List String} (perm : hubs.Perm hubs') :
    hubs.insertionSort (· ≤ ·) = hubs'.insertionSort (· ≤ ·) :=
  List.Perm.eq_of_sortedLE List.sortedLE_insertionSort List.sortedLE_insertionSort
    ((List.perm_insertionSort _ _).trans (perm.trans (List.perm_insertionSort _ _).symm))

variable [Platform] {uuid5 : String → String → String} {today : Date} {spec : Backfill}

/-! ## The units of a day -/

/-- The unit of a request shows its day, its product and its hub. -/
theorem unitOf_key {day : Date} {request : Request} {product : String} {location : Option String}
    (created : Request.create today product day location = .ok request) :
    (unitOf uuid5 spec day request).key = (day, product, location.getD "") := by
  obtain ⟨_, _, isProduct, isLocation⟩ := Request.create_eq_ok.mp created
  rw [unitOf, IngestionUnit.key, isProduct, isLocation]

/-- The units of one day are for its selection. -/
theorem dayUnits_keys {start : Date} {offset : Nat} {units : List IngestionUnit}
    (isDay : dayUnits uuid5 today spec start offset = .ok units) :
    ∃ day : Date, day.ordinal = start.ordinal + offset ∧
      units.map (·.key) = (selection spec).map (day, ·) := by
  obtain ⟨day, later, rest⟩ := bind_eq_ok.mp isDay
  obtain ⟨planned, arePlanned, same⟩ := bind_eq_ok.mp rest
  cases same
  obtain ⟨prices, arePrices, rest⟩ := bind_eq_ok.mp arePlanned
  obtain ⟨loads, areLoads, same⟩ := bind_eq_ok.mp rest
  cases same
  refine ⟨day, Date.plus_eq_ok.mp later, ?_⟩
  rw [List.map_append, List.map_append, selection, List.map_append]
  congr 1
  · unfold priceRequests at arePrices
    split_ifs at arePrices with lmp
    · rw [if_pos lmp, List.map_map, List.map_map, ← List.forall₂_eq_eq_eq,
        List.forall₂_map_left_iff, List.forall₂_map_right_iff]
      exact (mapM_eq_ok.mp arePrices).flip.imp fun _ _ created => unitOf_key created
    · cases arePrices
      rw [if_neg lmp]
      rfl
  · unfold loadRequests at areLoads
    split_ifs at areLoads with load
    · obtain ⟨request, created, rest⟩ := bind_eq_ok.mp areLoads
      obtain ⟨bounds, _, rest⟩ := bind_eq_ok.mp rest
      split_ifs at rest
      cases rest
      rw [if_pos load]
      exact congrArg (fun key => [key]) (unitOf_key created)
    · cases areLoads
      rw [if_neg load]
      rfl

theorem dayUnits_ordinal {start : Date} {offset : Nat} {units : List IngestionUnit}
    (isDay : dayUnits uuid5 today spec start offset = .ok units) {unit : IngestionUnit}
    (member : unit ∈ units) : unit.day.ordinal = start.ordinal + offset :=
  (mem_dayUnits isDay member).1

theorem dayUnits_sorted (distinct : spec.locations.Nodup) {start : Date} {offset : Nat}
    {units : List IngestionUnit} (isDay : dayUnits uuid5 today spec start offset = .ok units) :
    units.Pairwise UnitBefore := by
  obtain ⟨day, _, keys⟩ := dayUnits_keys isDay
  have ordered : (units.map (·.key)).Pairwise fun a b =>
      a.1 = b.1 ∧ SelectedBefore a.2 b.2 := by
    rw [keys]
    exact List.pairwise_map.mpr ((selection_sorted distinct).imp fun before => ⟨rfl, before⟩)
  exact (List.pairwise_map.mp ordered).imp fun before => .inr before

/-! ## Plans -/

section Plans

variable {units : List IngestionUnit}

/-- **A plan is in order**: day by day, and in each day the sorted hubs before the load. -/
theorem expand_ordered (planned : expand uuid5 today spec = .ok units) :
    units.Pairwise UnitBefore := by
  obtain ⟨start, stop, days, _, _, _, _, each, rfl⟩ := expand_eq_ok planned
  have distinct := (expand_valid planned).2
  have ordered : ∀ {offsets : List Nat} {days : List (List IngestionUnit)},
      List.Forall₂ (fun offset day => dayUnits uuid5 today spec start offset = .ok day)
        offsets days → offsets.Pairwise (· < ·) → days.flatten.Pairwise UnitBefore := by
    intro offsets days each increasing
    induction each with
    | nil => exact .nil
    | cons isDay rest ih =>
        obtain ⟨before, increasing⟩ := List.pairwise_cons.mp increasing
        rw [List.flatten_cons]
        refine List.pairwise_append.mpr ⟨dayUnits_sorted distinct isDay, ih increasing, ?_⟩
        intro a inDay b inRest
        obtain ⟨later, inDays, inLater⟩ := List.mem_flatten.mp inRest
        obtain ⟨offset, inOffsets, isLater⟩ := forall₂_right rest inDays
        have less := before offset inOffsets
        refine .inl ?_
        rw [dayUnits_ordinal isDay inDay, dayUnits_ordinal isLater inLater]
        omega
  exact ordered each List.pairwise_lt_range

/-- **A plan is complete**: it has a unit for everything that its backfill selects on its days. -/
theorem expand_complete (planned : expand uuid5 today spec = .ok units) :
    ∃ start stop, isoDate spec.startDate = .ok start ∧ isoDate spec.endDate = .ok stop ∧
      ∀ (day : Date) (product location : String),
        (∃ unit ∈ units, unit.key = (day, product, location)) ↔
          start.ordinal ≤ day.ordinal ∧ day.ordinal ≤ stop.ordinal ∧
            Selects spec product location := by
  obtain ⟨start, stop, days, isStart, isStop, _, _, each, rfl⟩ := expand_eq_ok planned
  refine ⟨start, stop, isStart, isStop, fun day product location => ⟨?_, ?_⟩⟩
  · rintro ⟨unit, member, key⟩
    obtain ⟨dayUnits, inDays, inDay⟩ := List.mem_flatten.mp member
    obtain ⟨offset, inRange, isDay⟩ := forall₂_right each inDays
    obtain ⟨_, _, keys⟩ := dayUnits_keys isDay
    have inKeys := List.mem_map_of_mem (f := IngestionUnit.key) inDay
    rw [keys, key] at inKeys
    obtain ⟨_, selected, same⟩ := List.mem_map.mp inKeys
    cases same
    have ordinal := dayUnits_ordinal isDay inDay
    rw [show unit.day = day from congrArg Prod.fst key] at ordinal
    rw [List.mem_range] at inRange
    exact ⟨by omega, by omega, mem_selection.mp selected⟩
  · rintro ⟨after, before, selected⟩
    have inRange : day.ordinal - start.ordinal ∈ List.range (stop.ordinal - start.ordinal + 1) :=
      List.mem_range.mpr (by omega)
    obtain ⟨dayUnits, inDays, isDay⟩ := forall₂_left each inRange
    obtain ⟨date, ordinal, keys⟩ := dayUnits_keys isDay
    obtain rfl : date = day := Date.ordinal_injective (by omega)
    have inKeys := List.mem_map_of_mem (f := (date, ·)) (mem_selection.mpr selected)
    rw [← keys] at inKeys
    obtain ⟨unit, inDay, key⟩ := List.mem_map.mp inKeys
    exact ⟨unit, List.mem_flatten.mpr ⟨dayUnits, inDays, inDay⟩, key⟩

omit [Platform] in
/-- A request does not depend on the day on which it is made. -/
theorem create_today {today' day : Date} {product : String} {location : Option String}
    {request request' : Request}
    (created : Request.create today product day location = .ok request)
    (created' : Request.create today' product day location = .ok request') :
    request = request' := by
  obtain ⟨_, isDay, isProduct, isLocation⟩ := Request.create_eq_ok.mp created
  obtain ⟨_, isDay', isProduct', isLocation'⟩ := Request.create_eq_ok.mp created'
  refine Request.eq_of_parts (Product.text_injective (isProduct.trans isProduct'.symm))
    (isDay.trans isDay'.symm) ?_
  rw [isLocation, isLocation']

/-- **The plan does not depend on the day on which it is made.** -/
theorem expand_today {today' : Date} {units units' : List IngestionUnit}
    (planned : expand uuid5 today spec = .ok units)
    (planned' : expand uuid5 today' spec = .ok units') : units = units' := by
  have prices : ∀ day requests requests', priceRequests today spec day = .ok requests →
      priceRequests today' spec day = .ok requests' → requests = requests' := by
    intro day requests requests' made made'
    unfold priceRequests at made made'
    split_ifs at made made'
    · exact mapM_agree (fun _ _ _ => create_today) made made'
    · cases made
      cases made'
      rfl
  have loads : ∀ day requests requests', loadRequests today spec day = .ok requests →
      loadRequests today' spec day = .ok requests' → requests = requests' := by
    intro day requests requests' made made'
    unfold loadRequests at made made'
    split_ifs at made made'
    · obtain ⟨request, created, rest⟩ := bind_eq_ok.mp made
      obtain ⟨request', created', rest'⟩ := bind_eq_ok.mp made'
      obtain ⟨_, _, rest⟩ := bind_eq_ok.mp rest
      obtain ⟨_, _, rest'⟩ := bind_eq_ok.mp rest'
      split_ifs at rest rest'
      cases rest
      cases rest'
      rw [create_today created created']
    · cases made
      cases made'
      rfl
  have eachDay : ∀ start offset day day', dayUnits uuid5 today spec start offset = .ok day →
      dayUnits uuid5 today' spec start offset = .ok day' → day = day' := by
    intro start offset day day' made made'
    obtain ⟨date, later, rest⟩ := bind_eq_ok.mp made
    obtain ⟨date', later', rest'⟩ := bind_eq_ok.mp made'
    rw [later] at later'
    cases later'
    obtain ⟨requests, areRequests, same⟩ := bind_eq_ok.mp rest
    obtain ⟨requests', areRequests', same'⟩ := bind_eq_ok.mp rest'
    cases same
    cases same'
    obtain ⟨first, isFirst, others⟩ := bind_eq_ok.mp areRequests
    obtain ⟨first', isFirst', others'⟩ := bind_eq_ok.mp areRequests'
    obtain ⟨second, isSecond, same⟩ := bind_eq_ok.mp others
    obtain ⟨second', isSecond', same'⟩ := bind_eq_ok.mp others'
    cases same
    cases same'
    rw [prices _ _ _ isFirst isFirst', loads _ _ _ isSecond isSecond']
  obtain ⟨start, stop, days, isStart, isStop, _, _, each, rfl⟩ := expand_eq_ok planned
  obtain ⟨start', stop', days', isStart', isStop', _, _, each', rfl⟩ := expand_eq_ok planned'
  rw [isStart] at isStart'
  rw [isStop] at isStop'
  cases isStart'
  cases isStop'
  rw [mapM_agree (eachDay start) (mapM_eq_ok.mpr each) (mapM_eq_ok.mpr each')]

theorem expand_perm {hubs : List String} (perm : hubs.Perm spec.locations) :
    expand uuid5 today { spec with locations := hubs } = expand uuid5 today spec := by
  have prices : ∀ day, priceRequests today { spec with locations := hubs } day =
      priceRequests today spec day := by
    intro day
    rw [priceRequests, priceRequests, insertionSort_perm perm]
  have eachDay : ∀ start, dayUnits uuid5 today { spec with locations := hubs } start =
      dayUnits uuid5 today spec start := by
    intro start
    funext offset
    simp only [dayUnits, dayRequests, prices]
    rfl
  have unsupported : hubs.any (· ∉ tradingHubs) = spec.locations.any (· ∉ tradingHubs) :=
    perm.any_eq
  have distinct : hubs.dedup.length = spec.locations.dedup.length := perm.dedup.length_eq
  have empty : hubs.isEmpty = spec.locations.isEmpty := by
    rw [Bool.eq_iff_iff, List.isEmpty_iff, List.isEmpty_iff]
    exact ⟨fun none => (none ▸ perm).nil_eq.symm, fun none => (none ▸ perm).eq_nil⟩
  simp only [expand, eachDay, unsupported, distinct, empty, perm.length_eq]

end Plans

/-! ## Run ids -/

/-- The assumption that different names in the namespaces of different backfills have different
hashes. -/
def UuidInjective (uuid5 : String → String → String) : Prop :=
  ∀ id id' name name' : String, isRunId id = true → isRunId id' = true →
    uuid5 id name = uuid5 id' name' → id = id' ∧ name = name'

omit [Platform] in
theorem Shows.key_eq_iff {unit unit' : IngestionUnit} {request request' : Request}
    (isShown : Shows unit request) (isShown' : Shows unit' request') :
    unit.key = unit'.key ↔ request = request' := by
  have ofUnit : unit.key =
      (request.day, request.product.text, (request.location.map Hub.text).getD "") := by
    rw [isShown.day, isShown.product, ← isShown.location, IngestionUnit.key]
  have ofUnit' : unit'.key =
      (request'.day, request'.product.text, (request'.location.map Hub.text).getD "") := by
    rw [isShown'.day, isShown'.product, ← isShown'.location, IngestionUnit.key]
  rw [ofUnit, ofUnit']
  constructor
  · intro same
    rw [Prod.mk.injEq, Prod.mk.injEq] at same
    obtain ⟨day, product, location⟩ := same
    exact Request.eq_of_parts (Product.text_injective product) day location
  · rintro rfl
    rfl

omit [Platform] in
theorem Shows.unique {unit : IngestionUnit} {request request' : Request}
    (isShown : Shows unit request) (isShown' : Shows unit request') : request = request' :=
  (isShown.key_eq_iff isShown').mp rfl

/-- The id of a run is made of the request that its unit shows. -/
theorem expand_runId {units : List IngestionUnit}
    (planned : expand uuid5 today spec = .ok units) {unit : IngestionUnit}
    (member : unit ∈ units) : ∃ request, Shows unit request ∧
      unit.runId = uuid5 spec.backfillId ("backfill-unit/v1:" ++ request.requestId) := by
  obtain ⟨start, stop, days, _, _, _, _, each, rfl⟩ := expand_eq_ok planned
  obtain ⟨dayUnits, inDays, inDay⟩ := List.mem_flatten.mp member
  obtain ⟨offset, _, isDay⟩ := forall₂_right each inDays
  obtain ⟨day, _, rest⟩ := bind_eq_ok.mp isDay
  obtain ⟨requests, arePlanned, same⟩ := bind_eq_ok.mp rest
  cases same
  obtain ⟨request, inRequests, rfl⟩ := List.mem_map.mp inDay
  exact ⟨request, ⟨(mem_dayRequests arePlanned inRequests).1, rfl, rfl⟩, rfl⟩

/-- **Units have the same run id** exactly when their backfills have the same id and they have the
same day, product and hub, whatever else their plans contain. -/
theorem runId_eq_iff (noCollisions : NoCollisions) (injective : UuidInjective uuid5)
    {today' : Date} {spec' : Backfill} {units units' : List IngestionUnit}
    (planned : expand uuid5 today spec = .ok units)
    (planned' : expand uuid5 today' spec' = .ok units') {unit unit' : IngestionUnit}
    (member : unit ∈ units) (member' : unit' ∈ units') :
    unit.runId = unit'.runId ↔ spec.backfillId = spec'.backfillId ∧ unit.key = unit'.key := by
  obtain ⟨request, isShown, runId⟩ := expand_runId planned member
  obtain ⟨request', isShown', runId'⟩ := expand_runId planned' member'
  rw [isShown.key_eq_iff isShown', runId, runId']
  constructor
  · intro same
    obtain ⟨ids, names⟩ := injective _ _ _ _ (expand_valid planned).1 (expand_valid planned').1 same
    exact ⟨ids, Request.requestId_injective noCollisions ((String.append_right_inj _).mp names)⟩
  · rintro ⟨ids, rfl⟩
    rw [ids]

/-- **Backfill plans are complete, canonical and resumable.** The units of a plan are one for each
day, product and hub that its backfill selects, in order, whatever the order of the hubs is, and
have different run ids. A unit has the same run id in all plans of one backfill id, and no other
unit has it. A refused backfill has no plan. -/
theorem plans_canonical (noCollisions : NoCollisions) (injective : UuidInjective uuid5) :
    (∀ (today : Date) (spec : Backfill) (units : List IngestionUnit),
      expand uuid5 today spec = .ok units →
        (∃ start stop, isoDate spec.startDate = .ok start ∧ isoDate spec.endDate = .ok stop ∧
          ∀ (day : Date) (product location : String),
            (∃ unit ∈ units, unit.key = (day, product, location)) ↔
              start.ordinal ≤ day.ordinal ∧ day.ordinal ≤ stop.ordinal ∧
                Selects spec product location) ∧
        (units.map (·.key)).Nodup ∧ units.Pairwise UnitBefore ∧ (units.map (·.runId)).Nodup) ∧
    (∀ (today : Date) (spec : Backfill) (hubs : List String), hubs.Perm spec.locations →
      expand uuid5 today { spec with locations := hubs } = expand uuid5 today spec) ∧
    (∀ (today today' : Date) (spec spec' : Backfill) (units units' : List IngestionUnit),
      expand uuid5 today spec = .ok units → expand uuid5 today' spec' = .ok units' →
      ∀ unit ∈ units, ∀ unit' ∈ units',
        unit.runId = unit'.runId ↔ spec.backfillId = spec'.backfillId ∧ unit.key = unit'.key) ∧
    ∀ (today : Date) (spec : Backfill) (e : Exn), expand uuid5 today spec = .error e →
      ¬ ∃ units, expand uuid5 today spec = .ok units := by
  refine ⟨fun today spec units planned => ?_, fun today spec hubs perm => expand_perm perm,
    fun today today' spec spec' units units' planned planned' unit member unit' member' =>
      runId_eq_iff noCollisions injective planned planned' member member', ?_⟩
  · have ordered := expand_ordered planned
    have different : units.Pairwise fun a b => a.key ≠ b.key :=
      ordered.imp fun before => before.key_ne
    refine ⟨expand_complete planned, List.pairwise_map.mpr different, ordered,
      List.pairwise_map.mpr (different.imp_of_mem ?_)⟩
    intro a b inUnits inUnits' keys runIds
    exact keys ((runId_eq_iff noCollisions injective planned planned inUnits inUnits').mp runIds).2
  · rintro today spec e refused ⟨units, planned⟩
    rw [refused] at planned
    cases planned

/-! ## A small plan -/

/-- A later day. -/
def planningDay : Date := ⟨738003, by decide, by decide⟩

/-- A backfill of both products for two days. -/
def samplePlan : Backfill :=
  { backfillId := sampleRunId
    startDate := "2021-07-28"
    endDate := "2021-07-29" }

omit [Platform] in
theorem uuidInjective_append : UuidInjective (· ++ ·) := by
  intro id id' name name' isId isId' same
  have chars : id.toList ++ name.toList = id'.toList ++ name'.toList := by
    rw [← String.toList_append, ← String.toList_append]
    exact congrArg String.toList same
  obtain ⟨ids, names⟩ := List.append_inj chars
    ((isRunId_length isId).trans (isRunId_length isId').symm)
  exact ⟨String.toList_inj.mp ids, String.toList_inj.mp names⟩

set_option maxRecDepth 10000 in
omit [Platform] in
theorem samplePlan_expands :
    letI := Platform.plain
    ∃ units, expand (· ++ ·) planningDay samplePlan = .ok units ∧
      units.map (·.product) = ["lmp", "load", "lmp", "load"] :=
  ⟨_, rfl, rfl⟩

omit [Platform] in
/-- The plan of two days has four different runs. -/
theorem plans_canonical_sample :
    letI := Platform.plain
    ∃ units, expand (· ++ ·) planningDay samplePlan = .ok units ∧
      units.map (·.product) = ["lmp", "load", "lmp", "load"] ∧ (units.map (·.runId)).Nodup := by
  obtain ⟨units, planned, products⟩ := samplePlan_expands
  obtain ⟨canonical, _⟩ := @plans_canonical Platform.plain (· ++ ·) noCollisions_plain
    uuidInjective_append
  exact ⟨units, planned, products, (canonical planningDay samplePlan units planned).2.2.2⟩

end PowerMarket
