import PowerMarket.Decimals
import PowerMarket.Warehouse.Model

/-!
# Identities of observations

When the hash function has no collisions, the logical key of an observation is its grain and its
content hash is its grain with the values it measured (`identity_exact`). Where the observation
was retrieved from plays no part, and keys, content hashes and content ids are never mixed up.
-/

set_option autoImplicit false

namespace PowerMarket

open Library

namespace Observation

/-- The hub of a price. -/
def hub : Observation → Option Hub
  | lmp record => some record.location
  | load _ => none

/-- The numbers that were measured. -/
def measured (record : Observation) : List ℚ := (decimalsOf record).map Decimal.value

/-- The same observation, retrieved in another way. -/
def retrieved (record : Observation) (provenance : Provenance) : Observation :=
  match record with
  | lmp record => lmp { record with provenance := provenance }
  | load record => load { record with provenance := provenance }

/-- Two observations of one product, start of an interval and, for prices, hub. -/
structure SameGrain (a b : Observation) : Prop where
  product : a.product = b.product
  start : a.intervalStartUtc = b.intervalStartUtc
  hub : a.hub = b.hub

theorem interval_eq {seconds : Nat} {a b : Interval seconds} (same : a.start = b.start) :
    a = b := by
  obtain ⟨start, stop, length, aligned⟩ := a
  obtain ⟨start', stop', length', aligned'⟩ := b
  obtain rfl : start = start' := same
  obtain rfl : stop = stop' := UtcTime.micros_injective (length.trans length'.symm)
  rfl

/-- **Observations of one grain** have the same identity. -/
theorem SameGrain.identityFields {a b : Observation} (same : SameGrain a b) :
    a.identityFields = b.identityFields := by
  obtain ⟨product, start, hub⟩ := same
  cases a with
  | lmp a =>
      cases b with
      | lmp b =>
          have intervals : a.interval = b.interval := interval_eq start
          have hubs : a.location = b.location := Option.some.inj hub
          simp only [Observation.identityFields, intervals, hubs]
      | load b => cases hub
  | load a =>
      cases b with
      | lmp b => cases hub
      | load b =>
          have intervals : a.interval = b.interval := interval_eq start
          simp only [Observation.identityFields, intervals]

theorem contentFields_distinct (record : Observation) :
    ("schema" :: record.contentFields.map Prod.fst).Nodup := by
  cases record <;> simp [contentFields, identityFields]

theorem identityFields_subset (record : Observation) :
    record.identityFields ⊆ record.contentFields := by
  cases record <;> exact List.subset_append_left _ _

end Observation

theorem Hub.text_injective : Function.Injective Hub.text := by
  intro a b same
  cases a <;> cases b <;> first | rfl | exact absurd same (by decide)

/-- Digests under different schemas are different. -/
theorem digest_separated [Platform] (noCollisions : NoCollisions) {schema schema' : String}
    {fields fields' : List (String × String)}
    (distinct : ("schema" :: fields.map Prod.fst).Nodup)
    (distinct' : ("schema" :: fields'.map Prod.fst).Nodup) (different : schema ≠ schema') :
    digest schema fields ≠ digest schema' fields' := by
  intro same
  have entries := digest_perm noCollisions distinct distinct' same
  exact different (value_eq_of_perm "schema" entries distinct' List.mem_cons_self
    List.mem_cons_self)

namespace Observation

/-- Equal maps that contain the identity fields belong to one grain. -/
theorem sameGrain_of_perm {a b : Observation} {entries entries' : List (String × String)}
    (perm : entries.Perm entries') (distinct : (entries'.map Prod.fst).Nodup)
    (first : a.identityFields ⊆ entries) (second : b.identityFields ⊆ entries') :
    SameGrain a b := by
  have field : ∀ key {value value'}, (key, value) ∈ a.identityFields →
      (key, value') ∈ b.identityFields → value = value' := fun key _ _ member member' =>
    value_eq_of_perm key perm distinct (first member) (second member')
  have products : a.product = b.product :=
    field "product" (by cases a <;> simp [identityFields, product])
      (by cases b <;> simp [identityFields, product])
  have starts : utcText a.intervalStartUtc = utcText b.intervalStartUtc :=
    field "interval_start_utc" (by cases a <;> simp [identityFields, intervalStartUtc])
      (by cases b <;> simp [identityFields, intervalStartUtc])
  refine ⟨products, utcText_injective starts, ?_⟩
  cases a with
  | lmp a =>
      cases b with
      | lmp b =>
          have hubs : a.location = b.location := Hub.text_injective
            (field "location" (by simp [identityFields]) (by simp [identityFields]))
          exact congrArg some hubs
      | load b => exact absurd products (by simp [product])
  | load a =>
      cases b with
      | lmp b => exact absurd products (by simp [product])
      | load b => rfl

theorem SameGrain.contentFields {a b : Observation} (same : SameGrain a b)
    (values : a.measured = b.measured) : a.contentFields = b.contentFields := by
  have identities := same.identityFields
  have hubs := same.hub
  cases a with
  | lmp a =>
      cases b with
      | lmp b =>
          simp only [measured, decimalsOf, List.map_cons, List.map_nil, List.cons.injEq,
            and_true] at values
          obtain ⟨prices, energies, congestions, losses⟩ := values
          simp only [Observation.contentFields, identities, decimalText_eq_iff.mpr prices,
            decimalText_eq_iff.mpr energies, decimalText_eq_iff.mpr congestions,
            decimalText_eq_iff.mpr losses]
      | load b => cases hubs
  | load a =>
      cases b with
      | lmp b => cases hubs
      | load b =>
          simp only [measured, decimalsOf, List.map_cons, List.map_nil, List.cons.injEq,
            and_true] at values
          simp only [Observation.contentFields, identities, decimalText_eq_iff.mpr values]

theorem measured_of_perm {a b : Observation} (same : SameGrain a b)
    (perm : (("schema", contentSchema) :: a.contentFields).Perm
      (("schema", contentSchema) :: b.contentFields)) : a.measured = b.measured := by
  have hubs := same.hub
  have field : ∀ key {value value'}, (key, decimalText value) ∈ a.contentFields →
      (key, decimalText value') ∈ b.contentFields → value.value = value'.value :=
    fun key _ _ member member' => decimalText_eq_iff.mp
      (value_eq_of_perm key perm b.contentFields_distinct (List.mem_cons_of_mem _ member)
        (List.mem_cons_of_mem _ member'))
  cases a with
  | lmp a =>
      cases b with
      | lmp b =>
          simp only [measured, decimalsOf, List.map_cons, List.map_nil, List.cons.injEq, and_true]
          exact ⟨field "lmp" (by simp [contentFields]) (by simp [contentFields]),
            field "energy" (by simp [contentFields]) (by simp [contentFields]),
            field "congestion" (by simp [contentFields]) (by simp [contentFields]),
            field "loss" (by simp [contentFields]) (by simp [contentFields])⟩
      | load b => cases hubs
  | load a =>
      cases b with
      | lmp b => cases hubs
      | load b =>
          simp only [measured, decimalsOf, List.map_cons, List.map_nil, List.cons.injEq, and_true]
          exact field "load" (by simp [contentFields]) (by simp [contentFields])

end Observation

section Digests

variable [Platform]

/-- **The logical key is the grain.** -/
theorem logicalKey_eq_iff (noCollisions : NoCollisions) {a b : Observation} :
    a.logicalKey = b.logicalKey ↔ a.SameGrain b := by
  constructor
  · intro same
    exact Observation.sameGrain_of_perm
      (digest_perm noCollisions a.identityFields_distinct b.identityFields_distinct same)
      b.identityFields_distinct (List.subset_cons_self _ _) (List.subset_cons_self _ _)
  · intro same
    rw [Observation.logicalKey, same.identityFields, Observation.logicalKey]

/-- **The content hash is the grain with the values.** -/
theorem contentHash_eq_iff (noCollisions : NoCollisions) {a b : Observation} :
    a.contentHash = b.contentHash ↔
      a.logicalKey = b.logicalKey ∧ a.measured = b.measured := by
  rw [logicalKey_eq_iff noCollisions]
  constructor
  · intro same
    have perm := digest_perm noCollisions a.contentFields_distinct b.contentFields_distinct same
    have grain := Observation.sameGrain_of_perm perm b.contentFields_distinct
      (List.Subset.trans a.identityFields_subset (List.subset_cons_self _ _))
      (List.Subset.trans b.identityFields_subset (List.subset_cons_self _ _))
    exact ⟨grain, Observation.measured_of_perm grain perm⟩
  · rintro ⟨grain, values⟩
    rw [Observation.contentHash, grain.contentFields values, Observation.contentHash]

/-- **Identity is exactly the documented grain and content.** -/
theorem identity_exact (noCollisions : NoCollisions) (a b : Observation) :
    (a.logicalKey = b.logicalKey ↔ a.SameGrain b) ∧
    (a.contentHash = b.contentHash ↔
      a.logicalKey = b.logicalKey ∧ a.measured = b.measured) ∧
    (∀ provenance, (a.retrieved provenance).logicalKey = a.logicalKey ∧
      (a.retrieved provenance).contentHash = a.contentHash) ∧
    a.logicalKey ≠ b.contentHash ∧ a.logicalKey ≠ contentId b ∧ a.contentHash ≠ contentId b := by
  have contentIdFields : ∀ key hash : String, ("schema" :: [("logical_key", key),
      ("content_hash", hash), ("logical_key_schema", keySchema),
      ("content_hash_schema", contentSchema)].map Prod.fst).Nodup := by simp
  refine ⟨logicalKey_eq_iff noCollisions, contentHash_eq_iff noCollisions, fun provenance => ?_,
    ?_, ?_, ?_⟩
  · cases a <;> exact ⟨rfl, rfl⟩
  · exact digest_separated noCollisions a.identityFields_distinct b.contentFields_distinct
      (by decide)
  · exact digest_separated noCollisions a.identityFields_distinct (contentIdFields _ _) (by decide)
  · exact digest_separated noCollisions a.contentFields_distinct (contentIdFields _ _) (by decide)

end Digests

/-- A revision of a load has its key and another hash, and the next load has another key. -/
theorem identity_exact_sample :
    letI := Platform.plain
    sampleObservation.logicalKey = sampleRevision.logicalKey ∧
      sampleObservation.contentHash ≠ sampleRevision.contentHash ∧
      sampleObservation.logicalKey ≠ sampleSuccessor.logicalKey := by
  let _ := Platform.plain
  obtain ⟨revised, hashes, _⟩ := identity_exact noCollisions_plain sampleObservation sampleRevision
  obtain ⟨next, _⟩ := identity_exact noCollisions_plain sampleObservation sampleSuccessor
  refine ⟨revised.mpr ⟨rfl, rfl, rfl⟩, fun same => ?_, fun same => ?_⟩
  · exact absurd (hashes.mp same).2 (by decide +kernel)
  · exact absurd (next.mp same).start (by decide)

example : decimalText ⟨false, 120, -1⟩ = decimalText ⟨false, 12, 0⟩ ∧
    decimalText ⟨true, 0, -1⟩ = decimalText ⟨false, 0, 0⟩ := by decide

end PowerMarket
