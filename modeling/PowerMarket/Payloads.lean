import PowerMarket.Identities
import PowerMarket.Warehouse.BigQuery
import PowerMarket.Warehouse.Permutations

/-!
# Hashed texts

Every identity of the program is the digest of a text: the canonical text of a map whose namespace
stands among the fields under a key of its own. That text determines the namespace and the map
(`encoded_eq_iff`), in whatever order the fields were set, so that two identities are hashed as one
text only when they are of one kind and have the same fields (`encoded_exact`).
-/

set_option autoImplicit false

namespace PowerMarket

open Library

/-! ## Maps -/

section Maps

variable {entries entries' fields fields' : List (String × String)}

theorem lookup_eq_some_iff_mem (distinct : (entries.map Prod.fst).Nodup) {key value : String} :
    entries.lookup key = some value ↔ (key, value) ∈ entries := by
  constructor
  · exact JsonText.lookup_mem
  · intro member
    obtain ⟨found, present⟩ := Option.isSome_iff_exists.mp
      (lookup_isSome_iff.mpr (List.mem_map_of_mem member))
    have same := List.inj_on_of_nodup_map distinct (JsonText.lookup_mem present) member rfl
    rw [present, (Prod.mk.inj same).2]

/-- **Two maps are equal** when they have the same entries in some order. -/
theorem perm_iff_lookup (distinct : (entries.map Prod.fst).Nodup)
    (distinct' : (entries'.map Prod.fst).Nodup) :
    entries.Perm entries' ↔ ∀ key, entries.lookup key = entries'.lookup key := by
  constructor
  · intro perm key
    refine Option.ext fun value => ?_
    rw [lookup_eq_some_iff_mem distinct, lookup_eq_some_iff_mem distinct', perm.mem_iff]
  · intro same
    refine (List.perm_ext_iff_of_nodup (List.Nodup.of_map _ distinct)
      (List.Nodup.of_map _ distinct')).mpr fun entry => ?_
    rw [← lookup_eq_some_iff_mem distinct, ← lookup_eq_some_iff_mem distinct', same]

end Maps

/-! ## Texts -/

/-- The text that is hashed for a namespace and a map. -/
def encoded (schema : String) (fields : List (String × String)) : String :=
  JsonText.canonicalText (payload schema fields)

section Texts

variable {schema schema' : String} {fields fields' : List (String × String)}

/-- **The text determines the namespace and the map**, and depends on nothing else. -/
theorem encoded_eq_iff (distinct : ("schema" :: fields.map Prod.fst).Nodup)
    (distinct' : ("schema" :: fields'.map Prod.fst).Nodup) :
    encoded schema fields = encoded schema' fields' ↔
      schema = schema' ∧ ∀ key, fields.lookup key = fields'.lookup key := by
  rw [encoded, encoded, payload_eq schema distinct, payload_eq schema' distinct',
    ← perm_iff_lookup (List.nodup_cons.mp distinct).2 (List.nodup_cons.mp distinct').2]
  constructor
  · intro same
    have entries := JsonText.canonicalText_perm same
    obtain rfl : schema = schema' := value_eq_of_perm "schema" entries distinct'
      List.mem_cons_self List.mem_cons_self
    exact ⟨rfl, entries.cons_inv⟩
  · rintro ⟨rfl, perm⟩
    exact canonicalText_eq_of_perm (perm.cons _) distinct

end Texts

/-! ## Identities -/

/-- What the program has identities of. -/
inductive IdentityKind where
  | observationKey
  | observationContent
  | warehouseContent
  | transition
  | request
  | batch
  | job
  deriving DecidableEq

/-- The namespace of the identities of a kind. -/
def IdentityKind.schema : IdentityKind → String
  | observationKey => "observation-key/v1"
  | observationContent => "observation-content/v1"
  | warehouseContent => "warehouse-content/v1"
  | transition => "state-transition/v1"
  | request => "bounded-request/v1"
  | batch => "batch-content/v1"
  | job => "warehouse-job/v1"

theorem IdentityKind.schema_injective : Function.Injective IdentityKind.schema := by
  intro a b same
  cases a <;> cases b <;> first | rfl | exact absurd same (by decide)

section Identities

variable [Platform]

/-- What an identity is made from. A batch is one that passed the checks of a request. -/
inductive Identity where
  | observationKey (record : Observation)
  | observationContent (record : Observation)
  | warehouseContent (record : Observation)
  | transition (runId key : String)
  | request (requested : Request)
  | batch (request : Request) (records : List Observation) (rows : List BatchRow)
      (batched : batchRows request records = .ok rows)
  | job (config : WarehouseConfig)

namespace Identity

def kind : Identity → IdentityKind
  | observationKey _ => .observationKey
  | observationContent _ => .observationContent
  | warehouseContent _ => .warehouseContent
  | transition _ _ => .transition
  | request _ => .request
  | batch _ _ _ _ => .batch
  | job _ => .job

/-- The hashed fields of an identity. -/
def fields : Identity → List (String × String)
  | observationKey record => record.identityFields
  | observationContent record => record.contentFields
  | warehouseContent record =>
    [("logical_key", record.logicalKey), ("content_hash", record.contentHash),
      ("logical_key_schema", keySchema), ("content_hash_schema", contentSchema)]
  | transition runId key => [("run_id", runId), ("key", key)]
  | request requested =>
    [("source", "CAISO"), ("product", requested.product.text), ("date", requested.day.text),
      ("location", (requested.location.map Hub.text).getD "")]
  | batch _ _ rows _ =>
    rows.foldl (fun entries row => dictSet entries row.logicalKey row.contentHash) []
  | job config =>
    [("project", config.project), ("dataset", config.dataset), ("location", config.location)]

/-- The text that is hashed for an identity. -/
def encoded (identity : Identity) : String :=
  PowerMarket.encoded identity.kind.schema identity.fields

/-- The digest that the program takes for an identity. The first half of the prefix of a job is that
of a warehouse. -/
def hash : Identity → String
  | observationKey record => record.logicalKey
  | observationContent record => record.contentHash
  | warehouseContent record => contentId record
  | transition runId key => digest "state-transition/v1" [("run_id", runId), ("key", key)]
  | request requested => requested.requestId
  | batch _ _ rows _ => batchHash rows
  | job config => digest "warehouse-job/v1" [("project", config.project),
      ("dataset", config.dataset), ("location", config.location)]

/-- **What the program hashes** is the text of the identity. -/
theorem hash_eq (identity : Identity) : identity.hash = Platform.sha256 identity.encoded := by
  cases identity <;> rfl

omit [Platform] in
theorem batch_fields {rows : List BatchRow} (distinct : (rows.map (·.logicalKey)).Nodup) :
    rows.foldl (fun entries row => dictSet entries row.logicalKey row.contentHash) [] =
      rows.map fun row => (row.logicalKey, row.contentHash) := by
  have keys : (([] ++ rows.map fun row : BatchRow => (row.logicalKey, row.contentHash)).map
      Prod.fst).Nodup := by
    rw [List.nil_append, List.map_map]
    exact distinct
  calc rows.foldl (fun entries row => dictSet entries row.logicalKey row.contentHash) []
      = (rows.map fun row => (row.logicalKey, row.contentHash)).foldl
          (fun entries field => dictSet entries field.1 field.2) [] := by rw [List.foldl_map]
    _ = [] ++ rows.map fun row => (row.logicalKey, row.contentHash) := setFields_eq keys
    _ = rows.map fun row => (row.logicalKey, row.contentHash) := List.nil_append _

/-- **No identity uses the key of the namespace**, since a digest is longer than that. -/
theorem fields_distinct (digests : ∀ text, (Platform.sha256 text).length = 64)
    (identity : Identity) : ("schema" :: identity.fields.map Prod.fst).Nodup := by
  cases identity with
  | observationKey record => exact record.identityFields_distinct
  | observationContent record => exact record.contentFields_distinct
  | warehouseContent record => simp [fields]
  | transition runId key => simp [fields]
  | request requested => simp [fields]
  | batch request records rows batched =>
      have accepted := batchRows_spec batched
      rw [fields, batch_fields accepted.distinct, List.map_map]
      refine List.nodup_cons.mpr ⟨fun member => ?_, accepted.distinct⟩
      obtain ⟨row, inRows, same⟩ := List.mem_map.mp member
      obtain ⟨record, _, rfl⟩ := List.mem_map.mp (accepted.perm.mem_iff.mp inRows)
      have length : "schema".length = 64 := by
        rw [← same]
        exact digests _
      exact absurd length (by decide)
  | job config => simp [fields]

end Identity

/-- **The hashed text is exact.** It determines the namespace and the map, in whatever order the
fields were set. Each identity of the program is the digest of its text, and when digests have 64
characters two identities have one text only when they are of one kind and have the same fields. -/
theorem encoded_exact :
    (∀ (schema schema' : String) (fields fields' : List (String × String)),
      ("schema" :: fields.map Prod.fst).Nodup → ("schema" :: fields'.map Prod.fst).Nodup →
      (encoded schema fields = encoded schema' fields' ↔
        schema = schema' ∧ ∀ key, fields.lookup key = fields'.lookup key)) ∧
    (∀ identity : Identity, identity.hash = Platform.sha256 identity.encoded) ∧
    ((∀ text, (Platform.sha256 text).length = 64) → ∀ a b : Identity, a.encoded = b.encoded ↔
      a.kind = b.kind ∧ ∀ key, a.fields.lookup key = b.fields.lookup key) := by
  refine ⟨fun _ _ _ _ => encoded_eq_iff, Identity.hash_eq, fun digests a b => ?_⟩
  rw [Identity.encoded, Identity.encoded,
    encoded_eq_iff (a.fields_distinct digests) (b.fields_distinct digests),
    IdentityKind.schema_injective.eq_iff]

end Identities

/-- The digest of the text of the key of one observation. -/
def sampleDigest : String :=
  "c5d72471ae23d6c7f0c648158bd1c8329252a89ae28e2e7e9aff9b702bd0c9d4"

theorem sampleDigest_length : sampleDigest.length = 64 := by decide

/-- A platform on which every text has that digest. -/
@[reducible] def Platform.constant : Platform where
  sha256 := fun _ => sampleDigest
  lower := Platform.plain.lower
  pacific := Platform.plain.pacific
  midnights := Platform.plain.midnights
  packageVersion := "0.1.0"
  libraryVersion := "0.30.0"
  config := ⟨"project", "dataset", "US"⟩
  codeRevision := none

/-- A map and its reversal are hashed as one text, and the key of an observation and its content
as two. -/
theorem encoded_exact_sample :
    letI := Platform.constant
    encoded "observation-key/v1" [("source", "CAISO"), ("location", "TH_NP15_GEN-APND")] =
      encoded "observation-key/v1" [("location", "TH_NP15_GEN-APND"), ("source", "CAISO")] ∧
    (Identity.observationKey sampleObservation).encoded ≠
      (Identity.observationContent sampleObservation).encoded := by
  let _ := Platform.constant
  obtain ⟨maps, _, identities⟩ := @encoded_exact Platform.constant
  constructor
  · exact (maps _ _ _ _ (by decide) (by decide)).mpr
      ⟨rfl, (perm_iff_lookup (by decide) (by decide)).mp (List.Perm.swap _ _ [])⟩
  · intro same
    exact absurd ((identities (fun _ => sampleDigest_length) _ _).mp same).1 (by decide)

end PowerMarket
