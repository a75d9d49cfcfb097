import PowerMarket.Errors
import PowerMarket.Library.JsonText
import PowerMarket.Library.Zones
import Mathlib.Data.List.DropRight

/-!
# Canonical encodings and digests

Identities are digests of maps from field names to texts. The hash function, the zone data of
the platform and the versions of the installed packages come from outside the program and are
collected in `Platform`. `digest_lookup` says what a digest determines when the hash function
has no collisions: the text of every field.
-/

set_option autoImplicit false

namespace PowerMarket

open Library

/-- The microseconds of a day. -/
def dayMicros : Nat := 86400000000

/-- The warehouse that a process is configured for. -/
structure WarehouseConfig where
  project : String
  dataset : String
  location : String

/-- What the program takes from its platform: the hexadecimal SHA-256 digest of a text and its lower
case, the Pacific zone, the versions of the package and of the source library, and from its
environment the configured warehouse and the code revision. -/
class Platform where
  sha256 : String → String
  lower : String → String
  pacific : Zone
  midnights : pacific.MidnightsIncrease dayMicros
  packageVersion : String
  libraryVersion : String
  config : WarehouseConfig
  codeRevision : Option String

/-- The assumption that two different texts have different digests. -/
def NoCollisions [Platform] : Prop := Function.Injective Platform.sha256

/-- A platform on which every text is its own digest, only the letters of ASCII have a lower case and
the zone keeps its offset. -/
@[reducible] def Platform.plain : Platform where
  sha256 := id
  lower := fun text => String.ofList (text.toList.map Char.toLower)
  pacific := ⟨-28800000000, []⟩
  midnights := Zone.midnightsIncrease_of_constant _ (by decide)
  packageVersion := "0.1.0"
  libraryVersion := "0.30.0"
  config := ⟨"project", "dataset", "US"⟩
  codeRevision := none

theorem noCollisions_plain : @NoCollisions Platform.plain := Function.injective_id

/-! ## Decimals -/

/-- A finite decimal: a sign, a coefficient and a power of ten. -/
structure Decimal where
  negative : Bool
  coefficient : Nat
  exponent : Int
  deriving DecidableEq

/-- The fixed-point digits of the absolute value, with as many fraction digits as a negative
exponent asks for. -/
def fixedDigits (value : Decimal) : List Char :=
  let digits := Nat.toDigits 10 value.coefficient
  match value.exponent with
  | .ofNat zeros => digits ++ List.replicate zeros '0'
  | .negSucc fewer =>
    let places := fewer + 1
    let filled := List.replicate (places + 1 - digits.length) '0' ++ digits
    filled.take (filled.length - places) ++ '.' :: filled.drop (filled.length - places)

/-- The characters of the exact fixed-point encoding, without trailing zeros of a fraction. -/
def decimalChars (value : Decimal) : List Char :=
  if value.coefficient = 0 then ['0'] else
    let sign := if value.negative then ['-'] else []
    let text := sign ++ fixedDigits value
    if '.' ∈ text then (text.rdropWhile (· == '0')).rdropWhile (· == '.') else text

/-- Exact fixed-point encoding. -/
def decimalText (value : Decimal) : String := String.ofList (decimalChars value)

/-! ## Maps and digests -/

/-- Set a key of a map that keeps its insertion order. -/
def dictSet (entries : List (String × String)) (key value : String) : List (String × String) :=
  if (entries.lookup key).isSome then
    entries.map fun entry => if entry.1 = key then (key, value) else entry
  else entries ++ [(key, value)]

/-- The hashed map: the namespace under its own key, then the fields. -/
def payload (schema : String) (fields : List (String × String)) : List (String × String) :=
  fields.foldl (fun entries field => dictSet entries field.1 field.2) [("schema", schema)]

/-- The digest of a namespace and a map. -/
def digest [Platform] (schema : String) (fields : List (String × String)) : String :=
  Platform.sha256 (JsonText.canonicalText (payload schema fields))

theorem dictSet_of_fresh {entries : List (String × String)} {key : String}
    (fresh : key ∉ entries.map Prod.fst) (value : String) :
    dictSet entries key value = entries ++ [(key, value)] := by
  have missing : entries.lookup key = none := by
    rw [List.lookup_eq_none_iff]
    intro entry member
    simp only [ne_eq, bne_iff_ne]
    rintro rfl
    exact fresh (List.mem_map_of_mem member)
  simp [dictSet, missing]

/-- Fields with keys of their own are added in their order. -/
theorem setFields_eq {fields entries : List (String × String)}
    (distinct : ((entries ++ fields).map Prod.fst).Nodup) :
    fields.foldl (fun entries field => dictSet entries field.1 field.2) entries =
      entries ++ fields := by
  induction fields generalizing entries with
  | nil => simp
  | cons field fields ih =>
      have fresh : field.1 ∉ entries.map Prod.fst := by
        rw [List.map_append, List.nodup_append] at distinct
        intro member
        exact distinct.2.2 _ member _ (by simp) rfl
      rw [List.foldl_cons, dictSet_of_fresh fresh, ih (by simpa using distinct)]
      simp

/-- Fields with distinct keys, none of them the key of the namespace, are hashed as given. -/
theorem payload_eq (schema : String) {fields : List (String × String)}
    (distinct : ("schema" :: fields.map Prod.fst).Nodup) :
    payload schema fields = ("schema", schema) :: fields :=
  setFields_eq distinct

/-- **What a digest determines.** Two maps with distinct keys and the same digest have the
same entries. -/
theorem digest_perm [Platform] (noCollisions : NoCollisions) {schema schema' : String}
    {fields fields' : List (String × String)}
    (distinct : ("schema" :: fields.map Prod.fst).Nodup)
    (distinct' : ("schema" :: fields'.map Prod.fst).Nodup)
    (same : digest schema fields = digest schema' fields') :
    (("schema", schema) :: fields).Perm (("schema", schema') :: fields') := by
  rw [← payload_eq schema distinct, ← payload_eq schema' distinct']
  exact JsonText.canonicalText_perm (noCollisions same)

theorem value_eq_of_perm (key : String) {entries entries' : List (String × String)}
    {value value' : String} (same : entries.Perm entries') (distinct : (entries'.map Prod.fst).Nodup)
    (first : (key, value) ∈ entries) (second : (key, value') ∈ entries') : value = value' := by
  have member := same.mem_iff.mp first
  exact (Prod.mk.inj (List.inj_on_of_nodup_map distinct member second rfl)).2

end PowerMarket
