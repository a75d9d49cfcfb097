import PowerMarket.Analytics.Eligible
import PowerMarket.Library.KeyedStore
import PowerMarket.Replays
import PowerMarket.Warehouse.States

/-!
# The stores that facts show

A fact table shows a plain store: of each key the content hash of its row. The runs that have
succeeded are those with numbers up to a bound (`Sound.settled`), and the current facts show the
states of the keys as of that bound (`CurrentFacts.shown_eq`). Over a serial execution they show the
batches of the runs, put into a store one after another (`CurrentFacts.shown_ledger`).
-/

set_option autoImplicit false

namespace PowerMarket

open Library

/-! ## The eligible numbers -/

/-- The runs that have succeeded are the committed ones with numbers up to a bound. -/
structure SettledUpTo (db : Database) (n : Nat) : Prop where
  succeeded : ∀ row ∈ db.runs, row.status.hasCommitted = true → ∀ number,
    row.commitSequence = some number → (row.status = .succeeded ↔ number ≤ n)

section Shown

variable [Platform] {c : ControlRow} {db : Database} {product : Product} {n : Nat}

theorem Sound.number_le (sound : Sound c db) {row : RunRow} (member : row ∈ db.runs)
    (committed : row.status.hasCommitted = true) {number : Nat}
    (numbered : row.commitSequence = some number) : number ≤ c.sequence := by
  obtain ⟨m, below, numbered'⟩ := sound.numbered row member committed
  obtain rfl := Option.some.inj (numbered.symm.trans numbered')
  exact below

theorem Sound.settled_of_free (sound : Sound c db) (free : c.activeRunId = none) :
    SettledUpTo db c.sequence where
  succeeded row member committed number numbered := by
    refine ⟨fun _ => sound.number_le member committed numbered, fun _ => ?_⟩
    refine (Status.hasCommitted_iff.mp committed).resolve_left fun isCommitted => ?_
    rw [(sound.gate row member).mp isCommitted] at free
    cases free

/-- **All committed runs have succeeded, up to the one that holds the gate.** -/
theorem Sound.settled (sound : Sound c db) : ∃ n ≤ c.sequence, SettledUpTo db n := by
  cases held : c.activeRunId with
  | none => exact ⟨c.sequence, le_rfl, sound.settled_of_free held⟩
  | some runId =>
      obtain ⟨holder, at_holder, rfl⟩ := sound.holder runId held
      have isCommitted := (sound.gate holder at_holder).mpr held
      have newest := sound.newest holder at_holder isCommitted
      refine ⟨c.sequence - 1, Nat.sub_le _ _, ⟨fun row member committed number numbered => ?_⟩⟩
      have bounded := sound.number_le member committed numbered
      obtain ⟨m, _, numbered'⟩ := sound.numbered row member committed
      obtain rfl := Option.some.inj (numbered.symm.trans numbered')
      constructor
      · intro succeeded
        by_contra beyond
        have last : m + 1 = c.sequence := by omega
        have same := sound.distinct row member holder at_holder committed
          (by rw [isCommitted]; rfl) (by rw [numbered, newest, last])
        rw [same, isCommitted] at succeeded
        cases succeeded
      · intro small
        refine (Status.hasCommitted_iff.mp committed).resolve_left fun unsettled => ?_
        have last := sound.newest row member unsettled
        rw [numbered, Option.some.injEq] at last
        omega

theorem SettledUpTo.eligible_iff (settled : SettledUpTo db n) (sound : Sound c db)
    {transition : TransitionRow} (member : transition ∈ db.transitions product) :
    EligibleRun db transition.runId ↔ transition.commitSequence ≤ n := by
  obtain ⟨owner, wrote, ofRun, number, _⟩ := sound.transitions product transition member
  rw [← settled.succeeded owner wrote.member wrote.committed _ number]
  constructor
  · rintro ⟨run, at_run, ofRun', succeeded⟩
    rwa [run_unique sound.unique wrote.member at_run (ofRun.trans ofRun'.symm)]
  · intro succeeded
    exact ⟨owner, wrote.member, ofRun, succeeded⟩

/-- **The current facts show the states as of the bound.** -/
theorem CurrentFacts.shown_eq (noCollisions : NoCollisions) (good : Good db) (sound : Sound c db)
    (settled : SettledUpTo db n) {table : List HistoryRow} (facts : CurrentFacts product db table)
    (key : String) : shown (·.logicalKey) (·.contentHash) table key =
      (stateAt product key n db).map (·.contentHash) := by
  cases state : stateAt product key n db with
  | none =>
      refine shown_eq_none.mpr fun row member sameKey => ?_
      obtain ⟨transition, content, occurs, rfl, ofKey, _⟩ := facts.rows row member
      have upTo : transition ∈ transitionsUpTo product key n db :=
        mem_transitionsUpTo.mpr ⟨occurs.inTransitions, ofKey.symm.trans sameKey,
          (settled.eligible_iff sound occurs.inTransitions).mp occurs.run⟩
      rw [List.argmax_eq_none.mp state] at upTo
      cases upTo
  | some latest =>
      obtain ⟨upTo, greatest⟩ := stateAt_spec state
      obtain ⟨inTable, ofKey, small⟩ := mem_transitionsUpTo.mp upTo
      have succeeded := (settled.eligible_iff sound inTable).mpr small
      obtain ⟨row, member, sameKey⟩ := facts.complete latest inTable succeeded
      refine (shown_eq_some facts.keys).mpr ⟨row, member, sameKey.trans ofKey, ?_⟩
      obtain ⟨transition, content, occurs, rfl, ofTransition, least⟩ := facts.rows row member
      have keys : transition.logicalKey = latest.logicalKey := ofTransition.symm.trans sameKey
      have above := greatest transition (mem_transitionsUpTo.mpr ⟨occurs.inTransitions,
        keys.trans ofKey, (settled.eligible_iff sound occurs.inTransitions).mp occurs.run⟩)
      have ordinals := le_antisymm above (least latest inTable keys.symm succeeded)
      obtain rfl := good.ordinal_inj noCollisions occurs.inTransitions inTable keys ordinals
      exact (occurs.same noCollisions good).2

end Shown

/-! ## The batches -/

variable [Platform]

/-- What a run puts into the store of a product: the content hashes of its records by their keys. -/
def Entry.puts (product : Product) (entry : Entry) : List (String × String) :=
  if entry.request.product = product then
    entry.records.map fun record => (record.logicalKey, record.contentHash)
  else []

/-- The store after runs one after another. -/
def storeAfter (product : Product) (entries : List Entry) : KeyedStore String String :=
  entries.foldl (fun store entry => putAll store (entry.puts product)) fun _ => none

theorem Entry.valueOf_puts (product : Product) (key : String) (entry : Entry) :
    valueOf (entry.puts product) key = (entry.observes product key).map Prod.snd := by
  unfold Entry.puts Entry.observes
  split_ifs with ofProduct
  · rw [valueOf, List.find?_map, Option.map_map, Option.map_map]
    rfl
  · rfl

theorem Entry.puts_keys {entry : Entry} {batch : List BatchRow}
    (batched : batchRows entry.request entry.records = .ok batch) (product : Product) :
    ((entry.puts product).map Prod.fst).Nodup := by
  have spec := batchRows_spec batched
  have keys := (spec.perm.map (·.logicalKey)).nodup_iff.mp spec.distinct
  unfold Entry.puts
  split_ifs with ofProduct
  · rw [List.map_map] at keys ⊢
    exact keys
  · exact List.nodup_nil

/-- **The store after runs** holds of each key what was observed last. -/
theorem storeAfter_eq {entries : List Entry} {product : Product}
    (keys : ∀ entry ∈ entries, ((entry.puts product).map Prod.fst).Nodup) (key : String) :
    storeAfter product entries key = (observations product key entries).getLast?.map Prod.snd := by
  rw [storeAfter, foldl_putAll keys, observations, ← List.getLast?_map, List.map_filterMap]
  simp only [Entry.valueOf_puts]

/-! ## The ledger shows the facts -/

omit [Platform] in
theorem stateAt_ledger (product : Product) (key : String) (n : Nat) (db : Database) :
    (stateAt product key n db.ledger.tables).map (·.contentHash) =
      (stateAt product key n db).map (·.contentHash) := by
  have rows : transitionsUpTo product key n db.ledger.tables =
      (transitionsUpTo product key n db).map (·.setClock none) := by
    have table : db.ledger.tables.transitions product =
        (db.transitions product).map (·.setClock none) := rfl
    rw [transitionsUpTo, keyTransitions, table, List.filter_map, List.filter_map]
    rfl
  rw [stateAt, rows, argmax_map, Option.map_map]
  rfl

section Ledger

variable {c : ControlRow} {db serial : Database} {product : Product}

theorem acceptAll_puts_keys {entries : List Entry}
    (accepted : acceptAll entries Database.seeded = .ok serial) (product : Product) :
    ∀ entry ∈ entries, ((entry.puts product).map Prod.fst).Nodup := by
  intro entry member
  obtain ⟨c, isSerial⟩ := acceptAll_serial accepted
  obtain ⟨_, _, documented⟩ := acceptAll_documents accepted isSerial
  obtain ⟨i, at_i⟩ := List.mem_iff_getElem?.mp member
  obtain ⟨_, _, documents⟩ := documented i entry at_i
  obtain ⟨batch, batched, _⟩ := documents.batch
  exact entry.puts_keys batched product

/-- **The facts are those of a serial execution with the same ledger**, up to the runs that have
succeeded. -/
theorem CurrentFacts.shown_settled (noCollisions : NoCollisions) (good : Good db)
    (sound : Sound c db) {n : Nat} (settled : SettledUpTo db n) (within : n ≤ c.sequence)
    {table : List HistoryRow} (facts : CurrentFacts product db table) {entries : List Entry}
    (accepted : acceptAll entries Database.seeded = .ok serial) (same : serial.ledger = db.ledger) :
    shown (·.logicalKey) (·.contentHash) table = storeAfter product (entries.take n) := by
  funext key
  obtain ⟨c', isSerial⟩ := acceptAll_serial accepted
  obtain ⟨length, _⟩ := acceptAll_documents accepted isSerial
  have sequence : c.sequence = entries.length := by
    rw [← length, ← sound.seeded.sequence, ← isSerial.sound.seeded.sequence]
    exact (congrArg Ledger.sequence same).symm
  rw [facts.shown_eq noCollisions good sound settled, ← stateAt_ledger, ← same, stateAt_ledger,
    acceptAll_state noCollisions accepted product key (within.trans_eq sequence),
    storeAfter_eq fun entry member =>
      acceptAll_puts_keys accepted product entry (List.mem_of_mem_take member)]

/-- While the gate is free these are all runs of the serial execution. -/
theorem CurrentFacts.shown_ledger (noCollisions : NoCollisions) (good : Good db)
    (sound : Sound c db) (free : c.activeRunId = none) {table : List HistoryRow}
    (facts : CurrentFacts product db table) {entries : List Entry}
    (accepted : acceptAll entries Database.seeded = .ok serial) (same : serial.ledger = db.ledger) :
    shown (·.logicalKey) (·.contentHash) table = storeAfter product entries := by
  obtain ⟨c', isSerial⟩ := acceptAll_serial accepted
  obtain ⟨length, _⟩ := acceptAll_documents accepted isSerial
  have sequence : entries.length = c.sequence := by
    rw [← length, ← sound.seeded.sequence, ← isSerial.sound.seeded.sequence]
    exact congrArg Ledger.sequence same
  rw [facts.shown_settled noCollisions good sound (sound.settled_of_free free) le_rfl accepted same,
    ← sequence, List.take_length]

omit [Platform] in
theorem Mirrors.ledger (mirrors : Mirrors serial db) : serial.ledger = db.ledger := by
  have sequence : serial.sequence = db.sequence := by
    simp only [Database.sequence, mirrors.control]
  simp only [Database.ledger, sequence, mirrors.contents, mirrors.transitions]

/-- What the facts show after runs that were executed one after another. -/
theorem Replays.shows (noCollisions : NoCollisions) {s : WarehouseSystem}
    (replays : Replays serial s) {table : List HistoryRow}
    (facts : CurrentFacts product s.world.store table) {entries : List Entry}
    (accepted : acceptAll entries Database.seeded = .ok serial) :
    shown (·.logicalKey) (·.contentHash) table = storeAfter product entries := by
  obtain ⟨c, sound⟩ := replays.sound
  exact facts.shown_ledger noCollisions replays.reachable.orderly.good sound
    (sound.seeded.gate.symm.trans replays.free) accepted replays.ledger.symm

end Ledger

/-! ## A load that is revised -/

/-- Rows that show this hash for the sample load. -/
def ShowsLoad (hash : String) (rows : List HistoryRow) : Prop :=
  shown (·.logicalKey) (·.contentHash) rows sampleObservation.logicalKey = some hash

theorem ShowsLoad.unique {hash hash' : String} {rows : List HistoryRow}
    (shows : ShowsLoad hash rows) (shows' : ShowsLoad hash' rows) : hash = hash' :=
  Option.some.inj (shows.symm.trans shows')

/-- The stores before and after the revision. -/
theorem storeAfter_revision (noCollisions : NoCollisions) :
    storeAfter .load (sampleHistory.take 2) sampleObservation.logicalKey =
      some sampleObservation.contentHash ∧
    storeAfter .load (sampleHistory.take 3) sampleObservation.logicalKey =
      some sampleRevision.contentHash := by
  have other := (sampleSuccessor_key noCollisions).symm
  have same : sampleRevision.logicalKey = sampleObservation.logicalKey := rfl
  simp [storeAfter, putAll, sampleHistory, sampleEntry, entryOf, Entry.own, Entry.puts,
    sampleRequest, other, same]

omit [Platform] in
/-- A load is revised in the system. -/
theorem exists_revision :
    letI := Platform.plain
    ∃ before after : WarehouseSystem, Reachable before ∧ SystemRun before after ∧
      (∀ table, CurrentFacts .load before.world.store table →
        ShowsLoad sampleObservation.contentHash table) ∧
      ∀ table, CurrentFacts .load after.world.store table →
        ShowsLoad sampleRevision.contentHash table := by
  let _ := Platform.plain
  obtain ⟨_, _, before, after, accepted, accepted', replays, replays', run⟩ :=
    sampleHistory_replays (m := 2) (n := 3) (by omega)
  obtain ⟨first, second⟩ := storeAfter_revision noCollisions_plain
  refine ⟨before, after, replays.reachable, run, fun table facts => ?_, fun table facts => ?_⟩
  · rw [ShowsLoad, replays.shows noCollisions_plain facts accepted, first]
  · rw [ShowsLoad, replays'.shows noCollisions_plain facts accepted', second]

end PowerMarket
