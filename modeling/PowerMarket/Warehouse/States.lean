import PowerMarket.Warehouse.Appearances
import PowerMarket.Payloads

/-!
# States as of a commit

The state of a key as of a number is its transition with the greatest ordinal among those whose
numbers are at most that one (`stateAt`). In a serial execution it has the hash that was observed
last for the key up to that number (`acceptAll_state`): no later run rewrites what an earlier one
left.

So nothing that was accepted is lost. The table of the transitions alone still shows every batch as
of the number of its run, and the batch hash of the manifest can be computed again from it
(`batches_reconstructed`).
-/

set_option autoImplicit false

namespace PowerMarket

open Library

/-- The transitions of a key whose numbers are at most a number. -/
def transitionsUpTo (product : Product) (key : String) (n : Nat) (db : Database) :
    List TransitionRow :=
  (keyTransitions product key db).filter (·.commitSequence ≤ n)

/-- The state of a key as of a number. -/
def stateAt (product : Product) (key : String) (n : Nat) (db : Database) : Option TransitionRow :=
  (transitionsUpTo product key n db).argmax (·.ordinal)

/-- The hashes of the states of keys as of a number. -/
def statesAt (product : Product) (keys : List String) (n : Nat) (db : Database) :
    List (String × String) :=
  keys.filterMap fun key => (stateAt product key n db).map fun state => (key, state.contentHash)

theorem mem_transitionsUpTo {product : Product} {key : String} {n : Nat} {db : Database}
    {transition : TransitionRow} : transition ∈ transitionsUpTo product key n db ↔
      transition ∈ db.transitions product ∧ transition.logicalKey = key ∧
        transition.commitSequence ≤ n := by
  rw [transitionsUpTo, List.mem_filter, mem_keyTransitions, decide_eq_true_iff, and_assoc]

/-- The state is one of the transitions of the key, and none of them up to the number has a greater
ordinal. -/
theorem stateAt_spec {product : Product} {key : String} {n : Nat} {db : Database}
    {state : TransitionRow} (isState : stateAt product key n db = some state) :
    state ∈ transitionsUpTo product key n db ∧
      ∀ other ∈ transitionsUpTo product key n db, other.ordinal ≤ state.ordinal :=
  ⟨List.argmax_mem isState, fun _ member => List.le_of_mem_argmax member isState⟩

section History

variable [Platform]

omit [Platform] in
theorem KeyHistory.stateAt_eq {product : Product} {key : String}
    {observed : List (String × String)} {db : Database}
    (history : KeyHistory product key observed db) (n : Nat) :
    stateAt product key n db = (transitionsUpTo product key n db).getLast? :=
  argmax_of_increasing (history.revised.increasing.filter _)

section Commit

variable {entry : Entry} {c : ControlRow} {db : Database} {batch : List BatchRow}
  {current : Snapshot} {plan : WritePlan}

theorem Serial.number_le (serial : Serial c db) {product : Product} {transition : TransitionRow}
    (member : transition ∈ db.transitions product) : transition.commitSequence ≤ c.sequence := by
  obtain ⟨owner, wrote, _, number, _⟩ := serial.sound.transitions product transition member
  obtain ⟨m, below, numbered⟩ := serial.sound.numbered owner wrote.member wrote.committed
  have same : transition.commitSequence = m + 1 := Option.some.inj (number.symm.trans numbered)
  omega

omit [Platform] in
theorem transitionsUpTo_of_clocks {product : Product} {after : Database}
    (clocks : SameButClocks product db after) (key : String) (n : Nat) :
    (transitionsUpTo product key n after).map (·.contentHash) =
      (transitionsUpTo product key n db).map (·.contentHash) := by
  obtain ⟨clock, transitions⟩ := clocks.transitions
  rw [transitionsUpTo, keyTransitions, transitions, List.filter_map, List.filter_map, List.map_map]
  rfl

/-- **A later run does not rewrite the past.** -/
theorem Commits.transitionsUpTo (noCollisions : NoCollisions) (serial : Serial c db)
    (commits : Commits entry c db batch current plan)
    (catalogue : Catalogue entry.request.product db) (product : Product) (key : String) {n : Nat}
    (past : n ≤ c.sequence) :
    (transitionsUpTo product key n (afterRun entry plan c db)).map (·.contentHash) =
      (PowerMarket.transitionsUpTo product key n db).map (·.contentHash) := by
  rw [transitionsUpTo_of_clocks (afterRun_sameButClocks product entry plan c db)]
  by_cases same : product = entry.request.product
  · subst same
    have later : ((batch.filter (·.logicalKey = key)).filterMap
        (newTransition entry.runId current)).filter (·.commitSequence ≤ n) = [] := by
      rw [List.filter_eq_nil_iff]
      intro transition member small
      obtain ⟨row, _, isNew⟩ := List.mem_filterMap.mp member
      obtain ⟨_, _, rfl⟩ := newTransition_eq_some.mp isNew
      have number : current.sequence + 1 ≤ n := of_decide_eq_true small
      rw [commits.current_eq serial] at number
      exact absurd number (by show ¬ c.sequence + 1 ≤ n; omega)
    rw [PowerMarket.transitionsUpTo, commits.transitions_of_key noCollisions serial catalogue,
      List.filter_append, later, List.append_nil]
    rfl
  · exact transitionsUpTo_of_clocks (afterCommit_other same) key n

end Commit

/-- **The run lemma.** The state of a key as of a number has the hash that was observed last for the
key by the runs up to that number. -/
theorem acceptAll_state (noCollisions : NoCollisions) {entries : List Entry} {db : Database}
    (accepted : acceptAll entries Database.seeded = .ok db) (product : Product) (key : String)
    {n : Nat} (within : n ≤ entries.length) :
    (stateAt product key n db).map (·.contentHash) =
      (observations product key (entries.take n)).getLast?.map Prod.snd := by
  rw [((acceptAll_history noCollisions accepted product).history key).stateAt_eq,
    ← List.getLast?_map]
  induction entries using List.reverseRecOn generalizing db with
  | nil =>
      cases accepted
      rw [List.take_nil]
      rfl
  | append_singleton entries entry ih =>
      obtain ⟨before, earlier, last⟩ := acceptAll_snoc.mp accepted
      obtain ⟨c, serial⟩ := acceptAll_serial earlier
      obtain ⟨batch, current, plan, commits, rfl⟩ := (acceptRun_iff serial).mp last
      obtain ⟨sequence, _, _⟩ := acceptAll_documents earlier serial
      rcases Nat.lt_or_ge entries.length n with beyond | past
      · -- All transitions count, and the last of them shows the last observation.
        have whole : n = (entries ++ [entry]).length := by
          rw [List.length_append, List.length_singleton] at within ⊢
          omega
        obtain ⟨c', serial'⟩ := acceptAll_serial accepted
        obtain ⟨sequence', _, _⟩ := acceptAll_documents accepted serial'
        have all : transitionsUpTo product key n (afterRun entry plan c before) =
            keyTransitions product key (afterRun entry plan c before) := by
          refine List.filter_eq_self.mpr fun transition member => decide_eq_true ?_
          exact (serial'.number_le (mem_keyTransitions.mp member).1).trans
            (by rw [sequence', ← whole])
        have history := (acceptAll_history noCollisions accepted product).history key
        rw [all, whole, List.take_length, ← List.getLast?_map, ← history.revised.last_value,
          List.getLast?_map]
      · rw [List.take_append_of_le_length past, ← ih earlier past,
          commits.transitionsUpTo noCollisions serial
            (acceptAll_history noCollisions earlier entry.request.product).catalogue product key
            (by rw [sequence]; exact past)]

/-! ## Batches -/

theorem Entry.observes_of_mem {entry : Entry} {batch : List BatchRow}
    (batched : batchRows entry.request entry.records = .ok batch) {accepted : BatchRow}
    (member : accepted ∈ batch) :
    entry.observes entry.request.product accepted.logicalKey =
      some (entry.runId, accepted.contentHash) := by
  have spec := batchRows_spec batched
  obtain ⟨record, at_record, rfl⟩ := List.mem_map.mp (spec.perm.mem_iff.mp member)
  have distinct : (entry.records.map Observation.logicalKey).Nodup := by
    have keys := (spec.perm.map (·.logicalKey)).nodup_iff.mp spec.distinct
    rwa [List.map_map] at keys
  have found : record ∈ (entry.records.find? (·.logicalKey = record.logicalKey)).toList := by
    rw [← filter_eq_find? distinct]
    exact List.mem_filter.mpr ⟨at_record, decide_eq_true rfl⟩
  rw [Option.mem_toList] at found
  rw [Entry.observes, if_pos rfl]
  exact (congrArg (Option.map _) found).trans rfl

/-- **A batch that the table of the transitions still shows**: as of the number of its run the state
of every accepted key is the accepted content, and the batch hash of the manifest is the digest of
these states. -/
structure Reconstructed (db : Database) (row : RunRow) (request : Request)
    (records : List Observation) (batch : List BatchRow) (n : Nat) : Prop where
  requestId : row.requestId = request.requestId
  batched : batchRows request records = .ok batch
  number : row.commitSequence = some n
  rowsAccepted : row.rowsAccepted = some batch.length
  states : ∀ accepted ∈ batch, ∃ state,
    stateAt request.product accepted.logicalKey n db = some state ∧
      state.contentHash = accepted.contentHash ∧ state.contentId = accepted.contentId
  batchHash : row.batchHash = some (digest "batch-content/v1"
    (statesAt request.product (batch.map (·.logicalKey)) n db))

theorem Good.reconstructed (noCollisions : NoCollisions) {db : Database} (good : Good db)
    {row : RunRow} (member : row ∈ db.runs) (committed : row.status.hasCommitted = true) :
    ∃ request records batch n, Reconstructed db row request records batch n := by
  obtain ⟨c, entries, sound, order, law⟩ := good.history noCollisions fun created => by
    rw [created] at member
    cases member
  obtain ⟨i, entry, at_i, documents⟩ := order.complete row member committed
  obtain ⟨batch, batched, rowsAccepted, hash⟩ := documents.batch
  obtain ⟨serial, accepted, _, transitions, _⟩ := order.executes
  have within : i < entries.length := (List.getElem?_eq_some_iff.mp at_i).1
  have upTo : entries.take (i + 1) = entries.take i ++ [entry] := by
    rw [List.take_add_one, at_i, Option.toList_some]
  have states : ∀ row ∈ batch, ∃ state,
      stateAt entry.request.product row.logicalKey (i + 1) db = some state ∧
        state.contentHash = row.contentHash ∧ state.contentId = row.contentId := by
    intro row inBatch
    have last := acceptAll_state noCollisions accepted entry.request.product row.logicalKey
      (n := i + 1) within
    have same : stateAt entry.request.product row.logicalKey (i + 1) serial =
        stateAt entry.request.product row.logicalKey (i + 1) db := by
      simp only [stateAt, transitionsUpTo, keyTransitions, transitions]
    rw [same, upTo, observations, List.filterMap_append, filterMap_singleton,
      entry.observes_of_mem batched inBatch, Option.toList_some, List.getLast?_concat] at last
    obtain ⟨state, isState, hash⟩ := Option.map_eq_some_iff.mp last
    refine ⟨state, isState, hash, ?_⟩
    obtain ⟨inTable, key, _⟩ := mem_transitionsUpTo.mp (stateAt_spec isState).1
    obtain ⟨content, at_content, sameId, sameKey, sameHash⟩ :=
      (law _).catalogue.references state inTable
    obtain ⟨record, _, rfl⟩ := List.mem_map.mp ((batchRows_spec batched).perm.mem_iff.mp inBatch)
    exact sameId.symm.trans ((law _).catalogue.id_of_same at_content (sameKey.trans key)
      (sameHash.trans hash))
  refine ⟨entry.request, entry.records, batch, i + 1, documents.request, batched, documents.number,
    rowsAccepted, states, ?_⟩
  have shown : statesAt entry.request.product (batch.map (·.logicalKey)) (i + 1) db =
      batch.map fun row => (row.logicalKey, row.contentHash) := by
    rw [statesAt, List.filterMap_map, ← List.filterMap_eq_map]
    refine List.filterMap_congr fun row inBatch => ?_
    obtain ⟨state, isState, hash, _⟩ := states row inBatch
    simp only [Function.comp_apply, isState, Option.map_some, hash]
  rw [shown, hash, PowerMarket.batchHash, Identity.batch_fields (batchRows_spec batched).distinct]

end History

variable [Platform]

/-- **Nothing that was accepted is lost.** In every reachable state, whatever has been written
since, the batch of each run that has committed can be read back from the transitions: as of the
number of the run the state of each of its keys is the content that the run accepted, and the digest
of these states is the batch hash of its manifest. -/
theorem batches_reconstructed (noCollisions : NoCollisions) {s : WarehouseSystem}
    (reachable : Reachable s) : ∀ row ∈ s.world.store.runs, row.status.hasCommitted = true →
      ∃ request records batch n, Reconstructed s.world.store row request records batch n :=
  fun _ member committed => reachable.orderly.good.reconstructed noCollisions member committed

omit [Platform] in
/-- The batches of a load that was revised and corrected back can be read back. -/
theorem batches_reconstructed_sample :
    letI := Platform.plain
    ∃ s : WarehouseSystem, Revised s.world.store ∧
      ∀ row ∈ s.world.store.runs, row.status.hasCommitted = true →
        ∃ request records batch n, Reconstructed s.world.store row request records batch n := by
  let _ := Platform.plain
  obtain ⟨s, reachable, revised⟩ := exists_revised
  exact ⟨s, revised, batches_reconstructed noCollisions_plain reachable⟩

end PowerMarket
