import PowerMarket.Analytics.Builds

/-!
# The last writer wins

What the warehouse is for: a store that holds of each key the content that was accepted last. The
batches of the runs that have succeeded, put into such a store in the order of their commit sequence
numbers, give what a fact table shows, although the runs were interleaved with one another and the
table was built step by step (`last_writer_wins`).

The run that holds the gate has committed and is the last of the serial order. Its batch is not in the
store, since the numbers of the eligible transitions end before its own (`Sound.settled`).
-/

set_option autoImplicit false

namespace PowerMarket

open Library

variable [Platform]

/-- The runs of the list are those that have succeeded, in the order of their numbers, each with the
records that it accepted. -/
structure SuccessfulRuns (entries : List Entry) (db : Database) : Prop where
  documented : ∀ i entry, entries[i]? = some entry →
    ∃ row ∈ db.runs, row.status = .succeeded ∧ Documents entry i row
  complete : ∀ row ∈ db.runs, row.status = .succeeded →
    ∃ i entry, entries[i]? = some entry ∧ Documents entry i row

theorem SuccessfulRuns.puts_keys {entries : List Entry} {db : Database}
    (runs : SuccessfulRuns entries db) (product : Product) :
    ∀ entry ∈ entries, ((entry.puts product).map Prod.fst).Nodup := by
  intro entry member
  obtain ⟨i, at_i⟩ := List.mem_iff_getElem?.mp member
  obtain ⟨row, _, _, documents⟩ := runs.documented i entry at_i
  obtain ⟨batch, batched, _⟩ := documents.batch
  exact entry.puts_keys batched product

theorem SerialOrder.successful {entries : List Entry} {db : Database} {n : Nat}
    (order : SerialOrder entries db) (settled : SettledUpTo db n) :
    SuccessfulRuns (entries.take n) db := by
  constructor
  · intro i entry at_i
    rw [List.getElem?_take] at at_i
    split_ifs at at_i with below
    obtain ⟨row, member, documents⟩ := order.documented i entry at_i
    exact ⟨row, member, (settled.succeeded row member documents.committed _ documents.number).mpr
      below, documents⟩
  · intro row member succeeded
    have committed : row.status.hasCommitted = true := by rw [succeeded]; rfl
    obtain ⟨i, entry, at_i, documents⟩ := order.complete row member committed
    have below : i < n := (settled.succeeded row member committed _ documents.number).mp succeeded
    exact ⟨i, entry, by rw [List.getElem?_take, if_pos below, at_i], documents⟩

/-- The facts of good tables. -/
theorem CurrentFacts.lastWriter (noCollisions : NoCollisions) {db : Database} (good : Good db)
    {product : Product} {table : List HistoryRow} (facts : CurrentFacts product db table) :
    ∃ entries, SuccessfulRuns entries db ∧
      shown (·.logicalKey) (·.contentHash) table = storeAfter product entries := by
  by_cases created : db = .created
  · subst created
    have none_succeeded : SuccessfulRuns [] Database.created := by
      refine ⟨fun i entry at_i => ?_, fun row member => ?_⟩
      · cases at_i
      · cases member
    refine ⟨[], none_succeeded, ?_⟩
    funext key
    refine shown_eq_none.mpr fun row member => ?_
    obtain ⟨_, _, occurs, _⟩ := facts.rows row member
    cases occurs.inTransitions
  · obtain ⟨c, entries, sound, order, _⟩ := good.history noCollisions created
    obtain ⟨n, within, settled⟩ := sound.settled
    have runs := order.successful settled
    refine ⟨entries.take n, runs, ?_⟩
    funext key
    obtain ⟨serial, accepted, _, transitions, control⟩ := order.executes
    obtain ⟨c', isSerial⟩ := acceptAll_serial accepted
    obtain ⟨length, _⟩ := acceptAll_documents accepted isSerial
    have same : c' = c := isSerial.sound.seeded.control_unique sound.seeded control
    have atState := acceptAll_state noCollisions accepted product key (n := n)
      (length ▸ same ▸ within)
    have states : stateAt product key n serial = stateAt product key n db := by
      simp only [stateAt, transitionsUpTo, keyTransitions, transitions]
    rw [facts.shown_eq noCollisions good sound settled, storeAfter_eq (runs.puts_keys product),
      ← atState, states]

/-- **The last writer wins.** Whatever was ingested and built in whatever order, a fact table shows
what a plain store holds after the batches of the runs that had succeeded were put into it, in the
order of their commit sequence numbers. -/
theorem last_writer_wins (noCollisions : NoCollisions) {s : Analytics}
    (reachable : AnalyticsReachable s) {product : Product} {table : FactTable}
    (at_table : s.facts product = some table) :
    ∃ entries, SuccessfulRuns entries table.readPoint ∧
      shown (·.logicalKey) (·.contentHash) table.rows = storeAfter product entries := by
  obtain ⟨read, _⟩ := (reachable.maintained noCollisions).table product table at_table
  exact (reachable.refreshed noCollisions at_table).current.lastWriter noCollisions read.good

omit [Platform] in
/-- A load fact that is built again after a revision shows the last batch. -/
theorem last_writer_wins_sample :
    letI := Platform.plain
    ∃ (s : Analytics) (table : FactTable), s.facts .load = some table ∧
      ShowsLoad sampleRevision.contentHash table.rows ∧
      ∃ entries, SuccessfulRuns entries table.readPoint ∧
        shown (·.logicalKey) (·.contentHash) table.rows = storeAfter .load entries := by
  let _ := Platform.plain
  obtain ⟨_, _, _, _, rebuilding⟩ := exists_rebuilding
  obtain ⟨run, table, at_table, _, shows⟩ := rebuilding.written noCollisions_plain
  exact ⟨_, table, at_table, shows,
    last_writer_wins noCollisions_plain (rebuilding.reachable.run run) at_table⟩

end PowerMarket
