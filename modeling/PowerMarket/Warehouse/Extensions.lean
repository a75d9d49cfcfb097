import PowerMarket.Warehouse.Origins

/-!
# Runs after any state

A run that nothing interrupts is accepted by the tables of the concurrent system just as it is by
the serial execution that they mirror (`Mirrors.accepted`), also when its manifest was created
before. So a list of runs that a good state accepts extends the serial execution of that state
(`Linearized.extended`), and what is known of serial executions holds of these runs.
-/

set_option autoImplicit false

namespace PowerMarket

open Library

variable [Platform]

/-! ## One run -/

section Steps

variable {c : ControlRow} {db serial : Database}

theorem Sound.begun_binding (noCollisions : NoCollisions) (sound : Sound c db) {row : RunRow}
    (member : row ∈ db.runs) {entry : Entry} (ofRun : row.runId = entry.runId)
    (ofRequest : row.requestId = entry.begun.requestId) : entry.row.binding = row.binding := by
  obtain ⟨request, requestId, product, day, location⟩ := sound.bound row member
  obtain rfl := Request.requestId_injective noCollisions (ofRequest.symm.trans requestId)
  simp only [RunRow.binding, Entry.row, newRun, NewRun.row, ofRun, ofRequest, product, day,
    location]

/-- Creating the manifest of a run, or finding it, is not visible. -/
theorem Mirrors.opened (sound : Sound c db) (mirrors : Mirrors serial db) {entry : Entry}
    (valid : isRunId entry.runId = true) {mid : Database}
    (begun : beginRun (newRun entry.begun entry.runId) entry.startedAt db = .ok mid) :
    Sound c mid ∧ Mirrors serial mid ∧ ∀ row ∈ mid.runs, row.runId = entry.runId →
      row.requestId = entry.begun.requestId := by
  obtain ⟨bound, rfl⟩ := (beginRun_ok sound.seeded).mp begun
  split_ifs with absent
  · have fresh : ∀ row ∈ db.runs, row.runId ≠ entry.runId := by
      intro row member same
      have here : row ∈ runRows db (newRun entry.begun entry.runId).runId :=
        mem_runRows.mpr ⟨member, same⟩
      rw [List.isEmpty_iff.mp absent] at here
      cases here
    refine ⟨sound.begun entry.startedAt fresh ⟨entry.begun, entry.runId, valid, rfl⟩,
      mirrors.begun rfl, fun row member same => ?_⟩
    rcases List.mem_append.mp member with before | last
    · exact absurd same (fresh row before)
    · rw [List.mem_singleton.mp last]
      rfl
  · exact ⟨sound, mirrors, bound⟩

/-- **Committing a run on tables that mirror a serial execution** is committing it there. -/
theorem Mirrors.commitRun (noCollisions : NoCollisions) (sound : Sound c db)
    (isSerial : Serial c serial) (mirrors : Mirrors serial db) {entry : Entry} {mid : Database}
    (accepted : commitRun entry db = .ok mid) :
    ∃ batch snapshot plan row, Commits entry c serial batch snapshot plan ∧
      Sound (c.take entry.runId) mid ∧ Mirrors (afterCommit entry plan c serial) mid ∧
      runRows mid entry.runId = [row] ∧ row.status = .committed ∧
      row.product = entry.begun.product := by
  obtain ⟨begunDb, begun, rest⟩ := bind_eq_ok.mp accepted
  obtain ⟨plan, planned, committed⟩ := bind_eq_ok.mp rest
  obtain ⟨batch, batched, rest⟩ := bind_eq_ok.mp planned
  obtain ⟨current, read, planned⟩ := bind_eq_ok.mp rest
  have plan_eq := (planWrite_eq planned).2
  obtain ⟨sound, mirrors, bound⟩ := mirrors.opened sound (planWrite_eq planned).1 begun
  obtain ⟨startedOnce, _, free, rfl⟩ := (commitQuery_ok sound.seeded).mp committed
  -- The manifest of the run, created just now or before.
  obtain ⟨row, only⟩ := List.length_eq_one_iff.mp startedOnce
  obtain ⟨found, isStarted⟩ := List.mem_filter.mp (only ▸ List.mem_singleton_self row)
  obtain ⟨member, ofRun⟩ := mem_runRows.mp found
  have ofRun : row.runId = entry.runId := ofRun
  have started : row.status = .started := of_decide_eq_true isStarted
  have ofRequest := bound row member ofRun
  have binding := sound.begun_binding noCollisions member ofRun ofRequest
  have atRow : runRows begunDb (commitParameters entry.runId plan).runId = [row] := by
    rw [← runRows_eq sound.unique member, ofRun]
    rfl
  have replaces : Replaces begunDb.runs (committedDatabase entry.request.product
      (commitParameters entry.runId plan) c begunDb).runs row
      (row.commit (commitParameters entry.runId plan)) :=
    updateRuns_replaces sound.unique atRow fun _ => rfl
  have commits : Commits entry c serial batch current plan := by
    refine ⟨batched, ?_, planned, fun x at_x same => ?_, free⟩
    · rw [snapshotQuery_congr isSerial.sound.seeded sound.seeded mirrors.contents
        mirrors.transitions]
      exact read
    · exact mirrors.fresh sound.unique member started x at_x (same.trans ofRun.symm)
  have sequence : c.sequence = (commitParameters entry.runId plan).expectedSequence := by
    rw [plan_eq, ((readSnapshot_ok sound.seeded).mp read).2.2.2]
    rfl
  have permitted : Planned begunDb entry.request.product (commitParameters entry.runId plan) :=
    .intro rfl batched sound.seeded (.refl _) read planned rfl member ofRun
      (ofRequest.trans entry.bound.symm)
  have after := sound.committed atRow started sequence free permitted
  have unique : UniqueRuns (committedDatabase entry.request.product
      (commitParameters entry.runId plan) c begunDb) := replaces.unique sound.unique
  refine ⟨batch, current, plan, row.commit (commitParameters entry.runId plan), commits, after,
    mirrors.committed sound.unique replaces started commits rfl rfl
      (sound.commit_outcome member started binding _), ?_, rfl, ?_⟩
  · have last := runRows_eq unique replaces.member'
    rwa [show (row.commit (commitParameters entry.runId plan)).runId = entry.runId from ofRun]
      at last
  · exact (congrArg (fun b : String × String × Product × Date × Option Hub => b.2.2.1)
      binding).symm

/-- **A run on tables that mirror a serial execution is the next run of it.** -/
theorem Mirrors.accepted (noCollisions : NoCollisions) (sound : Sound c db)
    (isSerial : Serial c serial) (mirrors : Mirrors serial db) {entry : Entry} {after : Database}
    (accepted : acceptRun entry db = .ok after) :
    ∃ c' after', acceptRun entry serial = .ok after' ∧ Sound c' after ∧ Serial c' after' ∧
      Mirrors after' after := by
  obtain ⟨mid, committed, finished⟩ := bind_eq_ok.mp accepted
  obtain ⟨batch, snapshot, plan, row, commits, sound', mirrors', atRow, status, product⟩ :=
    mirrors.commitRun noCollisions sound isSerial committed
  have isNext : acceptRun entry serial = .ok (afterRun entry plan c serial) :=
    (acceptRun_iff isSerial).mpr ⟨batch, snapshot, plan, commits, rfl⟩
  have serial' := afterRun_serial isSerial commits
  unfold finishRun at finished
  cases finalization : entry.finalization with
  | none =>
      rw [finalization] at finished
      cases finished
      rw [afterRun, finalization] at isNext
      rw [afterRun, afterControl, finalization] at serial'
      exact ⟨_, _, isNext, sound', serial', mirrors'⟩
  | some knowledgeAt =>
      rw [finalization] at finished
      rcases (finalizeQuery_ok sound'.seeded (runRows_length_le sound'.unique _)).mp finished with
        ⟨_, rfl⟩ | ⟨succeeded, _⟩
      · have same : { entry with finalization := some knowledgeAt } = entry := by
          rw [← finalization]
        have finalized := Mirrors.finalized sound' (p := ⟨entry.runId, knowledgeAt, none, none⟩)
          knowledgeAt atRow product isSerial commits rfl mirrors' rfl
        rw [same] at finalized
        rw [afterControl, finalization] at serial'
        exact ⟨_, _, isNext, sound'.finalized knowledgeAt atRow status rfl product, serial',
          finalized⟩
      · have impossible := succeeded row (atRow ▸ List.mem_singleton_self row)
        rw [status] at impossible
        cases impossible

end Steps

/-! ## Any number of runs -/

/-- **Runs on tables that mirror a serial execution extend it.** -/
theorem Mirrors.extended (noCollisions : NoCollisions) {entries later : List Entry}
    {db serial after : Database} {c : ControlRow} (sound : Sound c db)
    (isSerial : Serial c serial) (earlier : acceptAll entries Database.seeded = .ok serial)
    (mirrors : Mirrors serial db) (accepted : acceptAll later db = .ok after) :
    ∃ c' after', acceptAll (entries ++ later) Database.seeded = .ok after' ∧ Sound c' after ∧
      Serial c' after' ∧ Mirrors after' after := by
  induction later using List.reverseRecOn generalizing after with
  | nil =>
      cases accepted
      rw [List.append_nil]
      exact ⟨c, serial, earlier, sound, isSerial, mirrors⟩
  | append_singleton later entry ih =>
      obtain ⟨before, first, last⟩ := acceptAll_snoc.mp accepted
      obtain ⟨c', before', first', sound', serial', mirrors'⟩ := ih first
      obtain ⟨c'', after', last', sound'', serial'', mirrors''⟩ :=
        mirrors'.accepted noCollisions sound' serial' last
      rw [← List.append_assoc]
      exact ⟨c'', after', acceptAll_snoc.mpr ⟨before', first', last'⟩, sound'', serial'',
        mirrors''⟩

theorem acceptAll_created {entries : List Entry} {after : Database}
    (accepted : acceptAll entries Database.created = .ok after) : entries = [] := by
  cases entries with
  | nil => rfl
  | cons entry entries =>
      obtain ⟨mid, first, _⟩ := bind_eq_ok.mp accepted
      obtain ⟨_, committed, _⟩ := bind_eq_ok.mp first
      obtain ⟨_, begun, _⟩ := bind_eq_ok.mp committed
      obtain ⟨e, rejected⟩ := guard_of_empty (rfl : Database.created.control = [])
      rw [beginRun, rejected] at begun
      cases begun

end PowerMarket
