import PowerMarket.Retries
import Mathlib.Algebra.BigOperators.Group.Finset.Basic
import Mathlib.Algebra.Order.BigOperators.Group.Finset

/-!
# Reported rows

A unit reports the counts of its manifest unless it found that its run had succeeded before. In a
sequential history of invocations of units, with whatever else runs around them, at most one
returned result of a run reports its counts, and all results together report at most the rows that
the runs own (`reported_once`). They report exactly these rows when each run that owns rows
succeeded while an invocation that returned was ingesting it.
-/

set_option autoImplicit false

namespace PowerMarket

open Library JobService

variable [Platform]

/-! ## Replies and tables -/

/-- What the reply of a call says about the jobs: a submission gave a job with its script, and what
was read from a job is what the job ended with. -/
structure Attested (w : Cloud) (event : ClientEvent) : Prop where
  submitted : ∀ script id, event = ⟨.query none script, .ok id⟩ →
    ∃ phase, w.jobs id = some ⟨script, phase⟩
  read : ∀ id view, event = ⟨.result id, .ok view⟩ →
    ∃ script rows time, Seen w id view script rows time

omit [Platform] in
theorem Attested.mono {w w' : Cloud} {event : ClientEvent} (attested : Attested w event)
    (future : Future w w') : Attested w' event := by
  constructor
  · intro script id same
    obtain ⟨phase, recorded⟩ := attested.submitted script id same
    obtain ⟨⟨script', phase'⟩, recorded', sameScript, _⟩ := future.progress.jobs recorded
    cases sameScript
    exact ⟨phase', recorded'⟩
  · intro id view same
    obtain ⟨script, rows, time, seen⟩ := attested.read id view same
    exact ⟨script, rows, time, seen.mono future⟩

omit [Platform] in
theorem act_attested {c : ClientCall} {w w' : Cloud} {reply : Except Exn (ClientAnswer c)}
    (acted : cloudService.act c w reply w') : Attested w' ⟨c, reply⟩ := by
  constructor
  · rintro script id ⟨⟩
    rcases acted with ⟨unused, rfl, same | ⟨e, impossible⟩⟩ | ⟨⟨e, impossible⟩, _⟩
    · cases same
      exact ⟨.pending, World.submit_self ..⟩
    · cases impossible
    · cases impossible
  · rintro id view ⟨⟩
    rcases acted with ⟨rfl, ⟨script, rows, time, usage, ended, job, past, reported, same⟩ | ⟨e, same⟩⟩
    · cases same
      exact ⟨script, rows, time, job, past, rfl, reported⟩
    · cases same

/-- **The replies of all processes are attested** in every reachable state. -/
theorem Reachable.attested {s : WarehouseSystem} (reachable : Reachable s) :
    s.Attests Attested := by
  obtain ⟨clock, run⟩ := reachable
  refine (Protocol.Respected.initial (orderly_created clock)).attests
    (fun _ _ _ future attested => attested.mono future) (fun _ _ _ _ _ acted _ => act_attested acted)
    (fun launch _ _ => launch.safe) ?_ run
  rintro i process impossible
  cases impossible

/-- Manifests that a process has read are those of an earlier state. -/
theorem Reachable.manifests_read {s : WarehouseSystem} (reachable : Reachable s) {i : Nat}
    {process : Process Launch ClientCall ClientAnswer Exn Returned}
    (at_i : s.processes i = some process) {runId : String} {rows : List RunRow}
    {events : List ClientEvent} (read : RunsRead runId rows events)
    (within : events ⊆ process.history) :
    ∃ past, Precedes past s.world.store ∧ rows = runRows past runId := by
  obtain ⟨view, ⟨job, rfl⟩, rfl⟩ := read
  have attested := reachable.attested i process at_i
  obtain ⟨phase, recorded⟩ := (attested _ (within (List.mem_cons_self ..))).submitted _ _ rfl
  obtain ⟨script, answer, time, seen⟩ :=
    (attested _ (within (List.mem_cons_of_mem _ (List.mem_cons_self ..)))).read _ _ rfl
  rw [seen.job] at recorded
  cases recorded
  obtain ⟨past, after, started, _, before, _, executed⟩ := seen.answered reachable.orderly
  cases executed
  exact ⟨past, before, by rw [manifestRows, seen.rows_eq]⟩

/-! ## Invocations -/

/-- An invocation of a unit, from the state in which it is launched to a state in which it has
returned, raised or crashed. A crashed one has no outcome. -/
structure Invocation where
  launched : WarehouseSystem
  ended : WarehouseSystem
  process : Nat
  today : Date
  unit : IngestionUnit
  history : List ClientEvent
  outcome : Option (Except Exn IngestionResult)

namespace Invocation

/-- The invocation took place. -/
structure Ran (x : Invocation) : Prop where
  unused : x.launched.processes x.process = none
  run : SystemRun x.launched x.ended
  at_end : x.ended.processes x.process = some ⟨.executeUnit x.today x.unit, x.history,
    x.outcome.map fun outcome => .done (outcome.map .result)⟩

/-- The result that was returned to the caller. -/
def result (x : Invocation) : Option IngestionResult :=
  match x.outcome with
  | some (.ok r) => some r
  | _ => none

omit [Platform] in
theorem result_eq_some {x : Invocation} {r : IngestionResult} :
    x.result = some r ↔ x.outcome = some (.ok r) := by
  obtain ⟨_, _, _, _, _, _, outcome⟩ := x
  rcases outcome with _ | _ | _ <;> simp [result]

/-- In a state during the invocation, its ingestion has been entered. -/
def Ingesting (x : Invocation) (t : WarehouseSystem) : Prop :=
  SystemRun x.launched t ∧ SystemRun t x.ended ∧
    ∃ process, t.processes x.process = some process ∧ ∃ event ∈ process.history, ∃ script,
      event.call = .query (some (jobId x.unit.runId "begin")) script

/-- The run succeeded while an invocation that returned was ingesting it. -/
def Reached (x : Invocation) : Prop :=
  x.result.isSome = true ∧ ∃ t, x.Ingesting t ∧
    ∀ row ∈ t.world.store.runs, row.runId = x.unit.runId → row.status ≠ .succeeded

end Invocation

/-- A history of invocations one after another, with anything else running around them. -/
def Sequential : WarehouseSystem → List Invocation → WarehouseSystem → Prop
  | s, [], s' => SystemRun s s'
  | s, x :: rest, s' => SystemRun s x.launched ∧ x.Ran ∧ Sequential x.ended rest s'

/-- The results that were returned. -/
def results (invocations : List Invocation) : List IngestionResult :=
  invocations.filterMap Invocation.result

/-- The results that report the counts of their manifests. -/
def freshResults (invocations : List Invocation) : List IngestionResult :=
  (results invocations).filter fun r => !r.reusedSuccess

/-- The runs of the units. -/
def runIds (invocations : List Invocation) : Finset String :=
  (invocations.map (·.unit.runId)).toFinset

theorem Sequential.run {s s' : WarehouseSystem} {invocations : List Invocation}
    (sequential : Sequential s invocations s') : SystemRun s s' := by
  induction invocations generalizing s with
  | nil => exact sequential
  | cons x rest ih =>
      obtain ⟨before, ran, after⟩ := sequential
      exact (before.trans ran.run).trans (ih after)

/-! ## One invocation -/

omit [Platform] in
theorem resultOf_reused {unit : IngestionUnit} {prior : Option RunRow} {row : RunRow}
    {r : IngestionResult} (reported : resultOf unit prior row = .ok r) :
    r.reusedSuccess = decide (prior.map (·.status) = some .succeeded) := by
  obtain ⟨accepted, _, rest⟩ := bind_eq_ok.mp reported
  dsimp only at rest
  split_ifs at rest
  · cases rest
    rfl
  · obtain ⟨contents, _, rest⟩ := bind_eq_ok.mp rest
    obtain ⟨transitions, _, rest⟩ := bind_eq_ok.mp rest
    cases rest
    rfl

/-- A unit that returns has read its manifest, which decides whether its result is a reused one. -/
theorem executeUnit_reads {today : Date} {unit : IngestionUnit} {events : List ClientEvent}
    {r : IngestionResult} (run : Program.Runs (executeUnit today unit) events (.ok r)) :
    ∃ first later, ∃ prior : Option RunRow, events = first ++ later ∧
      RunsRead unit.runId prior.toList first ∧
      r.reusedSuccess = decide (prior.map (·.status) = some .succeeded) := by
  have called : events ≠ [] := by
    rintro rfl
    cases requested : unit.request today with
    | error e =>
        rw [executeUnit, requested] at run
        cases (Program.runs_done.mp run).2
    | ok request =>
        by_cases valid : isRunId unit.runId = true
        · rw [executeUnit_eq requested valid, Program.runs_bind] at run
          rcases run with ⟨e, _, impossible⟩ | ⟨first, later, prior, split, reading, _⟩
          · cases impossible
          · obtain ⟨rfl, rfl⟩ := List.append_eq_nil_iff.mp split.symm
            rcases Program.runs_tryCatch.mp reading with ⟨found, reads, _⟩ | ⟨_, _, e, _, _, handled⟩
            · obtain ⟨view, ⟨job, impossible⟩, _⟩ := (runs_getRun_ok valid).mp reads
              cases impossible
            · cases (Program.runs_done.mp handled).2
        · rw [executeUnit, requested, validateRunId, if_neg valid] at run
          cases (Program.runs_done.mp run).2
  obtain ⟨valid, request, requested⟩ := executeUnit_valid run called
  rw [executeUnit_eq requested valid, Program.runs_bind] at run
  rcases run with ⟨e, _, impossible⟩ | ⟨first, later, prior, rfl, reading, rest⟩
  · cases impossible
  refine ⟨first, later, prior, rfl, ?_, ?_⟩
  · rcases Program.runs_tryCatch.mp reading with ⟨found, reads, same⟩ | ⟨_, _, e, _, _, handled⟩
    · cases same
      exact (runs_getRun_ok valid).mp reads
    · cases (Program.runs_done.mp handled).2
  · rcases Program.runs_bind.mp rest with ⟨e, _, impossible⟩ | ⟨_, _, manifest, _, _, returned⟩
    · cases impossible
    · split_ifs at returned
      · cases (Program.runs_done.mp returned).2
      · exact resultOf_reused (Program.runs_done.mp returned).2.symm

namespace Invocation

variable {x : Invocation}

/-- What is known of the tables after an invocation that returned. -/
theorem Ran.returned (reachable : Reachable x.launched) (ran : x.Ran) {r : IngestionResult}
    (result : x.result = some r) :
    r.unit = x.unit ∧ (∃ row, Succeeded x.ended.world x.unit.runId row ∧ Reports row r) ∧
      (r.reusedSuccess = false → ∀ row ∈ x.launched.world.store.runs,
        row.runId = x.unit.runId → row.status ≠ .succeeded) := by
  have at_end := ran.at_end
  rw [result_eq_some.mp result] at at_end
  obtain ⟨base, ended, after, known, same⟩ := reachable.unitEnded ran.unused ran.run at_end
  cases ended with
  | error e => cases same
  | ok r' =>
      cases same
      obtain ⟨ofUnit, _, reported, fresh⟩ := known.returned r rfl
      exact ⟨ofUnit, reported, fun isFresh row member ofRun succeeded =>
        fresh isFresh row (after.final member (.inl succeeded)) ofRun succeeded⟩

/-- **The first success is reported.** An invocation that returned, and during whose ingestion the
run had not yet succeeded, reports the counts of its manifest. -/
theorem Ran.fresh (reachable : Reachable x.launched) (ran : x.Ran) {r : IngestionResult}
    (result : x.result = some r) (reached : x.Reached) : r.reusedSuccess = false := by
  obtain ⟨_, t, ⟨before, after, process, at_t, event, member, script, isBegin⟩, unfinished⟩ :=
    reached
  have at_end := ran.at_end
  rw [result_eq_some.mp result] at at_end
  have reachableT := (reachable.run before).1
  obtain ⟨ended, run, same, _⟩ := (reachableT.run after).1.unitRuns at_end
  cases ended with
  | error e => cases same
  | ok r' =>
      cases same
      obtain ⟨first, later, prior, split, read, reused⟩ := executeUnit_reads run
      -- The manifest was read before the ingestion was entered.
      have within : first ⊆ process.history := by
        obtain ⟨process', at_end', _, grows⟩ := after.history_grows at_t
        rw [at_end] at at_end'
        cases at_end'
        simp only [split] at grows
        rcases List.prefix_or_prefix_of_prefix grows (List.prefix_append first later) with
          short | long
        · have inFirst := short.subset member
          obtain ⟨view, ⟨job, rfl⟩, _⟩ := read
          simp only [List.mem_cons, List.not_mem_nil, or_false] at inFirst
          rcases inFirst with rfl | rfl <;> cases isBegin
        · exact long.subset
      obtain ⟨past, earlier, rows⟩ := reachableT.manifests_read at_t read within
      rw [reused, decide_eq_false_iff_not]
      intro succeeded
      obtain ⟨row, rfl, status⟩ := Option.map_eq_some_iff.mp succeeded
      have found : row ∈ runRows past x.unit.runId := rows ▸ List.mem_singleton_self row
      obtain ⟨inPast, ofRun⟩ := mem_runRows.mp found
      exact unfinished row (earlier.final inPast (.inl status)) ofRun status

end Invocation

/-! ## Counts -/

/-- The contents that a run owns in the tables. -/
def ownedContents (db : Database) (runId : String) : Nat :=
  (ownContents .lmp runId db).length + (ownContents .load runId db).length

/-- The transitions that a run owns in the tables. -/
def ownedTransitions (db : Database) (runId : String) : Nat :=
  (ownTransitions .lmp runId db).length + (ownTransitions .load runId db).length

/-- The manifest of a run that has succeeded counts the rows that the run owns. -/
theorem Succeeded.owned (noCollisions : NoCollisions) {w : Cloud} (orderly : Orderly w)
    {runId : String} {row : RunRow} (succeeded : Succeeded w runId row) :
    row.newContents = some (ownedContents w.store runId) ∧
      row.newTransitions = some (ownedTransitions w.store runId) := by
  obtain ⟨request, records, batch, current, plan, truthful⟩ :=
    orderly.good.truthful noCollisions succeeded.member (by rw [succeeded.status]; rfl)
  rw [ownedContents, ownedTransitions, ← succeeded.ofRun]
  exact ⟨truthful.newContents.trans (congrArg some truthful.contents_count.symm),
    truthful.newTransitions.trans (congrArg some truthful.transitions_count.symm)⟩

/-- What the results of a sequential history say about the tables at its end. -/
structure Accounted (s s' : WarehouseSystem) (invocations : List Invocation) : Prop where
  distinct : ((freshResults invocations).map (·.unit.runId)).Nodup
  unfinished : ∀ r ∈ freshResults invocations, ∀ row ∈ s.world.store.runs,
    row.runId = r.unit.runId → row.status ≠ .succeeded
  reused : ∀ r ∈ results invocations, r.reusedSuccess = true →
    r.newContents = 0 ∧ r.newTransitions = 0
  counted : ∀ r ∈ freshResults invocations,
    r.newContents = ownedContents s'.world.store r.unit.runId ∧
      r.newTransitions = ownedTransitions s'.world.store r.unit.runId
  ofUnits : ∀ r ∈ freshResults invocations, r.unit.runId ∈ runIds invocations
  reached : ∀ x ∈ invocations, x.Reached →
    ∃ r ∈ freshResults invocations, r.unit.runId = x.unit.runId

omit [Platform] in
theorem unfinished_before {w w' : Cloud} (future : Future w w') {runId : String}
    (unfinished : ∀ row ∈ w'.store.runs, row.runId = runId → row.status ≠ .succeeded) :
    ∀ row ∈ w.store.runs, row.runId = runId → row.status ≠ .succeeded := by
  intro row member ofRun status
  exact unfinished row (future.before.final member (.inl status)) ofRun status

omit [Platform] in
theorem runIds_cons {x : Invocation} {rest : List Invocation} {runId : String} :
    runId ∈ runIds (x :: rest) ↔ runId = x.unit.runId ∨ runId ∈ runIds rest := by
  simp [runIds]

/-- An invocation that does not report counts. -/
theorem Accounted.silent {s s' : WarehouseSystem} {x : Invocation} {rest : List Invocation}
    (accounted : Accounted x.ended s' rest) (future : Future s.world x.ended.world)
    (reused : ∀ r, x.result = some r → r.reusedSuccess = true ∧ r.newContents = 0 ∧
      r.newTransitions = 0)
    (unreached : ¬ x.Reached) : Accounted s s' (x :: rest) := by
  have fresh : freshResults (x :: rest) = freshResults rest := by
    cases result : x.result with
    | none => simp [freshResults, results, result]
    | some r => simp [freshResults, results, result, (reused r result).1]
  constructor
  case distinct => exact fresh ▸ accounted.distinct
  case unfinished =>
    intro r member
    exact unfinished_before future (accounted.unfinished r (fresh ▸ member))
  case reused =>
    intro r member isReused
    obtain ⟨y, at_y, result⟩ := List.mem_filterMap.mp member
    rcases List.mem_cons.mp at_y with rfl | inRest
    · exact (reused r result).2
    · exact accounted.reused r (List.mem_filterMap.mpr ⟨y, inRest, result⟩) isReused
  case counted => exact fresh ▸ accounted.counted
  case ofUnits => exact fun r member => runIds_cons.mpr (.inr (accounted.ofUnits r (fresh ▸ member)))
  case reached =>
    intro y member reached
    rcases List.mem_cons.mp member with rfl | inRest
    · exact absurd reached unreached
    · exact fresh ▸ accounted.reached y inRest reached

/-- An invocation that reports the counts of its manifest. -/
theorem Accounted.report {s s' : WarehouseSystem} {x : Invocation} {rest : List Invocation}
    (accounted : Accounted x.ended s' rest) (future : Future s.world x.ended.world)
    {r : IngestionResult} (result : x.result = some r) (isFresh : r.reusedSuccess = false)
    (ofUnit : r.unit = x.unit)
    (unfinished : ∀ row ∈ s.world.store.runs, row.runId = x.unit.runId → row.status ≠ .succeeded)
    {row : RunRow} (succeeded : Succeeded x.ended.world x.unit.runId row)
    (counted : r.newContents = ownedContents s'.world.store x.unit.runId ∧
      r.newTransitions = ownedTransitions s'.world.store x.unit.runId) :
    Accounted s s' (x :: rest) := by
  have fresh : freshResults (x :: rest) = r :: freshResults rest := by
    simp [freshResults, results, result, isFresh]
  have all : results (x :: rest) = r :: results rest := by simp [results, result]
  constructor
  case distinct =>
    rw [fresh, List.map_cons, List.nodup_cons]
    refine ⟨fun again => ?_, accounted.distinct⟩
    obtain ⟨other, inRest, same⟩ := List.mem_map.mp again
    refine accounted.unfinished other inRest row succeeded.member ?_ succeeded.status
    rw [succeeded.ofRun, same, ofUnit]
  case unfinished =>
    rw [fresh]
    refine List.forall_mem_cons.mpr ⟨ofUnit ▸ unfinished, fun other inRest => ?_⟩
    exact unfinished_before future (accounted.unfinished other inRest)
  case reused =>
    rw [all]
    refine List.forall_mem_cons.mpr ⟨fun impossible => ?_, accounted.reused⟩
    rw [isFresh] at impossible
    cases impossible
  case counted =>
    rw [fresh]
    exact List.forall_mem_cons.mpr ⟨ofUnit ▸ counted, accounted.counted⟩
  case ofUnits =>
    rw [fresh]
    refine List.forall_mem_cons.mpr ⟨runIds_cons.mpr (.inl (by rw [ofUnit])), fun other inRest => ?_⟩
    exact runIds_cons.mpr (.inr (accounted.ofUnits other inRest))
  case reached =>
    rw [fresh]
    intro y member reached
    rcases List.mem_cons.mp member with rfl | inRest
    · exact ⟨r, List.mem_cons_self .., by rw [ofUnit]⟩
    · obtain ⟨other, at_other, same⟩ := accounted.reached y inRest reached
      exact ⟨other, List.mem_cons_of_mem _ at_other, same⟩

/-- **The run lemma.** The results of every sequential history are accounted for. -/
theorem Sequential.accounted (noCollisions : NoCollisions) {s s' : WarehouseSystem}
    {invocations : List Invocation} (reachable : Reachable s)
    (sequential : Sequential s invocations s') : Accounted s s' invocations := by
  induction invocations generalizing s with
  | nil => constructor <;> simp [freshResults, results]
  | cons x rest ih =>
      obtain ⟨before, ran, after⟩ := sequential
      obtain ⟨reachable₁, toLaunch⟩ := reachable.run before
      obtain ⟨reachable₂, toEnd⟩ := reachable₁.run ran.run
      obtain ⟨reachable', later⟩ := reachable₂.run after.run
      have accounted := ih reachable₂ after
      cases result : x.result with
      | none =>
          refine accounted.silent (toLaunch.trans toEnd) (fun r same => ?_) fun reached => ?_
          · rw [result] at same
            cases same
          · rw [Invocation.Reached, result] at reached
            cases reached.1
      | some r =>
          obtain ⟨ofUnit, ⟨row, succeeded, reports⟩, unfinished⟩ := ran.returned reachable₁ result
          have counts := reports.counts
          cases isReused : r.reusedSuccess with
          | true =>
              rw [isReused] at counts
              refine accounted.silent (toLaunch.trans toEnd) (fun r' same => ?_) fun reached => ?_
              · rw [result] at same
                cases same
                exact ⟨isReused, counts⟩
              · rw [ran.fresh reachable₁ result reached] at isReused
                cases isReused
          | false =>
              rw [isReused] at counts
              obtain ⟨contents, transitions⟩ :=
                (succeeded.mono later).owned noCollisions reachable'.orderly
              exact accounted.report (toLaunch.trans toEnd) result isReused ofUnit
                (unfinished_before toLaunch (unfinished isReused)) succeeded
                ⟨Option.some.inj (counts.1.symm.trans contents),
                  Option.some.inj (counts.2.symm.trans transitions)⟩

/-! ## Sums -/

/-- The sum of a count over the results of a history that is accounted for, when the count is zero
for reused results and a count of the tables for the others. -/
theorem Accounted.sum_eq {s s' : WarehouseSystem} {invocations : List Invocation}
    (accounted : Accounted s s' invocations) {count : IngestionResult → Nat} {owned : String → Nat}
    (reused : ∀ r ∈ results invocations, r.reusedSuccess = true → count r = 0)
    (counted : ∀ r ∈ freshResults invocations, count r = owned r.unit.runId) :
    ((results invocations).map count).sum =
      ∑ runId ∈ ((freshResults invocations).map (·.unit.runId)).toFinset, owned runId := by
  have onlyFresh : ∀ rs : List IngestionResult, (∀ r ∈ rs, r.reusedSuccess = true → count r = 0) →
      (rs.map count).sum = ((rs.filter fun r => !r.reusedSuccess).map count).sum := by
    intro rs zero
    induction rs with
    | nil => rfl
    | cons r rs ih =>
        obtain ⟨here, later⟩ := List.forall_mem_cons.mp zero
        cases isReused : r.reusedSuccess with
        | true => simp [isReused, here isReused, ih later]
        | false => simp [isReused, ih later]
  rw [List.sum_toFinset _ accounted.distinct, List.map_map, onlyFresh _ reused]
  exact congrArg List.sum (List.map_congr_left counted)

/-- **The sums.** They are at most what the runs own, and exactly that when each run that owns
something is reported. -/
theorem Accounted.sum_le {s s' : WarehouseSystem} {invocations : List Invocation}
    (accounted : Accounted s s' invocations) {count : IngestionResult → Nat} {owned : String → Nat}
    (reused : ∀ r ∈ results invocations, r.reusedSuccess = true → count r = 0)
    (counted : ∀ r ∈ freshResults invocations, count r = owned r.unit.runId) :
    ((results invocations).map count).sum ≤ ∑ runId ∈ runIds invocations, owned runId ∧
      ((∀ runId ∈ runIds invocations, 0 < owned runId →
          ∃ x ∈ invocations, x.unit.runId = runId ∧ x.Reached) →
        ((results invocations).map count).sum = ∑ runId ∈ runIds invocations, owned runId) := by
  have within : ((freshResults invocations).map (·.unit.runId)).toFinset ⊆ runIds invocations := by
    intro runId member
    obtain ⟨r, isFresh, rfl⟩ := List.mem_map.mp (List.mem_toFinset.mp member)
    exact accounted.ofUnits r isFresh
  rw [accounted.sum_eq reused counted]
  refine ⟨Finset.sum_le_sum_of_subset within, fun all => Finset.sum_subset within ?_⟩
  intro runId member unreported
  by_contra owns
  obtain ⟨x, at_x, rfl, reached⟩ := all runId member (Nat.pos_of_ne_zero owns)
  obtain ⟨r, isFresh, same⟩ := accounted.reached x at_x reached
  exact unreported (List.mem_toFinset.mpr (List.mem_map.mpr ⟨r, isFresh, same⟩))

/-- **Reported new rows are never counted twice.** In every sequential history of invocations of
units, at most one returned result of a run is not a reused one, and the reported contents and
transitions are at most those that the runs own. They are equal when each run that owns rows
succeeded while an invocation that returned was ingesting it. -/
theorem reported_once (noCollisions : NoCollisions) {s s' : WarehouseSystem}
    {invocations : List Invocation} (reachable : Reachable s)
    (sequential : Sequential s invocations s') :
    ((freshResults invocations).map (·.unit.runId)).Nodup ∧
    ((results invocations).map (·.newContents)).sum ≤
      ∑ runId ∈ runIds invocations, ownedContents s'.world.store runId ∧
    ((results invocations).map (·.newTransitions)).sum ≤
      ∑ runId ∈ runIds invocations, ownedTransitions s'.world.store runId ∧
    ((∀ runId ∈ runIds invocations,
        0 < ownedContents s'.world.store runId ∨ 0 < ownedTransitions s'.world.store runId →
        ∃ x ∈ invocations, x.unit.runId = runId ∧ x.Reached) →
      ((results invocations).map (·.newContents)).sum =
          ∑ runId ∈ runIds invocations, ownedContents s'.world.store runId ∧
        ((results invocations).map (·.newTransitions)).sum =
          ∑ runId ∈ runIds invocations, ownedTransitions s'.world.store runId) := by
  have accounted := sequential.accounted noCollisions reachable
  obtain ⟨fewContents, allContents⟩ := accounted.sum_le
    (fun r member isReused => (accounted.reused r member isReused).1)
    (fun r member => (accounted.counted r member).1)
  obtain ⟨fewTransitions, allTransitions⟩ := accounted.sum_le
    (fun r member isReused => (accounted.reused r member isReused).2)
    (fun r member => (accounted.counted r member).2)
  refine ⟨accounted.distinct, fewContents, fewTransitions, fun all => ?_⟩
  exact ⟨allContents fun runId member owns => all runId member (.inl owns),
    allTransitions fun runId member owns => all runId member (.inr owns)⟩

/-! ## A small history -/

/-- The returned result of a unit that reports a number of new contents. -/
def reportsContents (count : Nat) : Except Exn Returned → Bool
  | .ok (.result r) => r.newContents = count
  | _ => false

omit [Platform] in
theorem reportsContents_iff {count : Nat} {result : Except Exn Returned} :
    reportsContents count result = true ↔
      ∃ r, result = .ok (.result r) ∧ r.newContents = count := by
  rcases result with e | r
  · simp [reportsContents]
  · cases r <;> simp [reportsContents]

/-- The run of a unit alone after a state. -/
abbrev runAfter (s : WarehouseSystem) (unit : IngestionUnit)
    (outside : (request : Outside) → Except Exn request.Reply) :
    Program.Outcome ClientCall ClientAnswer Exn Cloud Returned :=
  alone outside [] (Launch.start (.executeUnit sampleToday unit)) s.world

/-- The invocation that ran alone after a state and returned a result. -/
def invocationAfter (s : WarehouseSystem) (i : Nat) (unit : IngestionUnit)
    (outside : (request : Outside) → Except Exn request.Reply) (result : IngestionResult) :
    Invocation :=
  ⟨s, s.finish i (.executeUnit sampleToday unit) [] (runAfter s unit outside), i, sampleToday, unit,
    (runAfter s unit outside).events, some (.ok result)⟩

theorem invocationAfter_ran {s : WarehouseSystem} (reachable : Reachable s) {i : Nat}
    (unused : s.processes i = none) {unit : IngestionUnit}
    {outside : (request : Outside) → Except Exn request.Reply} {result : IngestionResult}
    (returned : (runAfter s unit outside).result = .ok (.result result)) :
    (invocationAfter s i unit outside result).Ran := by
  have at_end : (s.finish i (.executeUnit sampleToday unit) [] (runAfter s unit outside)).processes
      i = some ⟨.executeUnit sampleToday unit, (runAfter s unit outside).events,
        some (.done (.ok (.result result)))⟩ := by
    simp [WarehouseSystem.finish, returned]
  exact ⟨unused, reachable.launched unused _ outside [], at_end⟩

/-- The warehouse after the unit for the load was executed. -/
def afterLoad : WarehouseSystem :=
  bootstrapped.finish 1 (.executeUnit sampleToday sampleUnit) []
    (runAfter bootstrapped sampleUnit sampleOutside)

/-- The warehouse after it was executed again. -/
def afterReload : WarehouseSystem :=
  afterLoad.finish 2 (.executeUnit sampleToday sampleUnit) []
    (runAfter afterLoad sampleUnit sampleOutside)

omit [Platform] in
set_option maxRecDepth 10000 in
theorem sampleInvocations_report : letI := Platform.plain
    reportsContents 1 (runAfter bootstrapped sampleUnit sampleOutside).result = true ∧
    reportsContents 0 (runAfter afterLoad sampleUnit sampleOutside).result = true ∧
    reportsContents 1 (runAfter afterReload samplePriceUnit priceOutside).result = true :=
  ⟨by rfl, by rfl, by rfl⟩

omit [Platform] in
/-- A unit that was ingested, executed again, and followed by another unit. -/
theorem reported_once_sample :
    letI := Platform.plain
    ∃ (s' : WarehouseSystem) (invocations : List Invocation),
      (results invocations).map (·.newContents) = [1, 0, 1] ∧
      2 ≤ ∑ runId ∈ runIds invocations, ownedContents s'.world.store runId := by
  let _ := Platform.plain
  obtain ⟨first, second, third⟩ := sampleInvocations_report
  obtain ⟨r₁, returned₁, new₁⟩ := reportsContents_iff.mp first
  obtain ⟨r₂, returned₂, new₂⟩ := reportsContents_iff.mp second
  obtain ⟨r₃, returned₃, new₃⟩ := reportsContents_iff.mp third
  have ran₁ := invocationAfter_ran bootstrapped_reachable (i := 1) rfl returned₁
  have reachable₁ : Reachable afterLoad := (bootstrapped_reachable.run ran₁.run).1
  have ran₂ := invocationAfter_ran reachable₁ (i := 2) rfl returned₂
  have reachable₂ : Reachable afterReload := (reachable₁.run ran₂.run).1
  have ran₃ := invocationAfter_ran reachable₂ (i := 3) rfl returned₃
  let invocations := [invocationAfter bootstrapped 1 sampleUnit sampleOutside r₁,
    invocationAfter afterLoad 2 sampleUnit sampleOutside r₂,
    invocationAfter afterReload 3 samplePriceUnit priceOutside r₃]
  let s' := (invocationAfter afterReload 3 samplePriceUnit priceOutside r₃).ended
  have sequential : Sequential bootstrapped invocations s' :=
    ⟨.refl, ran₁, .refl, ran₂, .refl, ran₃, .refl⟩
  have counts : (results invocations).map (·.newContents) = [1, 0, 1] := by
    show [r₁.newContents, r₂.newContents, r₃.newContents] = [1, 0, 1]
    rw [new₁, new₂, new₃]
  obtain ⟨_, few, _⟩ := reported_once noCollisions_plain bootstrapped_reachable sequential
  rw [counts] at few
  exact ⟨s', invocations, counts, few⟩

end PowerMarket
