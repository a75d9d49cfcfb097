import PowerMarket.CommitOnce
import PowerMarket.Warehouse.Origins

/-!
# Runs and their requests

From its manifest on a run belongs to one request. The manifest never shows another one
(`Reachable.binding_kept`), all rows of the run lie in the tables, on the day and at the hub of that
request (`InRequest`), and a call of the run for another request changes no table and raises
(`Refused`). The theorem `run_binding` states this of every reachable state.
-/

set_option autoImplicit false

namespace PowerMarket

open Library JobService

variable [Platform]

/-! ## Calls for a request -/

/-- The calls that begin, ingest or persist a request under a run id. -/
inductive ForRequest (request : Request) (runId : String) : Launch → Prop where
  | begin : ForRequest request runId (.begin request runId)
  | ingest : ForRequest request runId (.ingest request runId)
  | persist (records : List Observation) : ForRequest request runId (.persist request records runId)

/-- The manifest of a run shows a request. -/
def BoundTo (request : Request) (runId : String) (w : Cloud) : Prop :=
  ∃ row ∈ w.store.runs, row.runId = runId ∧ row.requestId = request.requestId

omit [Platform] in
theorem RunProgress.requestId {row row' : RunRow} (progress : RunProgress row row') :
    row'.requestId = row.requestId := congrArg (fun b => b.2.1) progress.binding

theorem BoundTo.mono {request : Request} {runId : String} {w w' : Cloud}
    (bound : BoundTo request runId w) (future : Future w w') : BoundTo request runId w' := by
  obtain ⟨row, member, ofRun, ofRequest⟩ := bound
  obtain ⟨row', member', progress⟩ := future.before.run member
  exact ⟨row', member', progress.runId.trans ofRun, progress.requestId.trans ofRequest⟩

theorem ManifestRead.boundTo {base : Database} {w : Cloud} {request : Request} {runId : String}
    {manifest : RunRow} (read : ManifestRead base w runId (some manifest))
    (ofRequest : manifest.requestId = request.requestId) : BoundTo request runId w := by
  obtain ⟨ofRun, past, _, before, member⟩ := read.past manifest rfl
  obtain ⟨row, member', progress⟩ := before.run member
  exact ⟨row, member', progress.runId.trans ofRun, progress.requestId.trans ofRequest⟩

/-- Until the run is bound to the request, a call submits nothing but a reading of the manifest or
an attempt to begin the run for the request. -/
def Asks (request : Request) (runId : String) (w : Cloud) (c : ClientCall) : Prop :=
  (∀ name script, c = .query name script →
    script = .getRun runId ∨ script = .beginRun (newRun request runId)) ∨ BoundTo request runId w

section Calls

variable {request : Request} {runId : String} {w : Cloud}

theorem asks_passive : Passive (Asks request runId) :=
  fun _ _ notQuery => .inl fun name script same => absurd same (notQuery name script)

theorem asks_getRun : Asks request runId w (.query none (.getRun runId)) := by
  left
  rintro _ _ ⟨⟩
  exact .inl rfl

theorem asks_begin :
    Asks request runId w (.query (some (jobId runId "begin")) (.beginRun (newRun request runId))) := by
  left
  rintro _ _ ⟨⟩
  exact .inr rfl

theorem BoundTo.safe {α : Type} (bound : BoundTo request runId w) (program : Client α) :
    protocol.Safe (Asks request runId) (fun _ v => BoundTo request runId v) program w :=
  .always program (fun _ _ future _ => .inr (bound.mono future)) (fun _ _ future _ => bound.mono future)

theorem begin_bound : protocol.Safe (Asks request runId)
    (fun result v => ∀ a, result = .ok a → BoundTo request runId v) (begin request runId) w := by
  refine (begin_safe asks_passive (fun _ _ _ => asks_getRun) fun _ _ _ _ => asks_begin).weaken
    (fun _ _ _ allowed => allowed) ?_
  intro result v _ _ read manifest same
  obtain ⟨manifestRead, ofRequest⟩ := read manifest same
  exact manifestRead.boundTo ofRequest

theorem ingest_bound : protocol.Safe (Asks request runId)
    (fun result v => ∀ a, result = .ok a → BoundTo request runId v) (ingest request runId) w := by
  unfold ingest
  refine .bind begin_bound (fun manifest v _ _ bound => ?_)
    (fun _ _ _ _ impossible => by cases impossible)
  exact ((bound manifest rfl).safe _).weaken (fun _ _ _ allowed => allowed)
    fun _ _ _ _ holds _ _ => holds

theorem persist_bound {records : List Observation} : protocol.Safe (Asks request runId)
    (fun result v => ∀ a, result = .ok a → BoundTo request runId v)
    (persist request records runId) w := by
  unfold persist
  refine .bind (getRun_safe asks_passive fun _ _ _ => asks_getRun) (fun found v _ _ read => ?_)
    (fun _ _ _ _ impossible => by cases impossible)
  split_ifs with differs
  · exact .done fun _ _ _ _ impossible => by cases impossible
  · obtain ⟨manifest, rfl, ofRequest⟩ := Option.map_eq_some_iff.mp (not_not.mp differs)
    exact (((read _ rfl).boundTo ofRequest).safe _).weaken (fun _ _ _ allowed => allowed)
      fun _ _ _ _ holds _ _ => holds

/-- **A call for a request** returns only when the run is bound to it. -/
theorem ForRequest.safe {l : Launch} (forRequest : ForRequest request runId l) :
    protocol.Safe (Asks request runId)
      (fun result v => ∀ a, result = .ok a → BoundTo request runId v) l.start w := by
  have mapped : ∀ {program : Client RunRow}, protocol.Safe (Asks request runId)
      (fun result v => ∀ a, result = .ok a → BoundTo request runId v) program w →
      protocol.Safe (Asks request runId)
        (fun result v => ∀ a, result = .ok a → BoundTo request runId v)
        (Returned.manifest <$> program) w := by
    intro program safe
    refine .bind safe (fun manifest v _ _ bound => ?_)
      (fun _ _ _ _ impossible => by cases impossible)
    exact .done fun v' future _ _ _ => (bound manifest rfl).mono future
  cases forRequest with
  | begin => exact mapped begin_bound
  | ingest => exact mapped ingest_bound
  | persist records => exact mapped persist_bound

end Calls

/-- **A unit that returns** has its run bound to its request. -/
theorem executeUnit_bound {today : Date} {unit : IngestionUnit} {w : Cloud} :
    protocol.Safe (fun _ _ => True) (fun result v => ∀ r, result = .ok r →
      ∃ request, unit.request today = .ok request ∧ BoundTo request unit.runId v)
      (executeUnit today unit) w := by
  cases requested : unit.request today with
  | error e =>
      rw [executeUnit, requested]
      exact .done fun _ _ _ _ impossible => by cases impossible
  | ok request =>
      by_cases valid : isRunId unit.runId = true
      · rw [executeUnit_eq requested valid]
        refine .sequence (.unrestricted _) fun result v _ _ _ => ?_
        rcases result with e | prior
        · exact .done fun _ _ _ _ impossible => by cases impossible
        have block : protocol.Safe (fun _ _ => True) (fun result v' => ∀ row, result = .ok row →
            BoundTo request unit.runId v')
            (tryCatchThe Exn (ingest request unit.runId) fun e => do
              let state ← manifestState unit.runId
              throw (ingestFailed unit e state)) v := by
          refine .tryCatch (ingest_bound.weaken (fun _ _ _ _ => trivial) fun _ _ _ _ bound => bound)
            (fun row v' _ _ bound v'' later _ _ _ => (bound row rfl).mono later)
            (fun e v' _ _ _ => ?_)
          refine .sequence (.unrestricted _) fun result v'' _ _ _ => ?_
          rcases result with e' | state
          · exact .done fun _ _ _ _ impossible => by cases impossible
          · exact .done fun _ _ _ _ impossible => by cases impossible
        refine .sequence block fun result v' _ _ bound => ?_
        rcases result with e | row
        · exact .done fun _ _ _ _ impossible => by cases impossible
        rw [Program.afterValue_ok]
        split_ifs
        · exact .done fun _ _ _ _ impossible => by cases impossible
        · cases reported : resultOf unit prior row with
          | error e => exact .done fun _ _ _ _ impossible => by cases impossible
          | ok r => exact .done fun v'' later _ _ _ => ⟨request, rfl, (bound row rfl).mono later⟩
      · rw [executeUnit, requested, validateRunId, if_neg valid]
        exact .done fun _ _ _ _ impossible => by cases impossible

/-! ## The manifest -/

/-- **A manifest keeps its request.** In every later state the run has one manifest, and it shows
the same request id, product, date and hub. -/
theorem Reachable.binding_kept {s s' : WarehouseSystem} (reachable : Reachable s)
    (run : SystemRun s s') {row : RunRow} (member : row ∈ s.world.store.runs) :
    (∃ row' ∈ s'.world.store.runs, row'.runId = row.runId) ∧
      ∀ row' ∈ s'.world.store.runs, row'.runId = row.runId → row'.binding = row.binding := by
  obtain ⟨reachable', future⟩ := reachable.run run
  obtain ⟨later, at_later, progress⟩ := future.before.run member
  refine ⟨⟨later, at_later, progress.runId⟩, fun row' member' ofRun => ?_⟩
  have same := run_unique reachable'.orderly.good.unique member' at_later
    (ofRun.trans progress.runId.symm)
  rw [same]
  exact progress.binding

/-! ## The rows -/

/-- The hub of measured values. -/
def Values.hub : Values → Option String
  | .lmp _ location .. => some location
  | .load .. => none

theorem hub_of_admissible {request : Request} {record : Observation}
    (admissible : Admissible request record) :
    (valuesOf record).hub = request.location.map Hub.text := by
  have hub := admissible.hub
  cases record with
  | lmp record =>
      have located : request.location = some record.location := by simpa [outsideHub] using hub
      rw [located]
      rfl
  | load record =>
      have product : request.product ≠ .lmp := by simpa [Observation.isLmp] using admissible.product
      have unlocated : request.location = none := by
        cases location : request.location with
        | none => rfl
        | some hub => exact absurd (request.supported.mp (by rw [location]; rfl)) product
      rw [unlocated]
      rfl

/-- All rows of a run lie in the tables of the product of its manifest, on the requested day and,
for prices, at the requested hub. A transition is at the hub of the content that it refers to. -/
structure InRequest (db : Database) (row : RunRow) : Prop where
  contents : ∀ product, ∀ content ∈ db.contents product, content.firstRunId = row.runId →
    product = row.product ∧ content.marketDate = row.requestedDate ∧
      content.values.hub = row.requestedLocation.map Hub.text
  transitions : ∀ product, ∀ transition ∈ db.transitions product, transition.runId = row.runId →
    product = row.product ∧ transition.marketDate = row.requestedDate ∧
      ∃ content ∈ db.contents product, content.contentId = transition.contentId ∧
        content.values.hub = row.requestedLocation.map Hub.text

/-- The values of one logical key are at one hub. -/
theorem hub_of_key (noCollisions : NoCollisions) {a b : Observation}
    (same : a.logicalKey = b.logicalKey) : (valuesOf a).hub = (valuesOf b).hub := by
  have hubs := ((logicalKey_eq_iff noCollisions).mp same).hub
  have texts : ∀ record : Observation, (valuesOf record).hub = record.hub.map Hub.text := by
    intro record
    cases record <;> rfl
  rw [texts a, texts b, hubs]

/-- **The rows of a run lie in its request** in every good state. -/
theorem Good.inRequest (noCollisions : NoCollisions) {db : Database} (good : Good db)
    {row : RunRow} (member : row ∈ db.runs) : InRequest db row := by
  have written : ∀ {product row' request record}, Written db product row' request record →
      row'.runId = row.runId → product = row.product ∧ request.day = row.requestedDate ∧
        (valuesOf record).hub = row.requestedLocation.map Hub.text := by
    intro product row' request record written ofRun
    obtain rfl := run_unique good.unique written.member member ofRun
    refine ⟨written.product.symm.trans written.runProduct.symm, written.date.symm, ?_⟩
    rw [written.location, hub_of_admissible written.admissible]
  constructor
  case contents =>
    intro product content at_content ofRun
    obtain ⟨row', request, record, origin, ofRow, isRow, _⟩ :=
      good.content_origin noCollisions at_content
    obtain ⟨ofProduct, day, hub⟩ := written origin (ofRow.symm.trans ofRun)
    refine ⟨ofProduct, (congrArg BatchRow.marketDate isRow).trans day, ?_⟩
    exact (congrArg (fun batch => batch.values.hub) isRow).trans hub
  case transitions =>
    intro product transition at_transition ofRun
    obtain ⟨row', request, record, sequence, ordinal, origin, isTransition, _⟩ :=
      good.transition_origin noCollisions at_transition
    have ofRow : transition.runId = row'.runId := congrArg TransitionRow.runId isTransition
    have ofDay : transition.marketDate = request.day :=
      congrArg TransitionRow.marketDate isTransition
    have ofContent : transition.contentId = contentId record :=
      congrArg TransitionRow.contentId isTransition
    obtain ⟨ofProduct, day, hub⟩ := written origin (ofRow.symm.trans ofRun)
    refine ⟨ofProduct, ofDay.trans day, ?_⟩
    have seeded : db ≠ .created := by
      rintro rfl
      cases member
    obtain ⟨_, _, _, _, law⟩ := good.history noCollisions seeded
    obtain ⟨content, at_content, same, _⟩ :=
      (law product).catalogue.references transition at_transition
    refine ⟨content, at_content, same, ?_⟩
    obtain ⟨_, record', _, isRow⟩ := (law product).catalogue.content content at_content
    have ids : contentId record' = contentId record :=
      (congrArg BatchRow.contentId isRow).symm.trans (same.trans ofContent)
    rw [show content.values = valuesOf record' from congrArg BatchRow.values isRow,
      hub_of_key noCollisions (contentId_injective noCollisions ids).1, hub]

/-! ## Calls for another request -/

/-- **Calls for another request.** When the run has a manifest in a state, a call of the run for
another request has returned nothing but an error until then, and no job with a script that such a
call submitted has changed a table until then, no matter which of them was there first. -/
structure Refused (s : WarehouseSystem) (row : RunRow) : Prop where
  raises : ∀ i l request history result, ForRequest request row.runId l →
    request.requestId ≠ row.requestId → s.processes i = some ⟨l, history, some (.done result)⟩ →
    ∃ e, result = .error e
  unchanged : ∀ s₁ i l request history name script next t t', Reachable s₁ →
    ForRequest request row.runId l → request.requestId ≠ row.requestId →
    s₁.processes i = some ⟨l, history, some (.call (.query name script) next)⟩ →
    SystemRun s₁ t → SystemStep t t' → SystemRun t' s →
    ∀ id rows time usage, TakesEffect t.world t'.world id script rows time usage →
      t'.world.store = t.world.store

/-- What asking changes is that the run has a manifest for the request. -/
theorem Effect.asked {db after : Database} {script : Script}
    (effect : Effect db script after) {request : Request} {runId : String}
    (asks : script = .getRun runId ∨ script = .beginRun (newRun request runId)) :
    after = db ∨ ∃ row ∈ after.runs, row.runId = runId ∧ row.requestId = request.requestId := by
  rcases asks with rfl | rfl
  · cases effect
    exact .inl rfl
  · cases effect with
    | idle => exact .inl rfl
    | begun now seeded fresh =>
        exact .inr ⟨_, List.mem_append_right _ (List.mem_singleton_self _), rfl, rfl⟩

/-- A call that was launched in any state of a run of the system keeps to what it does in all. -/
theorem Reachable.call_safe {s : WarehouseSystem} (reachable : Reachable s) {i : Nat} {l : Launch}
    {history : List (Event ClientCall ClientAnswer Exn)} {program : Client Returned}
    (at_i : s.processes i = some ⟨l, history, some program⟩) {request : Request} {runId : String}
    (forRequest : ForRequest request runId l) :
    (protocol.accepting fun _ _ => True).Safe (Asks request runId)
      (fun result v => ∀ a, result = .ok a → BoundTo request runId v) program s.world := by
  obtain ⟨clock, before⟩ := reachable
  have initial : Reachable (System.initial (Cloud.created clock)) := ⟨clock, .refl⟩
  exact initial.launched_safe rfl before at_i rfl fun _ _ _ => forRequest.safe

theorem Reachable.refused {s : WarehouseSystem} (reachable : Reachable s) {row : RunRow}
    (member : row ∈ s.world.store.runs) : Refused s row := by
  have other : ∀ {request : Request}, request.requestId ≠ row.requestId →
      ¬ BoundTo request row.runId s.world := by
    rintro request differs ⟨row', member', ofRun, ofRequest⟩
    have same := run_unique reachable.orderly.good.unique member' member ofRun
    rw [same] at ofRequest
    exact differs ofRequest.symm
  constructor
  case raises =>
    intro i l request history result forRequest differs at_i
    cases result with
    | error e => exact ⟨e, rfl⟩
    | ok a =>
        have returned := reachable.call_safe at_i forRequest s.world (.refl _) reachable.orderly
        exact absurd (returned a rfl) (other differs)
  case unchanged =>
    intro s₁ i l request history name script next t t' reachable₁ forRequest differs at_i run step
      after id rows time usage takes
    obtain ⟨reachableT, toT⟩ := reachable₁.run run
    obtain ⟨reachableT', fromT⟩ := reachableT.run (.single step)
    have later := (reachableT'.run after).2
    have asked := (reachable₁.call_safe at_i forRequest s₁.world (.refl _) reachable₁.orderly).1
    have only := asked.resolve_right fun bound =>
      other differs (((bound.mono toT).mono fromT).mono later)
    rcases takes.effect.asked (only name script rfl) with same | bound
    · exact same
    · exact absurd (BoundTo.mono bound later) (other differs)

/-! ## Run and request -/

/-- **Run and request belong together.** In every reachable state, from its manifest on a run shows
the same request; its rows lie in the tables, on the day and at the hub of that request; and every
call of the run for another request changes no table and raises. -/
theorem run_binding (noCollisions : NoCollisions) {s : WarehouseSystem} (reachable : Reachable s) :
    ∀ row ∈ s.world.store.runs,
      (∀ s', SystemRun s s' → (∃ row' ∈ s'.world.store.runs, row'.runId = row.runId) ∧
        ∀ row' ∈ s'.world.store.runs, row'.runId = row.runId → row'.requestId = row.requestId ∧
          row'.product = row.product ∧ row'.requestedDate = row.requestedDate ∧
          row'.requestedLocation = row.requestedLocation) ∧
      InRequest s.world.store row ∧ Refused s row := by
  intro row member
  refine ⟨fun s' run => ?_, reachable.orderly.good.inRequest noCollisions member,
    reachable.refused member⟩
  obtain ⟨still, kept⟩ := reachable.binding_kept run member
  refine ⟨still, fun row' member' ofRun => ?_⟩
  have same := kept row' member' ofRun
  simp only [RunRow.binding, Prod.mk.injEq] at same
  exact same.2

set_option maxRecDepth 4000 in
omit [Platform] in
/-- A run with its rows. -/
theorem run_binding_sample :
    letI := Platform.plain
    ∃ s : WarehouseSystem, s.world.store.contents .load ≠ [] ∧
      ∃ row ∈ s.world.store.runs, row.status = .succeeded ∧ InRequest s.world.store row ∧
        Refused s row := by
  have reachable := @ingested_reachable Platform.plain
  have binding := @run_binding Platform.plain noCollisions_plain _ reachable
  have succeeded : (@ingested Platform.plain).world.store.runs.map (·.status) = [.succeeded] := by
    rfl
  have counted : ((@ingested Platform.plain).world.store.contents .load).length = 1 := by rfl
  have first : .succeeded ∈ (@ingested Platform.plain).world.store.runs.map (·.status) := by
    rw [succeeded]
    exact List.mem_singleton_self _
  obtain ⟨row, member, status⟩ := List.mem_map.mp first
  refine ⟨_, fun empty => ?_, row, member, status, (binding row member).2⟩
  rw [empty] at counted
  cases counted

end PowerMarket
