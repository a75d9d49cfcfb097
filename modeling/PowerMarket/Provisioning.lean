import PowerMarket.Creation
import PowerMarket.Library.Registries
import PowerMarket.Library.Views
import PowerMarket.Submissions

/-!
# Creating the warehouse

The dataset and the tables stand beside the job service. A client can only ask for them: what is
missing is made, and what is there stays as it is, be it the project's own or not. Others may make
something of the same name at any moment. `provisioning` collects the rules. A table is asked for
only in a dataset that passed its checks, and the control row is seeded only when every table passed
its own.

Nothing is ever written that is not preceded by the control row, so the tables are empty as long as
anything is missing or different from its declaration, whatever runs at the same time
(`provisioned`).
-/

set_option autoImplicit false

namespace PowerMarket

open Library JobService

/-! ## Resources -/

/-- What the warehouse consists of. -/
inductive Resource where
  | dataset
  | table (name : String)
  deriving DecidableEq

/-- What the service tells about a resource. -/
@[reducible] def Resource.Info : Resource → Type
  | .dataset => DatasetInfo
  | .table _ => TableInfo

/-- The resources that exist. -/
abbrev Resources := Registry Resource.Info

/-- The resources as a service: two calls ask for them, and others may make them, too. -/
def resourceService : Service Resources ClientCall ClientAnswer Exn where
  act
    | .outside .createDataset, resources, reply, after => resources.Asked .dataset reply after
    | .outside (.createTable name), resources, reply, after =>
      resources.Asked (.table name) reply after
    | _, resources, _, after => after = resources
  background := Registry.Grows

theorem resourceService_grows {c : ClientCall} {resources after : Resources}
    {reply : Except Exn (ClientAnswer c)} (acted : resourceService.act c resources reply after) :
    resources.Grows after := by
  have idle : ∀ {after : Resources}, after = resources → resources.Grows after := by
    rintro _ rfl
    exact .refl _
  cases c with
  | outside request =>
      cases request with
      | fetch request => exact idle acted
      | createDataset => exact Registry.Asked.grows acted
      | createTable name => exact Registry.Asked.grows acted
  | query name script | getJob name | result id | reload id => exact idle acted

variable [Platform]

/-- The dataset exists and passes its checks. -/
def OwnDataset (resources : Resources) : Prop :=
  ∃ info, resources .dataset = some info ∧ checkDataset info = .ok ()

omit [Platform] in
/-- A table exists as it is declared. -/
def AsDeclared (resources : Resources) (table : String × List Field) : Prop :=
  ∃ info, resources (.table table.1) = some info ∧ checkTable table.1 table.2 info = .ok ()

/-- The dataset and all tables are as they should be. -/
structure Conforms (resources : Resources) : Prop where
  dataset : OwnDataset resources
  tables : ∀ table ∈ tables, AsDeclared resources table

theorem OwnDataset.mono {resources after : Resources} (own : OwnDataset resources)
    (grows : resources.Grows after) : OwnDataset after := by
  obtain ⟨info, there, checked⟩ := own
  exact ⟨info, grows _ _ there, checked⟩

omit [Platform] in
theorem AsDeclared.mono {resources after : Resources} {table : String × List Field}
    (declared : AsDeclared resources table) (grows : resources.Grows after) :
    AsDeclared after table := by
  obtain ⟨info, there, checked⟩ := declared
  exact ⟨info, grows _ _ there, checked⟩

theorem Conforms.mono {resources after : Resources} (conforms : Conforms resources)
    (grows : resources.Grows after) : Conforms after :=
  ⟨conforms.dataset.mono grows, fun table member => (conforms.tables table member).mono grows⟩

/-! ## The rules -/

/-- The job service with the resources beside it. -/
abbrev provisionedService : Service (Cloud × Resources) ClientCall ClientAnswer Exn :=
  cloudService.beside resourceService

/-- A table is asked for in a dataset of the project, and the control row is seeded when everything
is as it should be. -/
def Careful (resources : Resources) : ClientCall → Prop
  | .outside (.createTable _) => OwnDataset resources
  | .query _ .seedControl => Conforms resources
  | _ => True

/-- The seed job has been submitted, or something has been written. -/
def Sown (w : Cloud) : Prop :=
  (w.jobs (.named (jobId "bootstrap" "v1"))).isSome = true ∨ w.store ≠ .created

/-- The seed job has ended without error. -/
def SeedEnded (w : Cloud) : Prop :=
  ∃ rows time usage, w.jobs (.named (jobId "bootstrap" "v1")) =
    some ⟨.seedControl, .ended (.ok rows) time usage⟩

theorem SeedEnded.mono {w w' : Cloud} (ended : SeedEnded w) (future : Future w w') :
    SeedEnded w' := by
  obtain ⟨rows, time, usage, job⟩ := ended
  exact ⟨rows, time, usage, future.progress.ended job⟩

theorem SeedEnded.control {w : Cloud} (ended : SeedEnded w) (orderly : Orderly w) :
    w.store.control ≠ [] := by
  obtain ⟨rows, time, usage, job⟩ := ended
  obtain ⟨past, after, started, _, _, before, executed⟩ := orderly.consistent.answered job
  exact before.seeded (seedControl_control (of_execute executed))

theorem Sown.of_act {w w' : Cloud} {c : ClientCall} {reply : Except Exn (ClientAnswer c)}
    (orderly : Orderly w') (acted : JobService.act c w reply w') (sown : Sown w') :
    Sown w ∨ ∃ name, c = .query name .seedControl := by
  rcases act_cases acted with rfl | ⟨name, script, rfl, _, rfl⟩
  · exact .inl sown
  · by_cases seeds : .named (jobId "bootstrap" "v1") = w.submissionId name
    · have job : (w.submit (w.submissionId name) script).jobs (.named (jobId "bootstrap" "v1")) =
          some ⟨script, .pending⟩ := by
        rw [seeds]
        exact World.submit_self ..
      exact .inr ⟨name, by rw [(orderly.fixedJob job).of_seed]⟩
    · rcases sown with known | written
      · rw [World.submit_ne _ _ seeds] at known
        exact .inl (.inl known)
      · exact .inl (.inr written)

theorem Sown.of_background {w w' : Cloud} (orderly : Orderly w)
    (moved : Background bigQuery w w') (sown : Sown w') : Sown w := by
  rcases sown with known | written
  · obtain ⟨job', recorded⟩ := Option.isSome_iff_exists.mp known
    obtain ⟨job, before, _⟩ := moved.scripts recorded
    exact .inl (Option.isSome_iff_exists.mpr ⟨job, before⟩)
  · by_cases created : w.store = .created
    · rcases (orderly.background moved).2.2 with same | ⟨id, script, _, _, _, takes⟩
      · exact absurd (same.trans created) written
      · obtain ⟨started, running⟩ := takes.running
        have named := takes.named
        have effect := takes.effect
        have unseeded : ∀ {c : ControlRow}, ¬ Seeded w.store c := fun seeded => by
          have control := seeded.control
          rw [created] at control
          cases control
        generalize store : w'.store = after at effect
        cases effect with
        | idle => exact absurd (store.trans created) written
        | seeded =>
            cases id with
            | named name =>
                cases named
                exact .inl (Option.isSome_iff_exists.mpr ⟨_, running⟩)
            | generated n => cases named
        | begun now seeded => exact absurd seeded unseeded
        | committed seeded => exact absurd seeded unseeded
        | finalized now seeded => exact absurd seeded unseeded
        | failed now seeded => exact absurd seeded unseeded
    · exact .inr created

/-- The rules of the job service, and nothing is sown before everything is as it should be. -/
def provisioning : Protocol provisionedService where
  Inv w := Orderly w.1 ∧ (Sown w.1 → Conforms w.2)
  Future w w' := Future w.1 w'.1 ∧ w.2.Grows w'.2
  permits w c := Permits w.1 c ∧ Careful w.2 c
  refl w := ⟨.refl _, .refl _⟩
  trans ab bc := ⟨ab.1.trans bc.1, ab.2.trans bc.2⟩
  act_step := by
    rintro c w reply w' ⟨orderly, conforms⟩ ⟨permits, careful⟩ ⟨acted, asked⟩
    obtain ⟨orderly', future⟩ := orderly.act permits acted
    have grows := resourceService_grows asked
    refine ⟨⟨orderly', fun sown => ?_⟩, future, grows⟩
    rcases sown.of_act orderly' acted with before | ⟨name, rfl⟩
    · exact (conforms before).mono grows
    · exact Conforms.mono careful grows
  background_step := by
    rintro ⟨w, resources⟩ ⟨w', after⟩ ⟨orderly, conforms⟩ (⟨moved, same⟩ | ⟨same, grows⟩)
    · obtain ⟨orderly', future, _⟩ := orderly.background moved
      cases same
      exact ⟨⟨orderly', fun sown => conforms (sown.of_background orderly moved)⟩, future, .refl _⟩
    · cases same
      exact ⟨⟨orderly, fun sown => (conforms sown).mono grows⟩, .refl _, grows⟩

/-! ## The programs keep to the rules -/

omit [Platform] in
theorem provisionedService_shows : provisionedService.View cloudService Prod.fst :=
  Service.beside_left cloudService resourceService

/-- What is safe for the job service is safe beside the resources. -/
theorem safe_of_cloud {α : Type} {allowed : Cloud → ClientCall → Prop}
    {post : Except Exn α → Cloud → Prop} {program : Client α} {w : Cloud × Resources}
    (safe : protocol.Safe allowed post program w.1) :
    provisioning.Safe (fun v => allowed v.1) (fun result v => post result v.1) program w :=
  .of_view provisionedService_shows And.left And.left safe

theorem Conforms.careful {resources : Resources} (conforms : Conforms resources)
    (c : ClientCall) : Careful resources c := by
  cases c with
  | outside request =>
      cases request with
      | createTable name => exact conforms.dataset
      | fetch request | createDataset => trivial
  | query name script =>
      cases script with
      | seedControl => exact conforms
      | getRun _ | beginRun _ | snapshot _ _ | commit _ _ | finalize _ _ | failure _ => trivial
  | getJob name | result id | reload id => trivial

omit [Platform] in
theorem unseeding_serves : Serves fun script => script ≠ .seedControl where
  getRun _ := by simp
  beginRun _ := by simp
  snapshot _ _ := by simp
  commit _ _ := by simp
  finalize _ _ := by simp
  failure _ _ := by simp

theorem careful_of_working {c : ClientCall}
    (working : Working (fun script => script ≠ .seedControl) c) (resources : Resources) :
    Careful resources c := by
  obtain ⟨submits, fetches⟩ := working
  cases c with
  | outside request =>
      obtain ⟨wanted, rfl⟩ := fetches request rfl
      trivial
  | query name script =>
      have runs := submits name script rfl
      cases script with
      | seedControl => exact absurd rfl runs
      | getRun _ | beginRun _ | snapshot _ _ | commit _ _ | finalize _ _ | failure _ => trivial
  | getJob name | result id | reload id => trivial

theorem createDataset_safe {w : Cloud × Resources} :
    provisioning.Safe provisioning.permits (fun result v => ∀ info, result = .ok info →
      v.2 .dataset = some info) (call (.outside .createDataset)) w := by
  refine .perform fun v _ _ => ⟨⟨trivial, trivial⟩, ?_⟩
  rintro reply v' ⟨_, asked⟩ _ _ v'' later _ info rfl
  exact later.2 _ _ (Registry.Asked.returned asked)

theorem createTable_safe {name : String} {w : Cloud × Resources} (own : OwnDataset w.2) :
    provisioning.Safe provisioning.permits (fun result v => ∀ info, result = .ok info →
      v.2 (.table name) = some info) (call (.outside (.createTable name))) w := by
  refine .perform fun v future _ => ⟨⟨trivial, own.mono future.2⟩, ?_⟩
  rintro reply v' ⟨_, asked⟩ _ _ v'' later _ info rfl
  exact later.2 _ _ (Registry.Asked.returned asked)

/-- **Checking the tables** returns when all of them are as declared. -/
theorem checkTables_declared {declared : List (String × List Field)} {w : Cloud × Resources}
    (own : OwnDataset w.2) :
    provisioning.Safe provisioning.permits (fun result v => result = .ok () →
      ∀ table ∈ declared, AsDeclared v.2 table) (checkTables declared) w := by
  induction declared generalizing w with
  | nil => exact .done fun _ _ _ _ table member => by cases member
  | cons table declared ih =>
      refine .bind (createTable_safe own) (fun info v toV _ there => ?_)
        (fun _ _ _ impossible => by cases impossible)
      cases checked : checkTable table.1 table.2 info with
      | error e => exact .done fun _ _ _ impossible => by cases impossible
      | ok =>
          have here : AsDeclared v.2 table := ⟨info, there info rfl, checked⟩
          refine (ih (own.mono toV.2)).weaken (fun _ _ _ permitted => permitted) ?_
          intro result v' toV' _ others same other member
          rcases List.mem_cons.mp member with rfl | later
          · exact here.mono toV'.2
          · exact others same other later

/-- Submit the seed and wait for it. -/
def seeding : Client Unit := do
  let job ← query .seedControl (some (jobId "bootstrap" "v1"))
  let _ ← wait job
  return ()

/-- The body of `bootstrap`: the checks, and the seed after them. -/
def creating : Client Unit := do
  let dataset ← (call (.outside .createDataset) : Client DatasetInfo)
  Program.ofExcept (checkDataset dataset)
  checkTables tables
  seeding

/-- What `bootstrap` raises for a failure of its body. -/
def bootstrapFailed (e : Exn) : Client Unit :=
  if e.error.kind.isGoogleApiCallError then
    throw (.newFrom .warehouseError ("BigQuery bootstrap failed: " ++ e.error.name) e)
  else throw e

theorem bootstrap_eq : bootstrap = tryCatchThe Exn creating bootstrapFailed := rfl

theorem seeding_safe {w : Cloud} :
    protocol.Safe Permits (fun result v => result = .ok () → SeedEnded v) seeding w := by
  refine .bind (query_some_safe permits_passive fun _ _ _ =>
    ⟨rfl, trivial, fun _ _ impossible => by cases impossible⟩) (fun id v _ _ named => ?_)
    (fun _ _ _ impossible => by cases impossible)
  obtain rfl := named id rfl
  refine .bind (wait_safe permits_passive) (fun view v₁ _ _ seen => ?_)
    (fun _ _ _ impossible => by cases impossible)
  obtain ⟨script, rows, time, seen⟩ := seen view rfl
  refine .done fun v₂ toV₂ orderly _ => ?_
  have ended := seen.mono toV₂
  obtain rfl := (orderly.fixedJob ended.job).of_seed
  exact ⟨rows, time, view.usage, ended.job⟩

theorem creating_provisions {w : Cloud × Resources} :
    provisioning.Safe provisioning.permits (fun result v => result = .ok () →
      SeedEnded v.1) creating w := by
  refine .bind createDataset_safe (fun info v _ _ there => ?_)
    (fun _ _ _ impossible => by cases impossible)
  cases checked : checkDataset info with
  | error e => exact .done fun _ _ _ impossible => by cases impossible
  | ok =>
      have own : OwnDataset v.2 := ⟨info, there info rfl, checked⟩
      refine .bind (Q := fun _ u => v.2.Grows u.2) (.done fun _ future _ => future.2)
        (fun _ u _ _ grows => ?_) (fun _ _ _ impossible => by cases impossible)
      refine .bind (checkTables_declared (own.mono grows)) (fun _ v₁ toV₁ _ declared => ?_)
        (fun _ _ _ impossible => by cases impossible)
      have conforms : Conforms v₁.2 := ⟨(own.mono grows).mono toV₁.2, declared rfl⟩
      have careful : provisioning.Safe (fun v c => Careful v.2 c) (fun _ _ => True) seeding v₁ :=
        .always _ (fun _ c future _ => (conforms.mono future.2).careful c) fun _ _ _ _ => trivial
      exact ((safe_of_cloud seeding_safe).both careful).weaken (fun _ _ _ permitted => permitted)
        fun _ _ _ _ holds => holds.1

/-- **Creating the warehouse** returns when the seed has ended. -/
theorem bootstrap_provisions {w : Cloud × Resources} :
    provisioning.Safe provisioning.permits (fun result v => result = .ok () →
      SeedEnded v.1) bootstrap w := by
  rw [bootstrap_eq]
  refine .tryCatch creating_provisions ?_ fun e v _ _ _ => ?_
  · exact fun _ v _ _ seeded v' later _ _ => (seeded rfl).mono later.1
  · unfold bootstrapFailed
    split_ifs <;> exact .done fun _ _ _ impossible => by cases impossible

/-- **Every launched program keeps to the rules beside the resources.** -/
theorem Launch.provisions (launch : Launch) {w : Cloud × Resources} :
    provisioning.Safe provisioning.permits (fun _ _ => True) launch.start w := by
  by_cases creates : launch = .bootstrap
  · subst creates
    exact .bind bootstrap_provisions (fun _ _ _ _ _ => .done fun _ _ _ => trivial)
      (fun _ _ _ => trivial)
  · have careful : provisioning.Safe (fun v c => Careful v.2 c) (fun _ _ => True) launch.start w :=
      .of_calls (Launch.working unseeding_serves creates) fun v _ working =>
        careful_of_working working v.2
    exact ((safe_of_cloud launch.safe).both careful).weaken (fun _ _ _ permitted => permitted)
      fun _ _ _ _ _ => trivial

/-! ## The service that answers at once -/

/-- The name under which the service returns a type. -/
def Field.described (field : Field) : Field :=
  { field with kind := match field.kind with
    | "INT64" => "INTEGER"
    | "BOOL" => "BOOLEAN"
    | kind => kind }

/-- What the service makes when it is asked for a resource. -/
def made : (resource : Resource) → resource.Info
  | .dataset => ⟨Platform.config.location, some "power-market-data-platform", none, none⟩
  | .table name => ⟨((tables.lookup name).getD []).map Field.described, false, false, false, false⟩

/-- **What is made passes the checks.** -/
theorem made_conforms : checkDataset (made .dataset) = .ok () ∧
    ∀ table ∈ tables, checkTable table.1 table.2 (made (.table table.1)) = .ok () := by
  refine ⟨by simp [checkDataset, made], fun table member => ?_⟩
  have columns : ∀ table ∈ tables,
      (((tables.lookup table.1).getD []).map Field.described).map Field.normalize = table.2 := by
    decide
  simp [checkTable, made, columns table member]

/-- What is there under a name, or would be made. -/
def Resources.entry (resources : Resources) (resource : Resource) : resource.Info :=
  (resources resource).getD (made resource)

/-- The answers of the world outside: a source, and the resources. -/
def Resources.outside (source : Request → Except Exn (List Observation)) (resources : Resources) :
    (request : Outside) → Except Exn request.Reply
  | .fetch request => source request
  | .createDataset => .ok (resources.entry .dataset)
  | .createTable name => .ok (resources.entry (.table name))

/-- The resources after a call. -/
def Resources.afterCall (resources : Resources) : ClientCall → Resources
  | .outside .createDataset => resources.create .dataset (made .dataset)
  | .outside (.createTable name) => resources.create (.table name) (made (.table name))
  | _ => resources

/-- The services answer at once. -/
def provide (source : Request → Except Exn (List Observation)) (c : ClientCall)
    (w : Cloud × Resources) : Except Exn (ClientAnswer c) × Cloud × Resources :=
  ((answer (w.2.outside source) c w.1).1, (answer (w.2.outside source) c w.1).2, w.2.afterCall c)

/-- Answering at once is one of the behaviours of the services. -/
theorem provide_sound (source : Request → Except Exn (List Observation)) (c : ClientCall)
    (w : Cloud × Resources) (inv : provisioning.Inv w) :
    ∃ w', Relation.ReflTransGen provisionedService.background w w' ∧
      provisionedService.act c w' (provide source c w).1 (provide source c w).2 := by
  have fresh : w.1.Fresh := fun n bound => inv.1.consistent.fresh bound
  obtain ⟨cloud, moved, acted⟩ := respond_sound (w.2.outside source) c fresh
  refine ⟨(cloud, w.2), moved.lift (fun v => (v, w.2)) fun _ _ step => .inl ⟨step, rfl⟩, acted, ?_⟩
  cases c with
  | outside request =>
      cases request with
      | fetch request => rfl
      | createDataset => exact .answered _
      | createTable name => exact .answered _
  | query name script | getJob name | result id | reload id => rfl

/-! ## Any number of processes -/

/-- The processes of the system beside the resources. -/
abbrev ProvisionedSystem := System (Cloud × Resources) Launch ClientCall ClientAnswer Exn Returned

/-- Nothing has happened in freshly created tables, whatever resources exist. -/
theorem initial_provisioning (clock : UtcTime) (resources : Resources) : provisioning.Respected
    (System.initial (Cloud.created clock, resources) : ProvisionedSystem) := by
  refine .initial ⟨orderly_created clock, ?_⟩
  rintro (impossible | impossible)
  · cases impossible
  · exact absurd rfl impossible

/-- **Nothing is written before everything is as it should be.** Any number of processes create the
warehouse and ingest, while others may make resources of the same names. The system is the one in
which the service answers anything about resources, and no resource that exists is changed. The
tables are empty as long as the dataset or a table is missing or different from its declaration,
and a process that has created the warehouse leaves it all there with a control row. No process is
about to ask for a table unless the dataset has passed its checks. -/
theorem provisioned {clock : UtcTime} {resources : Resources} {s : ProvisionedSystem}
    (run : System.Run provisionedService Launch.start
      (System.initial (Cloud.created clock, resources)) s) :
    Reachable (s.seen Prod.fst) ∧ resources.Grows s.world.2 ∧
    (s.world.1.store ≠ .created → Conforms s.world.2) ∧
    (∀ i history returned, s.processes i = some ⟨.bootstrap, history, some (.done (.ok returned))⟩ →
      Conforms s.world.2 ∧ ∃ c, Seeded s.world.1.store c) ∧
    ∀ i launch history name next, s.processes i = some ⟨launch, history,
      some (.call (.outside (.createTable name)) next)⟩ → OwnDataset s.world.2 := by
  have initial := initial_provisioning clock resources
  have launches : ∀ launch w, provisioning.Inv w →
      provisioning.Safe provisioning.permits (fun _ _ => True) (Launch.start launch) w :=
    fun launch _ _ => launch.provisions
  obtain ⟨respected, _, grows⟩ := initial.run launches run
  have conforms : s.world.1.store ≠ .created → Conforms s.world.2 :=
    fun written => respected.inv.2 (.inr written)
  refine ⟨⟨clock, provisionedService_shows.run run⟩, grows, conforms, ?_, ?_⟩
  · intro i history returned at_i
    have ended : (provisioning.accepting fun _ _ => True).Safe provisioning.permits
        (fun result v => (∃ r, result = .ok r) → SeedEnded v.1)
        (.done (.ok returned)) s.world := by
      refine initial.launched launches rfl run at_i (fun w _ _ => Protocol.Safe.accepting ?_)
        (fun _ _ => trivial) rfl
      refine .bind bootstrap_provisions (fun _ v _ _ seeded => .done fun v' later _ _ => ?_)
        (fun _ _ _ impossible => by simp at impossible)
      exact (seeded rfl).mono later.1
    have seeded := ended s.world ⟨.refl _, .refl _⟩ respected.inv ⟨returned, rfl⟩
    have present := seeded.control respected.inv.1
    have written : s.world.1.store ≠ .created := fun created => present (by rw [created]; rfl)
    obtain ⟨c, sound, _⟩ := respected.inv.1.good.resolve_left written
    exact ⟨conforms written, c, sound.seeded⟩
  · intro i launch history name next at_i
    exact (respected.safe i launch history _ at_i s.world ⟨.refl _, .refl _⟩ respected.inv).1.2

/-- Nothing exists, and nothing was submitted. -/
def unprovisioned : Cloud × Resources := (Cloud.created sampleStop, fun _ => none)

/-- A source without records. -/
def noRecords (_ : Request) : Except Exn (List Observation) := .ok []

omit [Platform] in
set_option maxRecDepth 10000 in
/-- Creating the warehouse from nothing returns. -/
theorem unprovisioned_created :
    letI := Platform.plain
    ((Launch.start .bootstrap).runIn (provide noRecords) unprovisioned).1 = .ok .nothing := by
  rfl

omit [Platform] in
/-- A process creates the warehouse from nothing. -/
theorem provisioned_sample :
    letI := Platform.plain
    ∃ (s : ProvisionedSystem) (history : List (Event ClientCall ClientAnswer Exn)),
      s.processes 0 = some ⟨.bootstrap, history, some (.done (.ok .nothing))⟩ ∧
      Conforms s.world.2 ∧ ∃ c, Seeded s.world.1.store c := by
  obtain ⟨s, events, run, _, at_0⟩ := (@initial_provisioning Platform.plain sampleStop
    fun _ => none).launchAnswered (@provide_sound Platform.plain noRecords)
    (fun launch _ _ => @Launch.provisions Platform.plain launch _) (i := 0) rfl .bootstrap
  have ended : s.processes 0 = some ⟨.bootstrap, events, some (.done (.ok .nothing))⟩ := by
    rw [at_0]
    exact congrArg (fun result => some (Process.mk Launch.bootstrap events
      (some (Program.done result)))) unprovisioned_created
  exact ⟨s, events, ended, (@provisioned Platform.plain _ _ _ run).2.2.2.1 0 events .nothing ended⟩

end PowerMarket
