import PowerMarket.Provisioning

/-!
# Creating the warehouse alone

What `bootstrap` does when nobody else acts. It first checks what is there, or would be made, in the
order in which it asks for it (`Resources.check`). The first check that fails stops it before
anything is submitted. Otherwise everything is there in the end, and the seed job decides: the call
returns unless an earlier job under the same identifier has failed or can no longer take effect
(`bootstrap_alone`). Calling it again after it has returned changes nothing.
-/

set_option autoImplicit false

namespace PowerMarket

open Library JobService

variable [Platform]

/-! ## Checks -/

/-- The checks on what is there or would be made, in their order. -/
def Resources.check (resources : Resources) : Except Exn Unit := do
  checkDataset (resources.entry .dataset)
  tables.forM fun table => checkTable table.1 table.2 (resources.entry (.table table.1))

/-- Everything that exists is as it should be. -/
structure Acceptable (resources : Resources) : Prop where
  dataset : ∀ info, resources .dataset = some info → checkDataset info = .ok ()
  tables : ∀ table ∈ tables, ∀ info, resources (.table table.1) = some info →
    checkTable table.1 table.2 info = .ok ()

theorem Resources.check_iff {resources : Resources} :
    resources.check = .ok () ↔ Acceptable resources := by
  have both : resources.check = .ok () ↔ checkDataset (resources.entry .dataset) = .ok () ∧
      ∀ table ∈ PowerMarket.tables,
        checkTable table.1 table.2 (resources.entry (.table table.1)) = .ok () := by
    rw [Resources.check, bind_eq_ok, ← forM_eq_ok]
    exact ⟨fun ⟨_, first, rest⟩ => ⟨first, rest⟩, fun ⟨first, rest⟩ => ⟨(), first, rest⟩⟩
  obtain ⟨madeDataset, madeTables⟩ := made_conforms
  rw [both]
  constructor
  · rintro ⟨dataset, tables⟩
    refine ⟨fun info there => ?_, fun table member info there => ?_⟩
    · rwa [Resources.entry, there, Option.getD_some] at dataset
    · have checked := tables table member
      rwa [Resources.entry, there, Option.getD_some] at checked
  · rintro ⟨dataset, tables⟩
    constructor
    · cases there : resources .dataset with
      | none => rwa [Resources.entry, there, Option.getD_none]
      | some info => rw [Resources.entry, there, Option.getD_some, dataset info there]
    · intro table member
      cases there : resources (.table table.1) with
      | none => rw [Resources.entry, there, Option.getD_none, madeTables table member]
      | some info =>
          rw [Resources.entry, there, Option.getD_some, tables table member info there]

theorem entry_afterCall (resources : Resources) (c : ClientCall) :
    (resources.afterCall c).entry = resources.entry := by
  funext resource
  cases c with
  | outside request =>
      cases request with
      | fetch request => rfl
      | createDataset => exact Registry.create_getD resources made .dataset resource
      | createTable name => exact Registry.create_getD resources made (.table name) resource
  | query name script | getJob name | result id | reload id => rfl

theorem outside_afterCall (source : Request → Except Exn (List Observation))
    (resources : Resources) (c : ClientCall) :
    (resources.afterCall c).outside source = resources.outside source := by
  funext request
  cases request with
  | fetch request => rfl
  | createDataset => exact congrArg Except.ok (congrFun (entry_afterCall resources c) .dataset)
  | createTable name =>
      exact congrArg Except.ok (congrFun (entry_afterCall resources c) (.table name))

section Provide

variable {α : Type} (source : Request → Except Exn (List Observation)) (program : Client α)

theorem runIn_provide (w : Cloud × Resources) :
    (program.runIn (provide source) w).1 = (runNow (w.2.outside source) program w.1).1 ∧
      (program.runIn (provide source) w).2.1 = (runNow (w.2.outside source) program w.1).2 := by
  induction program generalizing w with
  | done result => exact ⟨rfl, rfl⟩
  | call c next ih =>
      have continued := ih (provide source c w).1 (provide source c w).2
      have same : Resources.outside source (provide source c w).2.2 = w.2.outside source :=
        outside_afterCall source w.2 c
      rw [same] at continued
      exact continued

variable {program} in
theorem runIn_provide_settled {resources : Resources}
    (settled : program.Calls fun c => resources.afterCall c = resources) {w : Cloud × Resources}
    (here : w.2 = resources) : (program.runIn (provide source) w).2.2 = resources := by
  induction program generalizing w with
  | done result => exact here
  | call c next ih =>
      refine ih _ (settled.2 _) ?_
      show w.2.afterCall c = resources
      rw [here]
      exact settled.1

end Provide

theorem Conforms.settled {resources : Resources} (conforms : Conforms resources) :
    bootstrap.Calls fun c => resources.afterCall c = resources := by
  have quiet : ∀ {α : Type} {program : Client α}, program.Calls (Within fun _ => True) →
      program.Calls fun c => resources.afterCall c = resources := by
    refine fun within => within.mono fun c allowed => ?_
    cases c with
    | outside request => exact absurd rfl (allowed.1 request)
    | query name script | getJob name | result id | reload id => rfl
  have created : (call (.outside .createDataset)).Calls
      fun c => resources.afterCall c = resources := by
    obtain ⟨info, there, _⟩ := conforms.dataset
    exact ⟨Registry.create_existing there, fun _ => trivial⟩
  have checks : ∀ declared, (∀ table ∈ declared, table ∈ PowerMarket.tables) →
      (checkTables declared).Calls fun c => resources.afterCall c = resources := by
    intro declared all
    induction declared with
    | nil => trivial
    | cons table declared ih =>
        obtain ⟨info, there, _⟩ := conforms.tables table (all table List.mem_cons_self)
        have asked : (call (.outside (.createTable table.1))).Calls
            fun c => resources.afterCall c = resources :=
          ⟨Registry.create_existing there, fun _ => trivial⟩
        refine .bind asked fun _ => .bind (by trivial) fun _ => ?_
        exact ih fun other member => all other (List.mem_cons_of_mem _ member)
  refine .tryCatch (.bind created fun _ =>
    .bind (by trivial) fun _ => .bind (checks PowerMarket.tables fun _ => id) fun _ =>
      .bind (quiet (query_within trivial)) fun _ =>
        .bind (quiet wait_within) fun _ => trivial) fun e => ?_
  split_ifs <;> trivial

/-! ## The seed job -/

/-- The seed job, if there is one, can still take effect or has ended without error. -/
def SeedWorks (w : Cloud) : Prop :=
  SeedEnded w ∨ CanRun w (jobId "bootstrap" "v1") fun _ => True

omit [Platform] in
theorem seedControl_seeded {db : Database} {c : ControlRow} (seeded : Seeded db c) :
    seedControl db = .ok db := by
  simp [seedControl, controlRows_of_seeded seeded, seeded.control, assertThat, bind, Except.bind,
    pure, Except.pure]

/-- What seeding leaves. -/
def Reseeded (before after : Database) : Prop :=
  before.control = [] ∧ after = .seeded ∨ before.control ≠ [] ∧ after = before

theorem Orderly.seedControl {w : Cloud} (orderly : Orderly w) :
    ∃ after, Reseeded w.store after ∧
      ∀ t, Script.seedControl.execute t w.store = .ok (after, .none) := by
  rcases orderly.good with created | ⟨c, sound, _⟩
  · refine ⟨.seeded, .inl ⟨by rw [created]; rfl, rfl⟩, fun t => ?_⟩
    rw [created]
    rfl
  · refine ⟨w.store, .inr ⟨by simp [sound.seeded.control], rfl⟩, fun t => ?_⟩
    have executed : PowerMarket.seedControl w.store = .ok w.store := seedControl_seeded sound.seeded
    simp [Script.execute, executed, bind, Except.bind, pure, Except.pure]

section Seeding

variable {w : Cloud} (outside : (request : Outside) → Except Exn request.Reply)

omit outside in
/-- A seed job that can run waits, or runs on the current tables. -/
theorem Orderly.seed_current (orderly : Orderly w) {w₁ : Cloud}
    (canRun : CanRun w (jobId "bootstrap" "v1") fun _ => True) (store₁ : w₁.store = w.store)
    (version₁ : w₁.version = w.version)
    (jobs₁ : w₁.jobs (.named (jobId "bootstrap" "v1")) =
      (w.jobs (.named (jobId "bootstrap" "v1"))).or (some ⟨.seedControl, .pending⟩)) :
    ∃ phase, w₁.jobs (.named (jobId "bootstrap" "v1")) = some ⟨.seedControl, phase⟩ ∧
      (phase = .pending ∨ ∃ started, phase = .running w₁.store w₁.version started) := by
  rw [jobs₁, store₁, version₁]
  cases job : w.jobs (.named (jobId "bootstrap" "v1")) with
  | none => exact ⟨.pending, rfl, .inl rfl⟩
  | some other =>
      obtain ⟨script, phase⟩ := other
      obtain rfl := (orderly.fixedJob job).of_seed
      refine ⟨phase, rfl, ?_⟩
      rcases (canRun _ _ job).2 with rfl | ⟨snapshot, started, rfl⟩
      · exact .inl rfl
      · rw [(orderly.consistent.running job).2.1 rfl]
        exact .inr ⟨started, rfl⟩

/-- **Seeding** returns exactly when the seed job works, and otherwise changes no table. -/
theorem runNow_seeding (orderly : Orderly w) :
    (SeedWorks w → ∃ w', runNow outside seeding w = (.ok (), w') ∧ Reseeded w.store w'.store) ∧
      (¬ SeedWorks w → ∃ e w', runNow outside seeding w = (.error e, w') ∧
        w'.store = w.store) := by
  have fresh : w.Fresh := fun n bound => orderly.consistent.fresh bound
  obtain ⟨w₁, asked, store₁, version₁, fresh₁, jobs₁⟩ :=
    runNow_query_some outside (w := w) .seedControl (jobId "bootstrap" "v1")
  have waits : runNow outside seeding w = runNow outside (do
      let _ ← wait (.named (jobId "bootstrap" "v1"))
      return ()) w₁ := Program.runIn_bind_ok _ asked
  rw [waits]
  constructor
  · rintro (⟨rows, time, usage, job⟩ | canRun)
    · have control := SeedEnded.control ⟨rows, time, usage, job⟩ orderly
      rw [job, Option.some_or] at jobs₁
      exact ⟨_, Program.runIn_bind_ok _ (runNow_wait_ended outside jobs₁), .inr ⟨control, store₁⟩⟩
    · obtain ⟨phase, job, current⟩ := orderly.seed_current canRun store₁ version₁ jobs₁
      obtain ⟨after, reseeded, executes⟩ := orderly.seedControl
      rw [← store₁] at executes
      obtain ⟨t, view, w₂, waited, store₂, _⟩ :=
        runNow_wait_current outside (fresh₁ fresh) job current executes
      exact ⟨w₂, Program.runIn_bind_ok _ waited, store₂ ▸ reseeded⟩
  · intro stuck
    cases job : w.jobs (.named (jobId "bootstrap" "v1")) with
    | none =>
        refine absurd (.inr fun script phase recorded => ?_) stuck
        rw [job] at recorded
        cases recorded
    | some other =>
        obtain ⟨script, phase⟩ := other
        obtain rfl := (orderly.fixedJob job).of_seed
        have unfinished : ∀ rows time usage, phase ≠ .ended (.ok rows) time usage := by
          rintro rows time usage rfl
          exact stuck (.inl ⟨rows, time, usage, job⟩)
        have lost : ¬ (phase = .pending ∨
            ∃ snapshot started, phase = .running snapshot w₁.version started) := by
          rw [version₁]
          intro current
          refine stuck (.inr fun script' phase' recorded => ?_)
          rw [job] at recorded
          cases recorded
          exact ⟨trivial, current⟩
        rw [job, Option.some_or] at jobs₁
        obtain ⟨e, w₂, waited, store₂⟩ := runNow_wait_lost outside jobs₁ rfl unfinished lost
        exact ⟨e, w₂, Program.runIn_bind_error _ waited, store₂.trans store₁⟩

end Seeding

/-! ## The call -/

section Bootstrap

variable {source : Request → Except Exn (List Observation)} {resources : Resources} {w : Cloud}

omit [Platform] in
/-- A loop of checks fails with one of them. -/
theorem forM_error {α : Type} {check : α → Except Exn Unit} {xs : List α} {e : Exn}
    (failed : xs.forM check = .error e) : ∃ x ∈ xs, check x = .error e := by
  induction xs with
  | nil => cases failed
  | cons x xs ih =>
      have step : (x :: xs).forM check = check x >>= fun _ => xs.forM check := rfl
      rw [step] at failed
      cases first : check x with
      | error e' =>
          rw [first] at failed
          cases failed
          exact ⟨x, List.mem_cons_self, first⟩
      | ok =>
          rw [first] at failed
          obtain ⟨y, member, same⟩ := ih failed
          exact ⟨y, List.mem_cons_of_mem _ member, same⟩

theorem Resources.check_kind {e : Exn} (failed : resources.check = .error e) :
    e.error.kind = .warehouseError := by
  unfold Resources.check at failed
  cases dataset : checkDataset (resources.entry .dataset) with
  | error e' =>
      rw [dataset] at failed
      cases failed
      unfold checkDataset at dataset
      split_ifs at dataset <;> cases dataset <;> rfl
  | ok =>
      rw [dataset] at failed
      obtain ⟨table, _, checked⟩ := forM_error failed
      unfold checkTable at checked
      split_ifs at checked <;> cases checked <;> rfl

variable (source resources w) in
/-- The loop over the tables gives the first check that fails. -/
theorem runNow_checkTables_entry (declared : List (String × List Field)) :
    runNow (resources.outside source) (checkTables declared) w =
      (declared.forM fun table =>
        checkTable table.1 table.2 (resources.entry (.table table.1)), w) := by
  induction declared with
  | nil => rfl
  | cons table declared ih =>
      have asked : runNow (resources.outside source)
          (call (.outside (.createTable table.1)) : Client TableInfo) w =
          (.ok (resources.entry (.table table.1)), w) := rfl
      have step : ((table :: declared).forM fun table =>
          checkTable table.1 table.2 (resources.entry (.table table.1))) =
          (checkTable table.1 table.2 (resources.entry (.table table.1)) >>= fun _ =>
            declared.forM fun table =>
              checkTable table.1 table.2 (resources.entry (.table table.1))) := rfl
      rw [runNow, checkTables, Program.runIn_bind_ok _ asked, step]
      cases checked : checkTable table.1 table.2 (resources.entry (.table table.1)) with
      | error e => exact Program.runIn_bind_error _ rfl
      | ok => exact (Program.runIn_bind_ok _ rfl).trans ih

variable (source resources w) in
/-- The checks come first, and the seed after them. -/
theorem runNow_creating :
    runNow (resources.outside source) creating w =
      match resources.check with
      | .error e => (.error e, w)
      | .ok () => runNow (resources.outside source) seeding w := by
  have asked : runNow (resources.outside source)
      (call (.outside .createDataset) : Client DatasetInfo) w =
      (.ok (resources.entry .dataset), w) := rfl
  rw [runNow, creating, Program.runIn_bind_ok _ asked, Resources.check]
  cases dataset : checkDataset (resources.entry .dataset) with
  | error e => exact Program.runIn_bind_error _ rfl
  | ok =>
      rw [Program.runIn_bind_ok _ rfl]
      have checked := runNow_checkTables_entry source resources w tables
      cases outcome : tables.forM fun table =>
          checkTable table.1 table.2 (resources.entry (.table table.1)) with
      | error e =>
          rw [outcome] at checked
          exact Program.runIn_bind_error _ checked
      | ok =>
          rw [outcome] at checked
          exact Program.runIn_bind_ok _ checked

variable (source resources) in
/-- **Creating the warehouse alone**, as far as the job service goes. -/
theorem runNow_bootstrapping (orderly : Orderly w) :
    (∀ e, resources.check = .error e →
      runNow (resources.outside source) bootstrap w = (.error e, w)) ∧
    (resources.check = .ok () → SeedWorks w → ∃ w',
      runNow (resources.outside source) bootstrap w = (.ok (), w') ∧ Reseeded w.store w'.store) ∧
    (resources.check = .ok () → ¬ SeedWorks w → ∃ e w',
      runNow (resources.outside source) bootstrap w = (.error e, w') ∧ w'.store = w.store) := by
  have block := runNow_creating source resources w
  obtain ⟨works, stuck⟩ := runNow_seeding (resources.outside source) orderly
  rw [bootstrap_eq]
  refine ⟨fun e failed => ?_, fun checked seeds => ?_, fun checked lost => ?_⟩
  · rw [failed] at block
    rw [runNow, Program.runIn_tryCatch_error _ block, bootstrapFailed, Resources.check_kind failed]
    rfl
  · obtain ⟨w', ran, reseeded⟩ := works seeds
    rw [checked] at block
    exact ⟨w', Program.runIn_tryCatch_ok _ (block.trans ran), reseeded⟩
  · obtain ⟨e, w', ran, store⟩ := stuck lost
    rw [checked] at block
    have handled : runNow (resources.outside source) (tryCatchThe Exn creating bootstrapFailed) w =
        runNow (resources.outside source) (bootstrapFailed e) w' :=
      Program.runIn_tryCatch_error _ (block.trans ran)
    rw [handled, bootstrapFailed]
    by_cases google : e.error.kind.isGoogleApiCallError = true
    · rw [if_pos google]
      exact ⟨_, w', rfl, store⟩
    · rw [if_neg google]
      exact ⟨_, w', rfl, store⟩

theorem Conforms.acceptable (conforms : Conforms resources) : Acceptable resources := by
  refine ⟨fun info there => ?_, fun table member info there => ?_⟩
  · obtain ⟨info', there', checked⟩ := conforms.dataset
    rw [there] at there'
    cases there'
    exact checked
  · obtain ⟨info', there', checked⟩ := conforms.tables table member
    rw [there] at there'
    cases there'
    exact checked

/-- What a call of `bootstrap` that is alone returns and leaves. -/
structure Bootstrapped (w w' : Cloud × Resources) (result : Except Exn Unit) : Prop where
  inv : provisioning.Inv w'
  settled : Conforms w.2 → w'.2 = w.2
  returns : result = .ok () ↔ Acceptable w.2 ∧ SeedWorks w.1
  created : result = .ok () → SeedEnded w'.1 ∧ Conforms w'.2 ∧ Reseeded w.1.store w'.1.store
  refused : ∀ e, result = .error e → w'.1.store = w.1.store ∧
    (w.2.check = .error e ∧ w'.1 = w.1 ∨ Acceptable w.2 ∧ ¬ SeedWorks w.1)

variable (source) in
/-- **What a call alone does** wherever the rules hold. -/
theorem bootstrap_outcome {w : Cloud × Resources} (inv : provisioning.Inv w) :
    Bootstrapped w (bootstrap.runIn (provide source) w).2
      (bootstrap.runIn (provide source) w).1 := by
  obtain ⟨refused, works, stuck⟩ := runNow_bootstrapping source w.2 inv.1
  obtain ⟨result, cloud⟩ := runIn_provide source bootstrap w
  obtain ⟨inv', _, provisions⟩ := Protocol.Safe.runIn (provide_sound source) inv
    bootstrap_provisions
  have settled : Conforms w.2 → (bootstrap.runIn (provide source) w).2.2 = w.2 :=
    fun conforms => runIn_provide_settled source conforms.settled rfl
  cases checked : Resources.check w.2 with
  | error e =>
      have ran := refused e checked
      rw [ran] at result cloud
      have unacceptable : ¬ Acceptable w.2 := fun acceptable => by
        rw [Resources.check_iff.mpr acceptable] at checked
        cases checked
      refine ⟨inv', settled, ?_, fun same => ?_, fun e' same => ?_⟩
      · rw [result]
        exact ⟨fun impossible => (by cases impossible), fun both => absurd both.1 unacceptable⟩
      · rw [result] at same
        cases same
      · rw [result] at same
        cases same
        exact ⟨congrArg World.store cloud, .inl ⟨checked, cloud⟩⟩
  | ok =>
      have acceptable := Resources.check_iff.mp checked
      by_cases seeds : SeedWorks w.1
      · obtain ⟨after, ran, reseeded⟩ := works checked seeds
        rw [ran] at result cloud
        have ended := provisions result
        refine ⟨inv', settled, iff_of_true result ⟨acceptable, seeds⟩, fun _ => ?_,
          fun e same => ?_⟩
        · refine ⟨ended, inv'.2 (.inl ?_), by rw [cloud]; exact reseeded⟩
          obtain ⟨rows, time, usage, job⟩ := ended
          rw [job]
          rfl
        · rw [result] at same
          cases same
      · obtain ⟨e, after, ran, store⟩ := stuck checked seeds
        rw [ran] at result cloud
        refine ⟨inv', settled, ?_, fun same => ?_, fun _ _ => ?_⟩
        · rw [result]
          exact ⟨fun impossible => (by cases impossible), fun both => absurd both.2 seeds⟩
        · rw [result] at same
          cases same
        · exact ⟨by rw [cloud]; exact store, .inr ⟨acceptable, seeds⟩⟩

/-- **Creating the warehouse alone.** In every reachable state, when nobody else acts, the call
returns exactly when everything that exists is as it should be and the seed job works. Then
everything is there, the control row is seeded unless it was there, and the same call again changes
no table and no resource. Otherwise no table changes, and the error is the one of the first check
that fails, before anything was submitted, or the one of the seed job. -/
theorem bootstrap_alone {clock : UtcTime} {resources : Resources} {s : ProvisionedSystem}
    (run : System.Run provisionedService Launch.start
      (System.initial (Cloud.created clock, resources)) s)
    (source : Request → Except Exn (List Observation)) :
    let ended := bootstrap.runIn (provide source) s.world
    let again := bootstrap.runIn (provide source) ended.2
    (ended.1 = .ok () ↔ Acceptable s.world.2 ∧ SeedWorks s.world.1) ∧
    (ended.1 = .ok () → Conforms ended.2.2 ∧ Reseeded s.world.1.store ended.2.1.store ∧
      again.1 = .ok () ∧ again.2.1.store = ended.2.1.store ∧ again.2.2 = ended.2.2) ∧
    ∀ e, ended.1 = .error e → ended.2.1.store = s.world.1.store ∧
      (Resources.check s.world.2 = .error e ∧ ended.2.1 = s.world.1 ∨
        Acceptable s.world.2 ∧ ¬ SeedWorks s.world.1) := by
  intro ended again
  have inv := ((initial_provisioning clock resources).run
    (fun launch _ _ => launch.provisions) run).1.inv
  have first : Bootstrapped s.world ended.2 ended.1 := bootstrap_outcome source inv
  have second : Bootstrapped ended.2 again.2 again.1 := bootstrap_outcome source first.inv
  refine ⟨first.returns, fun returned => ?_, first.refused⟩
  obtain ⟨seedEnded, conforms, reseeded⟩ := first.created returned
  have returnedAgain : again.1 = .ok () := second.returns.mpr ⟨conforms.acceptable, .inl seedEnded⟩
  obtain ⟨_, _, unchanged⟩ := second.created returnedAgain
  have control := seedEnded.control first.inv.1
  refine ⟨conforms, reseeded, returnedAgain, ?_, second.settled conforms⟩
  rcases unchanged with ⟨missing, _⟩ | ⟨_, same⟩
  · exact absurd missing control
  · exact same

/-- Nothing exists, and no process was launched. -/
def unprovisionedSystem : ProvisionedSystem := System.initial unprovisioned

omit [Platform] in
/-- The warehouse is created from nothing, and then there is nothing left to do. -/
theorem bootstrap_alone_sample :
    letI := Platform.plain
    let ended := bootstrap.runIn (provide noRecords) unprovisionedSystem.world
    ended.1 = .ok () ∧ Conforms ended.2.2 ∧
      (bootstrap.runIn (provide noRecords) ended.2).1 = .ok () := by
  have acceptable : @Acceptable Platform.plain unprovisionedSystem.world.2 :=
    @Acceptable.mk Platform.plain _ (fun _ there => by cases there)
      fun _ _ _ there => by cases there
  have works : @SeedWorks Platform.plain unprovisionedSystem.world.1 :=
    .inr fun _ _ recorded => by cases recorded
  have start : System.Run (@provisionedService) (@Launch.start Platform.plain)
      (System.initial (Cloud.created sampleStop, fun _ => none)) unprovisionedSystem := .refl
  obtain ⟨returns, created, _⟩ := @bootstrap_alone Platform.plain _ _ _ start noRecords
  have returned := returns.mpr ⟨acceptable, works⟩
  obtain ⟨conforms, _, again, _⟩ := created returned
  exact ⟨returned, conforms, again⟩

end Bootstrap

end PowerMarket
