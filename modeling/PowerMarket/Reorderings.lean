import PowerMarket.Library.Reorderings
import PowerMarket.Warehouse.Extensions
import PowerMarket.Analytics.Eligible

/-!
# Independent requests

What the tables hold of a key, apart from clocks and commit numbers, is the fold of the batches
that were accepted, one `KeyState.observe` for each (`acceptAll_keyState`). A key belongs to the
records of a single request, since it determines the product, the day and the hub
(`sights_request`). So batches of different requests commute (`requests_commute`), although the
snapshot of a plan shows all hubs of its day.
-/

set_option autoImplicit false

namespace PowerMarket

open Library

/-! ## What does not depend on the order -/

/-- The content without its clock. -/
def ContentRow.timeless (content : ContentRow) : ContentRow := content.setClock none

/-- The transition without its clock and its commit number. -/
def TransitionRow.timeless (transition : TransitionRow) : TransitionRow :=
  { transition with commitSequence := 0, knownAt := none }

/-- The row of a fact without its clocks and its commit number. -/
def HistoryRow.timeless (row : HistoryRow) : HistoryRow :=
  { row with firstSeenAt := none, commitSequence := 0, stateKnownAt := none }

theorem historyRow_timeless (transition : TransitionRow) (content : ContentRow) :
    (historyRow transition content).timeless =
      historyRow transition.timeless content.timeless := rfl

theorem TransitionRow.timeless_eq {a b : TransitionRow} (same : a.timeless = b.timeless) :
    a.runId = b.runId ∧ a.logicalKey = b.logicalKey ∧ a.contentId = b.contentId ∧
      a.ordinal = b.ordinal :=
  ⟨(congrArg TransitionRow.runId same :), (congrArg TransitionRow.logicalKey same :),
    (congrArg TransitionRow.contentId same :), (congrArg TransitionRow.ordinal same :)⟩

/-- A batch that a run submits, and whether the run is finalized. -/
structure Submission where
  runId : String
  request : Request
  records : List Observation
  finalized : Bool
  deriving DecidableEq

/-- What a run submits, whenever it does. -/
def Entry.submission [Platform] (entry : Entry) : Submission :=
  ⟨entry.runId, entry.request, entry.records, entry.finalization.isSome⟩

/-- The runs submit the same batches, those of one request in the same order. -/
def SameBatches [Platform] (xs ys : List Entry) : Prop :=
  Reordered Submission.request (xs.map Entry.submission) (ys.map Entry.submission)

variable [Platform]

/-! ## The state of a key -/

/-- The contents and the transitions of a key, without clocks and commit numbers. -/
@[ext] structure KeyState where
  contents : List ContentRow
  transitions : List TransitionRow

/-- What the tables of a product hold of a key. -/
def keyState (product : Product) (key : String) (db : Database) : KeyState where
  contents := (keyContents product key db).map ContentRow.timeless
  transitions := (keyTransitions product key db).map TransitionRow.timeless

/-- The state of a key after a run observed a row: a content is added unless it is known, and a
transition unless the content is the latest one. -/
def KeyState.next (runId : String) (row : BatchRow) (state : KeyState) : KeyState where
  contents := state.contents ++
    if ∃ content ∈ state.contents, content.contentHash = row.contentHash then []
    else [{ row with firstRunId := runId, firstSeenAt := none }]
  transitions := state.transitions ++
    if state.transitions.getLast?.map (·.contentHash) = some row.contentHash then []
    else [(transitionOf runId 0 row (state.transitions.length + 1)).timeless]

/-- The row of a batch for a key of a product. -/
def Submission.sights (product : Product) (key : String) (batch : Submission) : Option BatchRow :=
  if batch.request.product = product then
    (batch.records.find? (·.logicalKey = key)).map (rowOf batch.request)
  else none

/-- The state of a key after a batch. -/
def KeyState.observe (product : Product) (key : String) (state : KeyState) (batch : Submission) :
    KeyState :=
  match batch.sights product key with
  | none => state
  | some row => state.next batch.runId row

omit [Platform] in
theorem keyState_of_clocks {product : Product} {db after : Database}
    (clocks : SameButClocks product db after) (key : String) :
    keyState product key after = keyState product key db := by
  obtain ⟨clock, contents⟩ := clocks.contents
  obtain ⟨clock', transitions⟩ := clocks.transitions
  ext1
  · simp only [keyState, keyContents, contents, List.filter_map, List.map_map]
    rfl
  · simp only [keyState, keyTransitions, transitions, List.filter_map, List.map_map]
    rfl

section Commit

variable {entry : Entry} {c : ControlRow} {db : Database} {batch : List BatchRow}
  {current : Snapshot} {plan : WritePlan}

/-- The contents of a key after its row was observed. -/
theorem Commits.timeless_contents (noCollisions : NoCollisions) (serial : Serial c db)
    (commits : Commits entry c db batch current plan)
    (catalogue : Catalogue entry.request.product db) {row : BatchRow} (member : row ∈ batch) :
    ((newContent entry.runId current row).toList.map ContentRow.timeless) =
      if ∃ content ∈ (keyState entry.request.product row.logicalKey db).contents,
        content.contentHash = row.contentHash then []
      else [{ row with firstRunId := entry.runId, firstSeenAt := none }] := by
  have known := commits.known_iff noCollisions serial catalogue member
  have timeless : (∃ content ∈ (keyState entry.request.product row.logicalKey db).contents,
      content.contentHash = row.contentHash) ↔ row.contentId ∈ current.contents := by
    rw [known]
    constructor
    · rintro ⟨_, member, hash⟩
      obtain ⟨content, at_content, rfl⟩ := List.mem_map.mp member
      exact ⟨content, at_content, hash⟩
    · rintro ⟨content, at_content, hash⟩
      exact ⟨content.timeless, List.mem_map_of_mem at_content, hash⟩
  unfold newContent
  by_cases isKnown : row.contentId ∈ current.contents
  · rw [if_pos isKnown, if_pos (timeless.mpr isKnown)]
    rfl
  · rw [if_neg isKnown, if_neg (mt timeless.mp isKnown)]
    rfl

/-- The transitions of a key after its row was observed. -/
theorem Commits.timeless_transitions (noCollisions : NoCollisions) (serial : Serial c db)
    (commits : Commits entry c db batch current plan) {entries : List Entry}
    (law : ProductHistory entry.request.product entries db) {row : BatchRow} (member : row ∈ batch) :
    ((newTransition entry.runId current row).toList.map TransitionRow.timeless) =
      let transitions := (keyState entry.request.product row.logicalKey db).transitions
      if transitions.getLast?.map (·.contentHash) = some row.contentHash then []
      else [(transitionOf entry.runId 0 row (transitions.length + 1)).timeless] := by
  have history := law.history row.logicalKey
  have ordinal := commits.nextOrdinal_eq noCollisions serial law.catalogue member history
  have last : (keyState entry.request.product row.logicalKey db).transitions.getLast?.map
      (·.contentHash) = ((observations entry.request.product row.logicalKey entries).map
        Prod.snd).getLast? := by
    rw [← history.revised.last_value, keyState, List.getLast?_map, Option.map_map]
    rfl
  rw [newTransition, ordinal]
  simp only [last]
  split_ifs
  · rfl
  · simp only [Option.map_some, Option.toList_some, List.map_cons, List.map_nil, keyState,
      List.length_map, TransitionRow.timeless, transitionOf]

/-- **The step lemma.** A run changes the state of a key by what its batch shows of it. -/
theorem Commits.keyState (noCollisions : NoCollisions) (serial : Serial c db)
    (commits : Commits entry c db batch current plan) {entries : List Entry} (product : Product)
    (law : ProductHistory product entries db) (key : String) :
    keyState product key (afterRun entry plan c db) =
      (keyState product key db).observe product key entry.submission := by
  rw [keyState_of_clocks (afterRun_sameButClocks product entry plan c db)]
  by_cases same : product = entry.request.product
  · subst same
    have contents := commits.contents_of_key noCollisions serial law.catalogue key
    have transitions := commits.transitions_of_key noCollisions serial law.catalogue key
    have rows := commits.rows_of_key key
    unfold KeyState.observe Submission.sights Entry.submission
    simp only [if_pos]
    cases found : entry.records.find? (·.logicalKey = key) with
    | none =>
        rw [found] at rows
        rw [rows] at contents transitions
        simp only [PowerMarket.keyState, contents, transitions, Option.map_none, Option.toList_none,
          List.filterMap_nil, List.append_nil]
    | some record =>
        rw [found, Option.map_some, Option.toList_some] at rows
        obtain ⟨member, ofKey⟩ := List.mem_filter.mp
          (rows ▸ List.mem_singleton_self (rowOf entry.request record))
        obtain rfl := of_decide_eq_true ofKey
        rw [rows] at contents transitions
        have newContents := commits.timeless_contents noCollisions serial law.catalogue member
        have newTransitions := commits.timeless_transitions noCollisions serial law member
        rw [filterMap_singleton] at contents transitions
        ext1
        · show (keyContents _ _ _).map ContentRow.timeless = _
          rw [contents, List.map_append, newContents]
          rfl
        · show (keyTransitions _ _ _).map TransitionRow.timeless = _
          rw [transitions, List.map_append, newTransitions]
          rfl
  · rw [keyState_of_clocks (afterCommit_other same), KeyState.observe, Submission.sights,
      if_neg (show entry.submission.request.product ≠ product from Ne.symm same)]

end Commit

/-- **The run lemma.** The state of a key is the fold of the accepted batches. -/
theorem acceptAll_keyState (noCollisions : NoCollisions) {entries : List Entry} {db : Database}
    (accepted : acceptAll entries Database.seeded = .ok db) (product : Product) (key : String) :
    keyState product key db =
      (entries.map Entry.submission).foldl (KeyState.observe product key) ⟨[], []⟩ := by
  induction entries using List.reverseRecOn generalizing db with
  | nil =>
      cases accepted
      rfl
  | append_singleton entries entry ih =>
      obtain ⟨before, earlier, last⟩ := acceptAll_snoc.mp accepted
      obtain ⟨c, serial⟩ := acceptAll_serial earlier
      obtain ⟨batch, current, plan, commits, rfl⟩ := (acceptRun_iff serial).mp last
      rw [commits.keyState noCollisions serial product
        (acceptAll_history noCollisions earlier product) key, ih earlier, List.map_append,
        List.foldl_append]
      rfl

/-! ## Keys and requests -/

theorem acceptAll_batched {entries : List Entry} {db after : Database}
    (accepted : acceptAll entries db = .ok after) :
    ∀ entry ∈ entries, ∃ batch, batchRows entry.request entry.records = .ok batch := by
  induction entries generalizing db with
  | nil => exact fun entry impossible => by cases impossible
  | cons entry entries ih =>
      obtain ⟨mid, first, rest⟩ := bind_eq_ok.mp accepted
      obtain ⟨_, committed, _⟩ := bind_eq_ok.mp first
      obtain ⟨_, _, planned⟩ := bind_eq_ok.mp committed
      obtain ⟨_, planned, _⟩ := bind_eq_ok.mp planned
      obtain ⟨batch, batched, _⟩ := bind_eq_ok.mp planned
      exact List.forall_mem_cons.mpr ⟨⟨batch, batched⟩, ih rest⟩

/-- What a batch shows of a key is the row of a record that its request admits. -/
theorem Submission.sights_record {product : Product} {key : String} {entry : Entry}
    {batch : List BatchRow} (batched : batchRows entry.request entry.records = .ok batch)
    (sees : (entry.submission.sights product key).isSome = true) :
    ∃ record, Admissible entry.request record ∧ record.logicalKey = key ∧
      entry.request.product = product := by
  unfold Submission.sights at sees
  split_ifs at sees with ofProduct
  · rw [Option.isSome_map, List.find?_isSome] at sees
    obtain ⟨record, member, ofKey⟩ := sees
    exact ⟨record, (batchRows_spec batched).admissible record member, of_decide_eq_true ofKey,
      ofProduct⟩
  · cases sees

/-- **A record with a key of a product determines the request that admits it.** -/
theorem Admissible.request_eq (noCollisions : NoCollisions) {request request' : Request}
    {record record' : Observation} (admissible : Admissible request record)
    (admissible' : Admissible request' record') (product : request.product = request'.product)
    (same : record.logicalKey = record'.logicalKey) : request = request' := by
  have day := admissible.day_eq noCollisions admissible' same
  have grain := (logicalKey_eq_iff noCollisions).mp same
  have location : request.location = request'.location := by
    cases record with
    | lmp price =>
        cases record' with
        | lmp price' =>
            have hub : request.location = some price.location := by
              simpa [outsideHub] using admissible.hub
            have hub' : request'.location = some price'.location := by
              simpa [outsideHub] using admissible'.hub
            exact hub.trans (grain.hub.trans hub'.symm)
        | load demand' => exact absurd grain.hub (by simp [Observation.hub])
    | load demand =>
        have noHub : ∀ {r : Request}, r.product ≠ .lmp → r.location = none := by
          intro r isLoad
          rw [← Option.not_isSome_iff_eq_none]
          exact mt r.supported.mp isLoad
        have isLoad : request.product ≠ .lmp := fun isLmp => by
          cases admissible.product.mpr isLmp
        rw [noHub isLoad, noHub (product ▸ isLoad)]
  obtain ⟨product', day', location', supported'⟩ := request
  obtain ⟨product'', day'', location'', supported''⟩ := request'
  obtain rfl : product' = product'' := product
  obtain rfl : day' = day'' := day
  obtain rfl : location' = location'' := location
  rfl

/-- **The state of a key after reordered batches** is the same. -/
theorem SameBatches.keyState (noCollisions : NoCollisions) {xs ys : List Entry}
    (same : SameBatches xs ys) {db after : Database} (accepted : acceptAll xs db = .ok after)
    (product : Product) (key : String) (state : KeyState) :
    (xs.map Entry.submission).foldl (KeyState.observe product key) state =
      (ys.map Entry.submission).foldl (KeyState.observe product key) state := by
  refine Reordered.foldl_eq same _ (fun batch => (batch.sights product key).isSome = true)
    ?_ ?_ state
  · intro batch unseen state
    rw [Option.not_isSome_iff_eq_none] at unseen
    rw [KeyState.observe, unseen]
  · intro batch member batch' member' sees sees'
    obtain ⟨entry, at_entry, rfl⟩ := List.mem_map.mp member
    obtain ⟨entry', at_entry', rfl⟩ := List.mem_map.mp member'
    obtain ⟨_, batched⟩ := acceptAll_batched accepted entry at_entry
    obtain ⟨_, batched'⟩ := acceptAll_batched accepted entry' at_entry'
    obtain ⟨record, admissible, ofKey, ofProduct⟩ := Submission.sights_record batched sees
    obtain ⟨record', admissible', ofKey', ofProduct'⟩ := Submission.sights_record batched' sees'
    exact admissible.request_eq noCollisions admissible' (ofProduct.trans ofProduct'.symm)
      (ofKey.trans ofKey'.symm)

/-! ## Successful runs -/

/-- The runs that have succeeded in a serial execution are those that were finalized. -/
theorem acceptAll_eligible {entries : List Entry} {db : Database}
    (accepted : acceptAll entries Database.seeded = .ok db) (runId : String) :
    EligibleRun db runId ↔
      ∃ batch ∈ entries.map Entry.submission, batch.runId = runId ∧ batch.finalized = true := by
  induction entries using List.reverseRecOn generalizing db with
  | nil =>
      cases accepted
      simp [EligibleRun, Database.seeded, Database.created]
  | append_singleton entries entry ih =>
      obtain ⟨before, earlier, last⟩ := acceptAll_snoc.mp accepted
      obtain ⟨c, serial⟩ := acceptAll_serial earlier
      obtain ⟨batch, current, plan, commits, rfl⟩ := (acceptRun_iff serial).mp last
      have isNew : (entry.manifest plan).runId = runId ∧ (entry.manifest plan).status = .succeeded ↔
          entry.submission.runId = runId ∧ entry.submission.finalized = true := by
        unfold Entry.manifest Entry.submission
        cases entry.finalization with
        | none => simp [RunRow.commit]
        | some knowledgeAt => exact ⟨fun both => ⟨both.1, rfl⟩, fun both => ⟨both.1, rfl⟩⟩
      rw [EligibleRun, afterRun_runs commits, List.map_append, List.map_cons, List.map_nil]
      simp only [List.mem_append, List.mem_singleton, or_and_right, exists_or, exists_eq_left]
      exact or_congr (ih earlier) isNew

omit [Platform] in
theorem Mirrors.eligible {serial db : Database} (mirrors : Mirrors serial db) (runId : String) :
    EligibleRun db runId ↔ EligibleRun serial runId := by
  constructor
  · rintro ⟨run, member, ofRun, succeeded⟩
    obtain ⟨run', member', same⟩ := mirrors.sup run member (by rw [succeeded]; rfl)
    have status : run'.status = run.status := congrArg RunOutcome.status same
    exact ⟨run', member', (RunRow.outcome_runId same).trans ofRun, status.trans succeeded⟩
  · rintro ⟨run, member, ofRun, succeeded⟩
    obtain ⟨run', member', _, same⟩ := mirrors.sub run member
    have status : run.status = run'.status := congrArg RunOutcome.status same
    exact ⟨run', member', (RunRow.outcome_runId same).symm.trans ofRun,
      status.symm.trans succeeded⟩

/-! ## Tables and facts -/

/-- The tables of a product hold the same rows apart from clocks and commit numbers, and the same
runs have succeeded. -/
structure SameRows (product : Product) (a b : Database) : Prop where
  contents : ((a.contents product).map ContentRow.timeless).Perm
    ((b.contents product).map ContentRow.timeless)
  transitions : ((a.transitions product).map TransitionRow.timeless).Perm
    ((b.transitions product).map TransitionRow.timeless)
  eligible : ∀ runId, EligibleRun a runId ↔ EligibleRun b runId

omit [Platform] in
theorem SameRows.symm {product : Product} {a b : Database} (same : SameRows product a b) :
    SameRows product b a :=
  ⟨same.contents.symm, same.transitions.symm, fun runId => (same.eligible runId).symm⟩

omit [Platform] in
theorem SameRows.of_keyState {product : Product} {a b : Database}
    (states : ∀ key, keyState product key a = keyState product key b)
    (eligible : ∀ runId, EligibleRun a runId ↔ EligibleRun b runId) : SameRows product a b := by
  refine ⟨perm_of_filter (·.logicalKey) fun key => ?_,
    perm_of_filter (·.logicalKey) fun key => ?_, eligible⟩
  · rw [List.filter_map, List.filter_map]
    exact congrArg KeyState.contents (states key)
  · rw [List.filter_map, List.filter_map]
    exact congrArg KeyState.transitions (states key)

omit [Platform] in
theorem SameRows.transition {product : Product} {a b : Database} (same : SameRows product a b)
    {transition : TransitionRow} (member : transition ∈ a.transitions product) :
    ∃ other ∈ b.transitions product, other.timeless = transition.timeless :=
  List.mem_map.mp (same.transitions.mem_iff.mp (List.mem_map_of_mem member))

omit [Platform] in
theorem SameRows.content {product : Product} {a b : Database} (same : SameRows product a b)
    {content : ContentRow} (member : content ∈ a.contents product) :
    ∃ other ∈ b.contents product, other.timeless = content.timeless :=
  List.mem_map.mp (same.contents.mem_iff.mp (List.mem_map_of_mem member))

/-- A row of the current facts is also a row of the other facts. -/
theorem SameRows.fact (noCollisions : NoCollisions) {product : Product} {a b : Database}
    (same : SameRows product a b) (good : Good a) (good' : Good b) {row : HistoryRow}
    (member : row ∈ factQuery product none a) :
    ∃ other ∈ factQuery product none b, other.timeless = row.timeless := by
  obtain ⟨transition, content, occurs, rfl, _, greatest⟩ :=
    (good.currentFacts noCollisions product).rows row member
  have facts := good'.currentFacts noCollisions product
  -- The fact of the key on the other side.
  obtain ⟨across, at_across, sameAcross⟩ := same.transition occurs.inTransitions
  obtain ⟨runAcross, keyAcross, _, ordinalAcross⟩ := TransitionRow.timeless_eq sameAcross
  have eligible : EligibleRun b across.runId :=
    (same.eligible across.runId).mp (runAcross ▸ occurs.run)
  obtain ⟨other, at_other, key⟩ := facts.complete across at_across eligible
  obtain ⟨latest, content', occurs', rfl, key', greatest'⟩ := facts.rows other at_other
  have keys : across.logicalKey = latest.logicalKey := key.symm.trans key'
  have above := greatest' across at_across keys eligible
  -- It is the one of this side.
  obtain ⟨back, at_back, sameBack⟩ := same.symm.transition occurs'.inTransitions
  obtain ⟨runBack, keyBack, idBack, ordinalBack⟩ := TransitionRow.timeless_eq sameBack
  have keyHere : back.logicalKey = transition.logicalKey :=
    keyBack.trans (keys.symm.trans keyAcross)
  have below := greatest back at_back keyHere
    ((same.eligible back.runId).mpr (runBack ▸ occurs'.run))
  have ordinal : back.ordinal = transition.ordinal := by omega
  obtain rfl := good.ordinal_inj noCollisions at_back occurs.inTransitions keyHere ordinal
  obtain ⟨contentBack, at_content, sameContent⟩ := same.symm.content occurs'.inContents
  have contentId : contentBack.contentId = content.contentId := by
    calc contentBack.contentId
        = content'.contentId := (congrArg (fun row : ContentRow => row.contentId) sameContent :)
      _ = latest.contentId := occurs'.refers.symm
      _ = back.contentId := idBack.symm
      _ = content.contentId := occurs.refers
  obtain rfl := List.inj_on_of_nodup_map (good.ids noCollisions product).1 at_content
    occurs.inContents contentId
  refine ⟨_, at_other, ?_⟩
  rw [historyRow_timeless, historyRow_timeless, sameBack, sameContent]

/-- **The current facts of tables with the same rows** differ in clocks and commit numbers only. -/
theorem SameRows.facts (noCollisions : NoCollisions) {product : Product} {a b : Database}
    (same : SameRows product a b) (good : Good a) (good' : Good b) :
    ((factQuery product none a).map HistoryRow.timeless).Perm
      ((factQuery product none b).map HistoryRow.timeless) := by
  have nodup : ∀ {db : Database}, Good db →
      ((factQuery product none db).map HistoryRow.timeless).Nodup := by
    intro db good
    refine List.Nodup.of_map (·.logicalKey) ?_
    rw [List.map_map]
    exact (good.currentFacts noCollisions product).keys
  have includes : ∀ {x y : Database}, SameRows product x y → Good x → Good y →
      ∀ row ∈ (factQuery product none x).map HistoryRow.timeless,
        row ∈ (factQuery product none y).map HistoryRow.timeless := by
    intro x y same good good' row member
    obtain ⟨fact, at_fact, rfl⟩ := List.mem_map.mp member
    obtain ⟨other, at_other, equal⟩ := same.fact noCollisions good good' at_fact
    exact List.mem_map.mpr ⟨other, at_other, equal⟩
  exact (List.perm_ext_iff_of_nodup (nodup good) (nodup good')).mpr fun row =>
    ⟨includes same good good' row, includes same.symm good' good row⟩

/-! ## Runs from a good state -/

/-- What runs leave that come after earlier ones. -/
structure RunsAfter (before later : List Entry) (after : Database) : Prop where
  good : Good after
  states : ∀ product key, keyState product key after =
    (later.map Entry.submission).foldl (KeyState.observe product key)
      ((before.map Entry.submission).foldl (KeyState.observe product key) ⟨[], []⟩)
  eligible : ∀ runId, EligibleRun after runId ↔
    (∃ batch ∈ before.map Entry.submission, batch.runId = runId ∧ batch.finalized = true) ∨
      ∃ batch ∈ later.map Entry.submission, batch.runId = runId ∧ batch.finalized = true

theorem Good.runsAfter (noCollisions : NoCollisions) {db : Database} (good : Good db)
    (seeded : db ≠ .created) : ∃ before : List Entry, ∀ {later : List Entry} {after : Database},
      acceptAll later db = .ok after → RunsAfter before later after := by
  obtain ⟨c, sound, before, serial, earlier, mirrors⟩ := good.resolve_left seeded
  obtain ⟨c', isSerial⟩ := acceptAll_serial earlier
  obtain rfl := isSerial.sound.seeded.control_unique sound.seeded mirrors.control
  refine ⟨before, fun {later after} accepted => ?_⟩
  obtain ⟨c'', serial', both, sound', _, mirrors'⟩ :=
    mirrors.extended noCollisions sound isSerial earlier accepted
  refine ⟨.inr ⟨c'', sound', before ++ later, serial', both, mirrors'⟩,
    fun product key => ?_, fun runId => ?_⟩
  · have clocks : SameButClocks product serial' after :=
      .of_eq (congrFun mirrors'.contents product).symm (congrFun mirrors'.transitions product).symm
    rw [keyState_of_clocks clocks, acceptAll_keyState noCollisions both, List.map_append,
      List.foldl_append]
  · rw [mirrors'.eligible, acceptAll_eligible both, List.map_append]
    simp only [List.mem_append, or_and_right, exists_or]

/-- Reordered runs leave the same rows. -/
theorem RunsAfter.sameRows (noCollisions : NoCollisions) {before xs ys : List Entry}
    {db a b : Database} (first : RunsAfter before xs a) (second : RunsAfter before ys b)
    (same : SameBatches xs ys) (accepted : acceptAll xs db = .ok a) (product : Product) :
    SameRows product a b := by
  refine .of_keyState (fun key => ?_) fun runId => ?_
  · rw [first.states, second.states]
    exact same.keyState noCollisions accepted product key _
  · rw [first.eligible, second.eligible]
    simp only [same.perm.mem_iff]

/-- **Independent requests commute.** Runs that submit the same batches to one reachable state,
those of one request in the same order, leave the same contents, the same transitions and the same
current facts, apart from clocks and commit numbers. -/
theorem requests_commute (noCollisions : NoCollisions) {s : WarehouseSystem}
    (reachable : Reachable s) {xs ys : List Entry} {a b : Database}
    (accepted : acceptAll xs s.world.store = .ok a)
    (accepted' : acceptAll ys s.world.store = .ok b) (same : SameBatches xs ys)
    (product : Product) :
    ((a.contents product).map ContentRow.timeless).Perm
      ((b.contents product).map ContentRow.timeless) ∧
    ((a.transitions product).map TransitionRow.timeless).Perm
      ((b.transitions product).map TransitionRow.timeless) ∧
    ((factQuery product none a).map HistoryRow.timeless).Perm
      ((factQuery product none b).map HistoryRow.timeless) := by
  rcases eq_or_ne s.world.store .created with created | seeded
  · -- Without its control row the warehouse accepts only the empty list.
    rw [created] at accepted accepted'
    obtain rfl := acceptAll_created accepted
    obtain rfl := acceptAll_created accepted'
    rw [accepted] at accepted'
    cases accepted'
    exact ⟨.refl _, .refl _, .refl _⟩
  · obtain ⟨before, runs⟩ := reachable.orderly.good.runsAfter noCollisions seeded
    have first := runs accepted
    have second := runs accepted'
    have rows := first.sameRows noCollisions second same accepted product
    exact ⟨rows.contents, rows.transitions, rows.facts noCollisions first.good second.good⟩

/-- A run that accepts the price of the same day. -/
def samplePriceEntry : Entry :=
  .own "fedcba9876543210fedcba9876543210" samplePriceRequest [samplePrice] sampleStart
    (some sampleHourEnd)

omit [Platform] in
set_option maxRecDepth 10000 in
/-- Both orders of a load and a price of one day are accepted. -/
theorem samples_accepted :
    letI := Platform.plain
    (∃ db, acceptAll [sampleEntry, samplePriceEntry] Database.seeded = .ok db) ∧
      ∃ db, acceptAll [samplePriceEntry, sampleEntry] Database.seeded = .ok db :=
  ⟨⟨_, rfl⟩, ⟨_, rfl⟩⟩

omit [Platform] in
/-- A load and a price of one day commute. -/
theorem requests_commute_sample :
    letI := Platform.plain
    ∃ s, Reachable s ∧ ∃ a b, acceptAll [sampleEntry, samplePriceEntry] s.world.store = .ok a ∧
      acceptAll [samplePriceEntry, sampleEntry] s.world.store = .ok b ∧
      ((a.transitions .lmp).map TransitionRow.timeless).Perm
        ((b.transitions .lmp).map TransitionRow.timeless) := by
  let _ := Platform.plain
  have store : (@bootstrapped Platform.plain).world.store = Database.seeded := rfl
  obtain ⟨⟨a, accepted⟩, b, accepted'⟩ := samples_accepted
  rw [← store] at accepted accepted'
  have same : SameBatches [sampleEntry, samplePriceEntry] [samplePriceEntry, sampleEntry] := by
    refine ⟨List.Perm.swap .., fun request => ?_⟩
    have differ : sampleEntry.submission.request ≠ samplePriceEntry.submission.request := by decide
    by_cases first : sampleEntry.submission.request = request
    · have second : samplePriceEntry.submission.request ≠ request := first ▸ differ.symm
      simp [first, second]
    · by_cases second : samplePriceEntry.submission.request = request <;> simp [first, second]
  exact ⟨_, @bootstrapped_reachable Platform.plain, a, b, accepted, accepted',
    (requests_commute noCollisions_plain (@bootstrapped_reachable Platform.plain) accepted
      accepted' same .lmp).2.1⟩

end PowerMarket
