import PowerMarket.Identities
import PowerMarket.Warehouse.Replay
import PowerMarket.Library.Revisions

/-!
# The history of a key

The runs of a serial execution observe a content hash for each key of their batches. The
transitions of a key are the observed hashes without adjacent repetitions, numbered from one,
and its contents are the observed hashes, each with the run that saw it first
(`KeyHistory`). `Catalogue` says which rows the tables of a product can hold at all, so that
the content ids and the transition ids are unique.

The snapshot of a plan shows one day only. Since the key of a record determines the day, it
shows everything about the keys of the batch (`Commits.known_iff`, `Commits.latest`). The step
lemmas `Catalogue.committed` and `KeyHistory.committed` follow, and `acceptAll_history` is the
run lemma.
-/

set_option autoImplicit false

namespace PowerMarket

open Library

variable [Platform]

/-! ## What the ids determine -/

theorem contentId_injective (noCollisions : NoCollisions) {record record' : Observation}
    (same : contentId record = contentId record') :
    record.logicalKey = record'.logicalKey ∧ record.contentHash = record'.contentHash := by
  have entries := digest_perm noCollisions (by simp) (by simp) same
  exact ⟨value_eq_of_perm "logical_key" entries (by simp) (by simp) (by simp),
    value_eq_of_perm "content_hash" entries (by simp) (by simp) (by simp)⟩

theorem contentId_congr {record record' : Observation}
    (key : record.logicalKey = record'.logicalKey)
    (hash : record.contentHash = record'.contentHash) : contentId record = contentId record' := by
  rw [contentId, contentId, key, hash]

theorem transitionId_injective (noCollisions : NoCollisions) {runId runId' key key' : String}
    (same : digest "state-transition/v1" [("run_id", runId), ("key", key)] =
      digest "state-transition/v1" [("run_id", runId'), ("key", key')]) :
    runId = runId' ∧ key = key' := by
  have entries := digest_perm noCollisions (by simp) (by simp) same
  exact ⟨value_eq_of_perm "run_id" entries (by simp) (by simp) (by simp),
    value_eq_of_perm "key" entries (by simp) (by simp) (by simp)⟩

/-- **The key of an accepted record determines its day.** -/
theorem Admissible.day_eq (noCollisions : NoCollisions) {request request' : Request}
    {record record' : Observation} (admissible : Admissible request record)
    (admissible' : Admissible request' record')
    (same : record.logicalKey = record'.logicalKey) : request.day = request'.day := by
  obtain ⟨_, start⟩ := Observation.logicalKey_interval noCollisions same
  have ordinal : request.day.ordinal = request'.day.ordinal :=
    Zone.day_unique Platform.midnights admissible.start_le admissible.start_lt
      (start ▸ admissible'.start_le) (start ▸ admissible'.start_lt)
  cases day : request.day
  cases day' : request'.day
  rw [day, day'] at ordinal
  cases ordinal
  rfl

/-! ## The rows of the tables -/

/-- A content is the row of a record accepted for some request. -/
def OfRecord (content : ContentRow) : Prop :=
  ∃ request record, Admissible request record ∧ content.toBatchRow = rowOf request record

/-- A transition was planned for a record accepted for some request. -/
def TransitionOfRecord (transition : TransitionRow) : Prop :=
  ∃ request record runId sequence ordinal knownAt, Admissible request record ∧
    transition =
      { transitionOf runId sequence (rowOf request record) ordinal with knownAt := knownAt }

/-- What the tables of a product hold. -/
structure Catalogue (product : Product) (db : Database) : Prop where
  content : ∀ content ∈ db.contents product, OfRecord content
  transition : ∀ transition ∈ db.transitions product, TransitionOfRecord transition
  contentIds : ((db.contents product).map (·.contentId)).Nodup
  transitionIds : ((db.transitions product).map (·.transitionId)).Nodup
  references : ∀ transition ∈ db.transitions product, ∃ content ∈ db.contents product,
    content.contentId = transition.contentId ∧ content.logicalKey = transition.logicalKey ∧
      content.contentHash = transition.contentHash

/-- The contents of a key. -/
def keyContents (product : Product) (key : String) (db : Database) : List ContentRow :=
  (db.contents product).filter (·.logicalKey = key)

/-- The transitions of a key. -/
def keyTransitions (product : Product) (key : String) (db : Database) : List TransitionRow :=
  (db.transitions product).filter (·.logicalKey = key)

/-- The hash that a run observes for a key of a product, with the run. -/
def Entry.observes (product : Product) (key : String) (entry : Entry) :
    Option (String × String) :=
  if entry.request.product = product then
    (entry.records.find? (·.logicalKey = key)).map fun record => (entry.runId, record.contentHash)
  else none

/-- What the runs observe for a key of a product, in their order. -/
def observations (product : Product) (key : String) (entries : List Entry) :
    List (String × String) :=
  entries.filterMap (Entry.observes product key)

/-- **The history of a key**, given what was observed for it. -/
structure KeyHistory (product : Product) (key : String) (observed : List (String × String))
    (db : Database) : Prop where
  revised : RevisionLog (·.ordinal) (·.contentHash) (observed.map Prod.snd)
    (keyTransitions product key db)
  increasing : (keyTransitions product key db).Pairwise fun a b =>
    a.commitSequence < b.commitSequence
  observers : ∀ transition ∈ keyTransitions product key db,
    (transition.runId, transition.contentHash) ∈ observed
  seen : FirstSeen (·.contentHash) (·.firstRunId) observed (keyContents product key db)

omit [Platform] in
theorem mem_keyContents {product : Product} {key : String} {db : Database} {content : ContentRow} :
    content ∈ keyContents product key db ↔
      content ∈ db.contents product ∧ content.logicalKey = key := by
  simp [keyContents]

omit [Platform] in
theorem mem_keyTransitions {product : Product} {key : String} {db : Database}
    {transition : TransitionRow} :
    transition ∈ keyTransitions product key db ↔
      transition ∈ db.transitions product ∧ transition.logicalKey = key := by
  simp [keyTransitions]

theorem Catalogue.same_of_id (noCollisions : NoCollisions) {product : Product} {db : Database}
    (catalogue : Catalogue product db) {content : ContentRow}
    (member : content ∈ db.contents product) {record : Observation}
    (same : content.contentId = contentId record) :
    content.logicalKey = record.logicalKey ∧ content.contentHash = record.contentHash := by
  obtain ⟨request', record', _, isRow⟩ := catalogue.content content member
  have ids : contentId record' = contentId record :=
    (congrArg BatchRow.contentId isRow).symm.trans same
  obtain ⟨key, hash⟩ := contentId_injective noCollisions ids
  exact ⟨(congrArg BatchRow.logicalKey isRow).trans key,
    (congrArg BatchRow.contentHash isRow).trans hash⟩

theorem Catalogue.id_of_same {product : Product} {db : Database}
    (catalogue : Catalogue product db) {content : ContentRow}
    (member : content ∈ db.contents product) {record : Observation}
    (key : content.logicalKey = record.logicalKey)
    (hash : content.contentHash = record.contentHash) : content.contentId = contentId record := by
  obtain ⟨request', record', _, isRow⟩ := catalogue.content content member
  have sameKey : record'.logicalKey = record.logicalKey :=
    (congrArg BatchRow.logicalKey isRow).symm.trans key
  have sameHash : record'.contentHash = record.contentHash :=
    (congrArg BatchRow.contentHash isRow).symm.trans hash
  exact (congrArg BatchRow.contentId isRow).trans (contentId_congr sameKey sameHash)

/-! ## What a snapshot shows about the keys of its batch -/

section Commit

variable {entry : Entry} {c : ControlRow} {db : Database} {batch : List BatchRow}
  {current : Snapshot} {plan : WritePlan}

omit [Platform] in
theorem latestRows_lookup (rows : List TransitionRow) (key : String) :
    (latestRows rows).lookup key =
      ((rows.filter (·.logicalKey = key)).argmax (·.ordinal)).map fun row =>
        ⟨row.contentHash, row.ordinal⟩ := by
  have table : latestRows rows = (rows.map (·.logicalKey)).dedup.filterMap fun key =>
      (((rows.filter (·.logicalKey = key)).argmax (·.ordinal)).map fun row : TransitionRow =>
        (⟨row.contentHash, row.ordinal⟩ : Latest)).map (Prod.mk key) := by
    simp only [latestRows, Option.map_map]
    rfl
  rw [table, lookup_latest]
  split_ifs with present
  · rfl
  · have none_of : rows.filter (·.logicalKey = key) = [] := by
      rw [List.filter_eq_nil_iff]
      intro row member clash
      exact present (List.mem_dedup.mpr (List.mem_map.mpr ⟨row, member, of_decide_eq_true clash⟩))
    rw [none_of]
    rfl

theorem Commits.row (commits : Commits entry c db batch current plan) {row : BatchRow}
    (member : row ∈ batch) :
    ∃ record ∈ entry.records, Admissible entry.request record ∧
      row = rowOf entry.request record := by
  have accepted := batchRows_spec commits.batched
  obtain ⟨record, at_record, rfl⟩ := List.mem_map.mp (accepted.perm.mem_iff.mp member)
  exact ⟨record, at_record, accepted.admissible record at_record, rfl⟩

/-- The snapshot of a plan. -/
theorem Commits.current_eq (serial : Serial c db)
    (commits : Commits entry c db batch current plan) :
    current = ⟨c.sequence,
      ((db.contents entry.request.product).filter (·.marketDate = entry.request.day)).map
        (·.contentId),
      latestRows ((db.transitions entry.request.product).filter
        (·.marketDate = entry.request.day))⟩ :=
  ((readSnapshot_ok serial.sound.seeded).mp commits.read).2.2.2

/-- **A content of the batch is known to the snapshot exactly when the table holds it.** -/
theorem Commits.known_iff (noCollisions : NoCollisions) (serial : Serial c db)
    (catalogue : Catalogue entry.request.product db)
    (commits : Commits entry c db batch current plan) {row : BatchRow} (member : row ∈ batch) :
    row.contentId ∈ current.contents ↔
      ∃ content ∈ keyContents entry.request.product row.logicalKey db,
        content.contentHash = row.contentHash := by
  obtain ⟨record, _, admissible, rfl⟩ := commits.row member
  rw [commits.current_eq serial]
  constructor
  · intro known
    obtain ⟨content, at_content, same⟩ := List.mem_map.mp known
    have inTable := (List.mem_filter.mp at_content).1
    obtain ⟨key, hash⟩ := catalogue.same_of_id noCollisions inTable same
    exact ⟨content, mem_keyContents.mpr ⟨inTable, key⟩, hash⟩
  · rintro ⟨content, at_content, hash⟩
    obtain ⟨inTable, key⟩ := mem_keyContents.mp at_content
    refine List.mem_map.mpr ⟨content, List.mem_filter.mpr ⟨inTable, ?_⟩,
      catalogue.id_of_same inTable key hash⟩
    obtain ⟨request', record', admissible', isRow⟩ := catalogue.content content inTable
    have sameKey : record'.logicalKey = record.logicalKey :=
      (congrArg BatchRow.logicalKey isRow).symm.trans key
    rw [decide_eq_true_eq, ← admissible'.day_eq noCollisions admissible sameKey]
    exact congrArg BatchRow.marketDate isRow

/-- **The latest transition that the snapshot shows for a key of the batch is the last one that
the table holds.** -/
theorem Commits.latest (noCollisions : NoCollisions) (serial : Serial c db)
    (catalogue : Catalogue entry.request.product db)
    (commits : Commits entry c db batch current plan) {row : BatchRow} (member : row ∈ batch)
    {observed : List (String × String)}
    (history : KeyHistory entry.request.product row.logicalKey observed db) :
    current.latest.lookup row.logicalKey =
      (keyTransitions entry.request.product row.logicalKey db).getLast?.map fun transition =>
        ⟨transition.contentHash, transition.ordinal⟩ := by
  obtain ⟨record, _, admissible, rfl⟩ := commits.row member
  rw [commits.current_eq serial, latestRows_lookup, List.filter_filter]
  have ofDay : (db.transitions entry.request.product).filter (fun transition =>
      decide (transition.logicalKey = (rowOf entry.request record).logicalKey) &&
        decide (transition.marketDate = entry.request.day)) =
      keyTransitions entry.request.product (rowOf entry.request record).logicalKey db := by
    refine List.filter_congr fun transition inTable => ?_
    by_cases key : transition.logicalKey = (rowOf entry.request record).logicalKey
    · obtain ⟨request', record', _, _, _, _, admissible', rfl⟩ :=
        catalogue.transition transition inTable
      have day := admissible'.day_eq noCollisions admissible key
      rw [decide_eq_true key, Bool.true_and]
      exact decide_eq_true day
    · simp [key]
  rw [ofDay, argmax_of_increasing history.revised.increasing]

/-! ## The step lemmas for a commit -/

/-- The contents that a batch adds. -/
abbrev added (entry : Entry) (current : Snapshot) (batch : List BatchRow) : List ContentRow :=
  batch.filterMap (newContent entry.runId current)

/-- The transitions that a batch adds. -/
abbrev moves (entry : Entry) (current : Snapshot) (batch : List BatchRow) : List TransitionRow :=
  batch.filterMap (newTransition entry.runId current)

omit [Platform] in
theorem newContent_key {runId : String} {row : BatchRow} {content : ContentRow}
    (isNew : newContent runId current row = some content) :
    content.logicalKey = row.logicalKey := by
  obtain ⟨_, rfl⟩ := newContent_eq_some.mp isNew
  rfl

theorem newTransition_key {runId : String} {row : BatchRow} {transition : TransitionRow}
    (isNew : newTransition runId current row = some transition) :
    transition.logicalKey = row.logicalKey := by
  obtain ⟨_, _, rfl⟩ := newTransition_eq_some.mp isNew
  rfl

theorem Commits.content_new (noCollisions : NoCollisions) (serial : Serial c db)
    (catalogue : Catalogue entry.request.product db)
    (commits : Commits entry c db batch current plan) {content : ContentRow}
    (member : content ∈ added entry current batch) :
    content.contentId ∉ (db.contents entry.request.product).map (·.contentId) := by
  intro known
  obtain ⟨row, at_row, isNew⟩ := List.mem_filterMap.mp member
  obtain ⟨unknown, rfl⟩ := newContent_eq_some.mp isNew
  obtain ⟨old, at_old, same⟩ := List.mem_map.mp known
  obtain ⟨record, _, _, rfl⟩ := commits.row at_row
  obtain ⟨key, hash⟩ := catalogue.same_of_id noCollisions at_old same
  exact unknown ((commits.known_iff noCollisions serial catalogue at_row).mpr
    ⟨old, mem_keyContents.mpr ⟨at_old, key⟩, hash⟩)

theorem Commits.transition_new (noCollisions : NoCollisions) (serial : Serial c db)
    (catalogue : Catalogue entry.request.product db)
    (commits : Commits entry c db batch current plan) {transition : TransitionRow}
    (member : transition ∈ moves entry current batch) :
    transition.transitionId ∉ (db.transitions entry.request.product).map (·.transitionId) := by
  intro known
  obtain ⟨row, _, isNew⟩ := List.mem_filterMap.mp member
  obtain ⟨ordinal, _, rfl⟩ := newTransition_eq_some.mp isNew
  obtain ⟨old, at_old, same⟩ := List.mem_map.mp known
  obtain ⟨owner, wrote, ofRun, _⟩ := serial.sound.transitions _ old at_old
  obtain ⟨_, _, _, _, _, _, _, rfl⟩ := catalogue.transition old at_old
  have runs := (transitionId_injective noCollisions same).1
  exact commits.fresh owner wrote.member (ofRun.trans runs)

/-- **The contents after a commit** are those before it and the added ones. -/
theorem Commits.contents (noCollisions : NoCollisions) (serial : Serial c db)
    (catalogue : Catalogue entry.request.product db)
    (commits : Commits entry c db batch current plan) :
    (afterCommit entry plan c db).contents entry.request.product =
      db.contents entry.request.product ++ added entry current batch := by
  have plan_eq := (planWrite_eq commits.planned).2
  simp only [afterCommit, committedDatabase, updateRuns, insertRows, withRun, commitParameters,
    Function.update_self, plan_eq, mergeRows]
  congr 1
  rw [List.filter_eq_self]
  intro content member
  exact decide_eq_true (commits.content_new noCollisions serial catalogue member)

/-- **The transitions after a commit** are those before it and the added ones. -/
theorem Commits.transitions (noCollisions : NoCollisions) (serial : Serial c db)
    (catalogue : Catalogue entry.request.product db)
    (commits : Commits entry c db batch current plan) :
    (afterCommit entry plan c db).transitions entry.request.product =
      db.transitions entry.request.product ++ moves entry current batch := by
  have plan_eq := (planWrite_eq commits.planned).2
  simp only [afterCommit, committedDatabase, updateRuns, insertRows, withRun, commitParameters,
    Function.update_self, plan_eq, mergeRows]
  congr 1
  rw [List.filter_eq_self]
  intro transition member
  exact decide_eq_true (commits.transition_new noCollisions serial catalogue member)

theorem Commits.distinct (commits : Commits entry c db batch current plan) :
    (batch.map (·.logicalKey)).Nodup := (batchRows_spec commits.batched).distinct

theorem Catalogue.committed (noCollisions : NoCollisions) (serial : Serial c db)
    (catalogue : Catalogue entry.request.product db)
    (commits : Commits entry c db batch current plan) :
    Catalogue entry.request.product (afterCommit entry plan c db) := by
  have contents := commits.contents noCollisions serial catalogue
  have transitions := commits.transitions noCollisions serial catalogue
  have ofBatch : ∀ content ∈ added entry current batch, ∃ record,
      Admissible entry.request record ∧ content.toBatchRow = rowOf entry.request record := by
    intro content member
    obtain ⟨row, at_row, isNew⟩ := List.mem_filterMap.mp member
    obtain ⟨_, rfl⟩ := newContent_eq_some.mp isNew
    obtain ⟨record, _, admissible, rfl⟩ := commits.row at_row
    exact ⟨record, admissible, rfl⟩
  constructor
  · rw [contents]
    intro content member
    rcases List.mem_append.mp member with before | new
    · exact catalogue.content content before
    · obtain ⟨record, admissible, isRow⟩ := ofBatch content new
      exact ⟨_, record, admissible, isRow⟩
  · rw [transitions]
    intro transition member
    rcases List.mem_append.mp member with before | new
    · exact catalogue.transition transition before
    · obtain ⟨row, at_row, isNew⟩ := List.mem_filterMap.mp new
      obtain ⟨ordinal, _, rfl⟩ := newTransition_eq_some.mp isNew
      obtain ⟨record, _, admissible, rfl⟩ := commits.row at_row
      exact ⟨_, record, _, _, _, none, admissible, rfl⟩
  · rw [contents, List.map_append]
    refine List.nodup_append.mpr ⟨catalogue.contentIds, ?_, fun id known other new clash => ?_⟩
    · refine nodup_of_determines (f := fun content : ContentRow => content.logicalKey)
        ((map_filterMap_sublist (fun _ _ => newContent_key) batch).nodup commits.distinct) ?_
      intro a at_a b at_b same
      obtain ⟨record, _, isRow⟩ := ofBatch a at_a
      obtain ⟨record', _, isRow'⟩ := ofBatch b at_b
      have ids : contentId record = contentId record' :=
        (congrArg BatchRow.contentId isRow).symm.trans
          (same.trans (congrArg BatchRow.contentId isRow'))
      exact (congrArg BatchRow.logicalKey isRow).trans
        ((contentId_injective noCollisions ids).1.trans
          (congrArg BatchRow.logicalKey isRow').symm)
    · obtain ⟨content, at_content, rfl⟩ := List.mem_map.mp new
      exact commits.content_new noCollisions serial catalogue at_content (clash ▸ known)
  · rw [transitions, List.map_append]
    refine List.nodup_append.mpr ⟨catalogue.transitionIds, ?_, fun id known other new clash => ?_⟩
    · refine nodup_of_determines (f := fun transition : TransitionRow => transition.logicalKey)
        ((map_filterMap_sublist (fun _ _ => newTransition_key) batch).nodup commits.distinct) ?_
      intro a at_a b at_b same
      obtain ⟨row, _, isNew⟩ := List.mem_filterMap.mp at_a
      obtain ⟨row', _, isNew'⟩ := List.mem_filterMap.mp at_b
      obtain ⟨_, _, rfl⟩ := newTransition_eq_some.mp isNew
      obtain ⟨_, _, rfl⟩ := newTransition_eq_some.mp isNew'
      exact (transitionId_injective noCollisions same).2
    · obtain ⟨transition, at_transition, rfl⟩ := List.mem_map.mp new
      exact commits.transition_new noCollisions serial catalogue at_transition (clash ▸ known)
  · rw [contents, transitions]
    intro transition member
    rcases List.mem_append.mp member with before | new
    · obtain ⟨content, at_content, same⟩ := catalogue.references transition before
      exact ⟨content, List.mem_append_left _ at_content, same⟩
    · obtain ⟨row, at_row, isNew⟩ := List.mem_filterMap.mp new
      obtain ⟨ordinal, _, rfl⟩ := newTransition_eq_some.mp isNew
      by_cases known : row.contentId ∈ current.contents
      · obtain ⟨content, at_content, hash⟩ :=
          (commits.known_iff noCollisions serial catalogue at_row).mp known
        obtain ⟨inTable, key⟩ := mem_keyContents.mp at_content
        obtain ⟨record, _, _, rfl⟩ := commits.row at_row
        exact ⟨content, List.mem_append_left _ inTable,
          catalogue.id_of_same inTable key hash, key, hash⟩
      · exact ⟨{ row with firstRunId := entry.runId, firstSeenAt := none },
          List.mem_append_right _ (List.mem_filterMap.mpr
            ⟨row, at_row, newContent_eq_some.mpr ⟨known, rfl⟩⟩), rfl, rfl, rfl⟩

theorem Commits.rows_of_key (commits : Commits entry c db batch current plan) (key : String) :
    batch.filter (·.logicalKey = key) =
      ((entry.records.find? (·.logicalKey = key)).map (rowOf entry.request)).toList := by
  have accepted := batchRows_spec commits.batched
  have distinct : (entry.records.map Observation.logicalKey).Nodup := by
    have keys := (accepted.perm.map (·.logicalKey)).nodup_iff.mp accepted.distinct
    rwa [List.map_map] at keys
  have rows : (batch.filter (·.logicalKey = key)).Perm
      ((entry.records.filter (·.logicalKey = key)).map (rowOf entry.request)) := by
    have filtered := accepted.perm.filter fun row : BatchRow => decide (row.logicalKey = key)
    rwa [List.filter_map] at filtered
  rw [filter_eq_find? distinct] at rows
  cases found : entry.records.find? (·.logicalKey = key) with
  | none =>
      rw [found] at rows
      exact List.perm_nil.mp rows
  | some record =>
      rw [found] at rows
      exact List.perm_singleton.mp rows

/-- The ordinal that the next transition of a key gets, if its hash is not the last one. -/
theorem Commits.nextOrdinal_eq (noCollisions : NoCollisions) (serial : Serial c db)
    (catalogue : Catalogue entry.request.product db)
    (commits : Commits entry c db batch current plan) {row : BatchRow} (member : row ∈ batch)
    {observed : List (String × String)}
    (history : KeyHistory entry.request.product row.logicalKey observed db) :
    nextOrdinal current row =
      if (observed.map Prod.snd).getLast? = some row.contentHash then none
      else some ((keyTransitions entry.request.product row.logicalKey db).length + 1) := by
  rw [nextOrdinal, commits.latest noCollisions serial catalogue member history,
    ← history.revised.last_value]
  cases last : (keyTransitions entry.request.product row.logicalKey db).getLast? with
  | none =>
      rw [List.getLast?_eq_none_iff.mp last]
      rfl
  | some transition =>
      have number := history.revised.last_number last
      simp only [Option.map_some, Option.some.injEq, number, ne_eq]
      split_ifs <;> rfl

/-- A commit extends the history of a key that its batch observes. -/
theorem KeyHistory.observed (noCollisions : NoCollisions) (serial : Serial c db)
    (catalogue : Catalogue entry.request.product db)
    (commits : Commits entry c db batch current plan) {row : BatchRow} (member : row ∈ batch)
    {observed : List (String × String)}
    (history : KeyHistory entry.request.product row.logicalKey observed db) {after : Database}
    (contents : keyContents entry.request.product row.logicalKey after =
      keyContents entry.request.product row.logicalKey db ++
        (newContent entry.runId current row).toList)
    (transitions : keyTransitions entry.request.product row.logicalKey after =
      keyTransitions entry.request.product row.logicalKey db ++
        (newTransition entry.runId current row).toList) :
    KeyHistory entry.request.product row.logicalKey
      (observed ++ [(entry.runId, row.contentHash)]) after := by
  have known := commits.known_iff noCollisions serial catalogue member
  have ordinal := commits.nextOrdinal_eq noCollisions serial catalogue member history
  have earlier : ∀ transition ∈ keyTransitions entry.request.product row.logicalKey db,
      transition.commitSequence < current.sequence + 1 := by
    intro transition at_transition
    obtain ⟨inTable, _⟩ := mem_keyTransitions.mp at_transition
    obtain ⟨owner, wrote, _, number, _⟩ := serial.sound.transitions _ transition inTable
    obtain ⟨n, less, same⟩ := serial.sound.numbered owner wrote.member wrote.committed
    have sequence : current.sequence = c.sequence := by rw [commits.current_eq serial]
    rw [number] at same
    have bound := Option.some.inj same
    omega
  have revised : RevisionLog (·.ordinal) (·.contentHash)
        ((observed ++ [(entry.runId, row.contentHash)]).map Prod.snd)
        (keyTransitions entry.request.product row.logicalKey after) ∧
      ((keyTransitions entry.request.product row.logicalKey after).Pairwise fun a b =>
        a.commitSequence < b.commitSequence) ∧
      ∀ transition ∈ keyTransitions entry.request.product row.logicalKey after,
        (transition.runId, transition.contentHash) ∈
          observed ++ [(entry.runId, row.contentHash)] := by
    rw [transitions, newTransition, ordinal, List.map_append]
    by_cases last : (observed.map Prod.snd).getLast? = some row.contentHash
    · rw [if_pos last, Option.map_none, Option.toList_none, List.append_nil]
      exact ⟨history.revised.observe_same last, history.increasing,
        fun transition member => List.mem_append_left _ (history.observers transition member)⟩
    · rw [if_neg last, Option.map_some, Option.toList_some]
      refine ⟨history.revised.observe_new (e := transitionOf entry.runId current.sequence row _)
        last rfl, List.pairwise_append.mpr ⟨history.increasing, List.pairwise_singleton _ _, ?_⟩,
        fun transition member => ?_⟩
      · intro a at_a b at_b
        rw [List.mem_singleton.mp at_b]
        exact earlier a at_a
      · rcases List.mem_append.mp member with before | new
        · exact List.mem_append_left _ (history.observers transition before)
        · rw [List.mem_singleton.mp new]
          exact List.mem_append_right _ (List.mem_singleton_self _)
  refine ⟨revised.1, revised.2.1, revised.2.2, ?_⟩
  rw [contents]
  by_cases isKnown : row.contentId ∈ current.contents
  · rw [newContent, if_pos isKnown, Option.toList_none, List.append_nil]
    exact history.seen.observe_known (known.mp isKnown)
  · rw [newContent, if_neg isKnown, Option.toList_some]
    exact history.seen.observe_new
      (e := { row with firstRunId := entry.runId, firstSeenAt := none }) (mt known.mpr isKnown)

/-- The contents of a key after a commit. -/
theorem Commits.contents_of_key (noCollisions : NoCollisions) (serial : Serial c db)
    (catalogue : Catalogue entry.request.product db)
    (commits : Commits entry c db batch current plan) (key : String) :
    keyContents entry.request.product key (afterCommit entry plan c db) =
      keyContents entry.request.product key db ++
        (batch.filter (·.logicalKey = key)).filterMap (newContent entry.runId current) := by
  rw [keyContents, commits.contents noCollisions serial catalogue,
    List.filter_append, filter_filterMap (fun _ _ => newContent_key)]
  rfl

/-- The transitions of a key after a commit. -/
theorem Commits.transitions_of_key (noCollisions : NoCollisions) (serial : Serial c db)
    (catalogue : Catalogue entry.request.product db)
    (commits : Commits entry c db batch current plan) (key : String) :
    keyTransitions entry.request.product key (afterCommit entry plan c db) =
      keyTransitions entry.request.product key db ++
        (batch.filter (·.logicalKey = key)).filterMap (newTransition entry.runId current) := by
  rw [keyTransitions, commits.transitions noCollisions serial catalogue,
    List.filter_append, filter_filterMap (fun _ _ => newTransition_key)]
  rfl

/-- **A commit extends the history of every key** by what its batch observes. -/
theorem KeyHistory.committed (noCollisions : NoCollisions) (serial : Serial c db)
    (catalogue : Catalogue entry.request.product db)
    (commits : Commits entry c db batch current plan) {key : String}
    {observed : List (String × String)}
    (history : KeyHistory entry.request.product key observed db) :
    KeyHistory entry.request.product key
      (observed ++ (entry.observes entry.request.product key).toList)
      (afterCommit entry plan c db) := by
  have contents := commits.contents_of_key noCollisions serial catalogue key
  have transitions := commits.transitions_of_key noCollisions serial catalogue key
  have rows := commits.rows_of_key key
  rw [Entry.observes, if_pos rfl]
  cases found : entry.records.find? (·.logicalKey = key) with
  | none =>
      rw [found] at rows
      rw [rows, Option.map_none, Option.toList_none, List.filterMap_nil, List.append_nil]
        at contents transitions
      rw [Option.map_none, Option.toList_none, List.append_nil]
      exact ⟨transitions ▸ history.revised, transitions ▸ history.increasing,
        transitions ▸ history.observers, contents ▸ history.seen⟩
  | some record =>
      have ofKey : record.logicalKey = key := by simpa using List.find?_some found
      subst ofKey
      rw [found] at rows
      have member : rowOf entry.request record ∈ batch := by
        have inFilter : rowOf entry.request record ∈
            batch.filter (·.logicalKey = record.logicalKey) := rows ▸ List.mem_singleton_self _
        exact (List.mem_filter.mp inFilter).1
      rw [rows] at contents transitions
      exact history.observed noCollisions serial catalogue commits member
        (contents.trans (congrArg _ (filterMap_singleton _ _)))
        (transitions.trans (congrArg _ (filterMap_singleton _ _)))

/-! ## Finalizations -/

/-- The content with another clock. -/
def ContentRow.setClock (content : ContentRow) (time : Option UtcTime) : ContentRow :=
  { content with firstSeenAt := time }

/-- The transition with another clock. -/
def TransitionRow.setClock (transition : TransitionRow) (time : Option UtcTime) : TransitionRow :=
  { transition with knownAt := time }

/-- The second tables of a product differ from the first in clocks only. -/
structure SameButClocks (product : Product) (db after : Database) : Prop where
  contents : ∃ clock : ContentRow → Option UtcTime, after.contents product =
    (db.contents product).map fun content => content.setClock (clock content)
  transitions : ∃ clock : TransitionRow → Option UtcTime, after.transitions product =
    (db.transitions product).map fun transition => transition.setClock (clock transition)

omit [Platform] in
theorem SameButClocks.of_eq {product : Product} {db after : Database}
    (contents : after.contents product = db.contents product)
    (transitions : after.transitions product = db.transitions product) :
    SameButClocks product db after :=
  ⟨⟨(·.firstSeenAt), contents.trans (List.map_id _).symm⟩,
    ⟨(·.knownAt), transitions.trans (List.map_id _).symm⟩⟩

theorem afterCommit_other {product : Product} (other : product ≠ entry.request.product) :
    SameButClocks product db (afterCommit entry plan c db) := by
  refine .of_eq ?_ ?_ <;>
    simp only [afterCommit, committedDatabase, updateRuns, insertRows, withRun,
      Function.update_of_ne other]

omit [Platform] in
theorem finalized_sameButClocks (product product' : Product) (p : FinalizeParameters)
    (now : UtcTime) (c : ControlRow) (db : Database) :
    SameButClocks product db (finalizedDatabase product' p now c db) := by
  by_cases same : product = product'
  · subst same
    constructor
    · simp only [finalizedDatabase, updateRuns, fillClocks, Function.update_self]
      refine ⟨fun content => if content.firstRunId = p.runId ∧ content.firstSeenAt = none then
        some p.knowledgeAt else content.firstSeenAt, List.map_congr_left fun content _ => ?_⟩
      simp only [ContentRow.setClock]
      split_ifs <;> rfl
    · simp only [finalizedDatabase, updateRuns, fillClocks, Function.update_self]
      refine ⟨fun transition => if transition.runId = p.runId ∧ transition.knownAt = none then
        some p.knowledgeAt else transition.knownAt, List.map_congr_left fun transition _ => ?_⟩
      simp only [TransitionRow.setClock]
      split_ifs <;> rfl
  · refine .of_eq ?_ ?_ <;>
      simp only [finalizedDatabase, updateRuns, fillClocks, Function.update_of_ne same]

theorem afterRun_sameButClocks (product : Product) (entry : Entry) (plan : WritePlan)
    (c : ControlRow) (db : Database) :
    SameButClocks product (afterCommit entry plan c db) (afterRun entry plan c db) := by
  unfold afterRun
  cases entry.finalization with
  | none => exact .of_eq rfl rfl
  | some knowledgeAt => exact finalized_sameButClocks ..

theorem Catalogue.of_clocks {product : Product} {after : Database}
    (catalogue : Catalogue product db) (clocks : SameButClocks product db after) :
    Catalogue product after := by
  obtain ⟨clock, contents⟩ := clocks.contents
  obtain ⟨clock', transitions⟩ := clocks.transitions
  constructor
  · rw [contents]
    intro content member
    obtain ⟨old, at_old, rfl⟩ := List.mem_map.mp member
    exact catalogue.content old at_old
  · rw [transitions]
    intro transition member
    obtain ⟨old, at_old, rfl⟩ := List.mem_map.mp member
    obtain ⟨request, record, runId, sequence, ordinal, _, admissible, same⟩ :=
      catalogue.transition old at_old
    exact ⟨request, record, runId, sequence, ordinal, clock' old, admissible, by
      rw [same, TransitionRow.setClock]⟩
  · rw [contents, List.map_map]
    exact catalogue.contentIds
  · rw [transitions, List.map_map]
    exact catalogue.transitionIds
  · rw [contents, transitions]
    intro transition member
    obtain ⟨old, at_old, rfl⟩ := List.mem_map.mp member
    obtain ⟨content, at_content, same⟩ := catalogue.references old at_old
    exact ⟨_, List.mem_map_of_mem at_content, same⟩

omit [Platform] in
theorem KeyHistory.of_clocks {product : Product} {key : String}
    {observed : List (String × String)} {after : Database}
    (history : KeyHistory product key observed db) (clocks : SameButClocks product db after) :
    KeyHistory product key observed after := by
  obtain ⟨clock, contents⟩ := clocks.contents
  obtain ⟨clock', transitions⟩ := clocks.transitions
  have contents' : keyContents product key after =
      (keyContents product key db).map fun content => content.setClock (clock content) := by
    rw [keyContents, contents, List.filter_map]
    rfl
  have transitions' : keyTransitions product key after =
      (keyTransitions product key db).map fun transition =>
        transition.setClock (clock' transition) := by
    rw [keyTransitions, transitions, List.filter_map]
    rfl
  refine ⟨?_, ?_, ?_, ?_⟩
  · rw [transitions']
    exact history.revised.map (fun _ => rfl) fun _ => rfl
  · rw [transitions', List.pairwise_map]
    exact history.increasing
  · rw [transitions']
    intro transition member
    obtain ⟨old, at_old, rfl⟩ := List.mem_map.mp member
    exact history.observers old at_old
  · rw [contents']
    exact history.seen.map (fun _ => rfl) fun _ => rfl

end Commit

/-! ## The run lemma -/

/-- What holds of the tables of a product after runs with these entries. -/
structure ProductHistory (product : Product) (entries : List Entry) (db : Database) : Prop where
  catalogue : Catalogue product db
  history : ∀ key, KeyHistory product key (observations product key entries) db

/-- **One more run** extends the history of every key. -/
theorem ProductHistory.accepted (noCollisions : NoCollisions) {entries : List Entry}
    {entry : Entry} {c : ControlRow} {db : Database} {batch : List BatchRow} {current : Snapshot}
    {plan : WritePlan} (serial : Serial c db)
    (commits : Commits entry c db batch current plan) {product : Product}
    (before : ProductHistory product entries db) :
    ProductHistory product (entries ++ [entry]) (afterRun entry plan c db) := by
  have clocks := afterRun_sameButClocks product entry plan c db
  have observed : ∀ key, observations product key (entries ++ [entry]) =
      observations product key entries ++ (entry.observes product key).toList := by
    intro key
    rw [observations, List.filterMap_append]
    cases seen : entry.observes product key <;> simp [observations, seen]
  by_cases same : product = entry.request.product
  · subst same
    refine ⟨(before.catalogue.committed noCollisions serial commits).of_clocks clocks,
      fun key => ?_⟩
    rw [observed]
    exact ((before.history key).committed noCollisions serial before.catalogue commits).of_clocks
      clocks
  · have unchanged : SameButClocks product db (afterCommit entry plan c db) :=
      afterCommit_other same
    refine ⟨(before.catalogue.of_clocks unchanged).of_clocks clocks, fun key => ?_⟩
    rw [observed, Entry.observes, if_neg (Ne.symm same), Option.toList_none, List.append_nil]
    exact ((before.history key).of_clocks unchanged).of_clocks clocks

/-- **The run lemma.** The histories of all keys after any number of runs. -/
theorem acceptAll_history (noCollisions : NoCollisions) {entries : List Entry} {db : Database}
    (accepted : acceptAll entries Database.seeded = .ok db) (product : Product) :
    ProductHistory product entries db := by
  induction entries using List.reverseRecOn generalizing db with
  | nil =>
      cases accepted
      exact ⟨⟨by simp [Database.seeded, Database.created], by simp [Database.seeded, Database.created],
        List.nodup_nil, List.nodup_nil, by simp [Database.seeded, Database.created]⟩,
        fun _ => ⟨.nil, .nil, fun _ impossible => (by cases impossible), .nil⟩⟩
  | append_singleton entries entry ih =>
      obtain ⟨before, earlier, last⟩ := acceptAll_snoc.mp accepted
      obtain ⟨c, serial⟩ := acceptAll_serial earlier
      obtain ⟨batch, current, plan, commits, rfl⟩ := (acceptRun_iff serial).mp last
      exact (ih earlier).accepted noCollisions serial commits

/-! ## Keys that a batch does not observe -/

omit [Platform] in
theorem keyContents_finalized {product product' : Product} {key : String} {p : FinalizeParameters}
    {now : UtcTime} {c : ControlRow} {db : Database}
    (foreign : ∀ content ∈ keyContents product key db, content.firstRunId ≠ p.runId) :
    keyContents product key (finalizedDatabase product' p now c db) =
      keyContents product key db := by
  by_cases same : product = product'
  · subst same
    simp only [keyContents, finalizedDatabase, updateRuns, fillClocks, Function.update_self,
      List.filter_map]
    have keys : ((fun content : ContentRow => decide (content.logicalKey = key)) ∘ fun content =>
        if content.firstRunId = p.runId ∧ content.firstSeenAt = none then
          { content with firstSeenAt := some p.knowledgeAt } else content) =
        fun content => decide (content.logicalKey = key) := by
      funext content
      simp only [Function.comp_apply]
      split_ifs <;> rfl
    rw [keys]
    conv_rhs => rw [← List.map_id ((db.contents product).filter _)]
    refine List.map_congr_left fun content member => ?_
    rw [if_neg fun both => foreign content member both.1, id]
  · simp only [keyContents, finalizedDatabase, updateRuns, fillClocks, Function.update_of_ne same]

omit [Platform] in
theorem keyTransitions_finalized {product product' : Product} {key : String}
    {p : FinalizeParameters} {now : UtcTime} {c : ControlRow} {db : Database}
    (foreign : ∀ transition ∈ keyTransitions product key db, transition.runId ≠ p.runId) :
    keyTransitions product key (finalizedDatabase product' p now c db) =
      keyTransitions product key db := by
  by_cases same : product = product'
  · subst same
    simp only [keyTransitions, finalizedDatabase, updateRuns, fillClocks, Function.update_self,
      List.filter_map]
    have keys : ((fun transition : TransitionRow => decide (transition.logicalKey = key)) ∘
        fun transition => if transition.runId = p.runId ∧ transition.knownAt = none then
          { transition with knownAt := some p.knowledgeAt } else transition) =
        fun transition => decide (transition.logicalKey = key) := by
      funext transition
      simp only [Function.comp_apply]
      split_ifs <;> rfl
    rw [keys]
    conv_rhs => rw [← List.map_id ((db.transitions product).filter _)]
    refine List.map_congr_left fun transition member => ?_
    rw [if_neg fun both => foreign transition member both.1, id]
  · simp only [keyTransitions, finalizedDatabase, updateRuns, fillClocks,
      Function.update_of_ne same]

/-- **A run leaves the keys alone that its batch does not observe.** -/
theorem Commits.untouched (noCollisions : NoCollisions) {entry : Entry} {c : ControlRow}
    {db : Database} {batch : List BatchRow} {current : Snapshot} {plan : WritePlan}
    (serial : Serial c db) (catalogue : Catalogue entry.request.product db)
    (commits : Commits entry c db batch current plan) {key : String}
    (absent : ∀ record ∈ entry.records, record.logicalKey ≠ key) (product : Product) :
    keyContents product key (afterRun entry plan c db) = keyContents product key db ∧
      keyTransitions product key (afterRun entry plan c db) = keyTransitions product key db := by
  have committed : keyContents product key (afterCommit entry plan c db) =
      keyContents product key db ∧
      keyTransitions product key (afterCommit entry plan c db) =
        keyTransitions product key db := by
    by_cases same : product = entry.request.product
    · subst same
      have found : entry.records.find? (·.logicalKey = key) = none := by
        rw [List.find?_eq_none]
        intro record member holds
        exact absent record member (of_decide_eq_true holds)
      have rows := commits.rows_of_key key
      rw [found, Option.map_none, Option.toList_none] at rows
      exact ⟨by rw [commits.contents_of_key noCollisions serial catalogue, rows, List.filterMap_nil,
        List.append_nil], by rw [commits.transitions_of_key noCollisions serial catalogue, rows,
        List.filterMap_nil, List.append_nil]⟩
    · simp only [keyContents, keyTransitions, afterCommit, committedDatabase, updateRuns,
        insertRows, withRun, Function.update_of_ne same]
      exact ⟨trivial, trivial⟩
  unfold afterRun
  cases entry.finalization with
  | none => exact committed
  | some knowledgeAt =>
      simp only
      rw [keyContents_finalized, keyTransitions_finalized]
      · exact committed
      · rw [committed.2]
        intro transition member
        obtain ⟨owner, wrote, ofRun, _⟩ :=
          serial.sound.transitions product transition (mem_keyTransitions.mp member).1
        exact ofRun ▸ commits.fresh owner wrote.member
      · rw [committed.1]
        intro content member
        obtain ⟨owner, wrote, ofRun, _⟩ :=
          serial.sound.contents product content (mem_keyContents.mp member).1
        exact ofRun ▸ commits.fresh owner wrote.member

/-! ## The law -/

theorem Catalogue.snapshot {c : ControlRow} {db : Database} {product : Product}
    (catalogue : Catalogue product db) (seeded : Seeded db c) (free : c.activeRunId = none)
    (day : Date) : ∃ current, readSnapshot (snapshotQuery product day db) = .ok current := by
  have schemas : ∀ content ∈ db.contents product, content.marketDate = day →
      content.logicalKeySchema = keySchema ∧ content.contentHashSchema = contentSchema := by
    intro content member _
    obtain ⟨request, record, _, isRow⟩ := catalogue.content content member
    exact ⟨congrArg BatchRow.logicalKeySchema isRow, congrArg BatchRow.contentHashSchema isRow⟩
  have distinct : (((db.contents product).filter (·.marketDate = day)).map
      (·.contentId)).Nodup := catalogue.contentIds.sublist (List.filter_sublist.map _)
  exact ⟨_, (readSnapshot_ok seeded).mpr ⟨free, schemas, distinct, rfl⟩⟩

/-- **A batch that passes its checks is accepted next**, by a run whose id is new. -/
theorem acceptAll_next (noCollisions : NoCollisions) {entries : List Entry} {entry : Entry}
    {c : ControlRow} {db : Database} {batch : List BatchRow}
    (accepted : acceptAll entries Database.seeded = .ok db) (serial : Serial c db)
    (free : c.activeRunId = none) (valid : isRunId entry.runId = true)
    (fresh : ∀ row ∈ db.runs, row.runId ≠ entry.runId)
    (batched : batchRows entry.request entry.records = .ok batch) :
    ∃ current plan, Commits entry c db batch current plan ∧
      acceptAll (entries ++ [entry]) Database.seeded = .ok (afterRun entry plan c db) := by
  have catalogue := (acceptAll_history noCollisions accepted entry.request.product).catalogue
  obtain ⟨current, read⟩ := catalogue.snapshot serial.sound.seeded free entry.request.day
  obtain ⟨plan, planned⟩ : ∃ plan, planWrite entry.runId batch current = .ok plan := by
    rw [planWrite, validateRunId_ok valid]
    exact ⟨_, rfl⟩
  have commits : Commits entry c db batch current plan := ⟨batched, read, planned, fresh, free⟩
  exact ⟨current, plan, commits, acceptAll_snoc.mpr
    ⟨db, accepted, (acceptRun_iff serial).mpr ⟨_, _, _, commits, rfl⟩⟩⟩

/-- **Runs that can be executed one after another**: they are finalized, their ids are valid and
differ, and their batches pass the checks. -/
theorem acceptAll_ok (noCollisions : NoCollisions) {entries : List Entry}
    (ids : (entries.map (·.runId)).Nodup)
    (passes : ∀ entry ∈ entries, isRunId entry.runId = true ∧ entry.finalization ≠ none ∧
      ∃ batch, batchRows entry.request entry.records = .ok batch) :
    ∃ c db, acceptAll entries Database.seeded = .ok db ∧ Serial c db ∧ c.activeRunId = none := by
  induction entries using List.reverseRecOn with
  | nil => exact ⟨_, _, rfl, serial_seeded, rfl⟩
  | append_singleton entries entry ih =>
      rw [List.map_append, List.map_singleton, List.nodup_append] at ids
      rw [List.forall_mem_append, List.forall_mem_singleton] at passes
      obtain ⟨c, db, accepted, serial, free⟩ := ih ids.1 passes.1
      obtain ⟨valid, finalized, batch, batched⟩ := passes.2
      have fresh : ∀ row ∈ db.runs, row.runId ≠ entry.runId := by
        intro row member
        refine ids.2.2 _ ?_ _ (List.mem_singleton.mpr rfl)
        rw [← acceptAll_ids accepted]
        exact List.mem_map_of_mem member
      obtain ⟨current, plan, commits, next⟩ :=
        acceptAll_next noCollisions accepted serial free valid fresh batched
      refine ⟨_, _, next, afterRun_serial serial commits, ?_⟩
      obtain ⟨time, isTime⟩ := Option.ne_none_iff_exists'.mp finalized
      rw [afterControl, isTime]
      rfl

theorem Catalogue.snapshot_distinct {c : ControlRow} {db : Database} {product : Product}
    (catalogue : Catalogue product db) (seeded : Seeded db c) (day : Date) :
    readSnapshot (snapshotQuery product day db) ≠
      .error (.new .warehouseError "duplicate content IDs; warehouse requires investigation") := by
  intro duplicate
  cases gate : c.activeRunId with
  | none =>
      obtain ⟨current, reads⟩ := catalogue.snapshot seeded gate day
      rw [duplicate] at reads
      cases reads
  | some active =>
      simp only [snapshotQuery, controlRows_of_seeded seeded, List.map_cons, List.map_nil,
        readSnapshot, seeded.schema, gate, ne_eq, not_true_eq_false, ↓reduceIte,
        Except.error.injEq] at duplicate
      have messages := congrArg (fun e : Exn => e.error.message.toList.head?) duplicate
      simp [Exn.new] at messages

/-- **The revision-history law.** After any number of accepted batches, the transitions of a key
are numbered from one in the order of their commits and hold the observed hashes without adjacent
repetitions; its contents are the observed hashes, each with the first run that saw it; every
transition refers to a content of its key and hash; a batch leaves the other keys alone; and ids
are unique, so that a snapshot never shows a content id twice. -/
theorem revision_history (noCollisions : NoCollisions) {entries : List Entry} {db : Database}
    (accepted : acceptAll entries Database.seeded = .ok db) (product : Product) :
    (∀ key, KeyHistory product key (observations product key entries) db) ∧
    (∀ transition ∈ db.transitions product, ∃ content ∈ db.contents product,
      content.contentId = transition.contentId ∧ content.logicalKey = transition.logicalKey ∧
        content.contentHash = transition.contentHash) ∧
    (∀ entry after, acceptRun entry db = .ok after → ∀ key,
      (∀ record ∈ entry.records, record.logicalKey ≠ key) →
        keyContents product key after = keyContents product key db ∧
          keyTransitions product key after = keyTransitions product key db) ∧
    ((db.contents product).map (·.contentId)).Nodup ∧
    ((db.transitions product).map (·.transitionId)).Nodup ∧
    ∀ day, readSnapshot (snapshotQuery product day db) ≠
      .error (.new .warehouseError "duplicate content IDs; warehouse requires investigation") := by
  obtain ⟨c, serial⟩ := acceptAll_serial accepted
  have law := acceptAll_history noCollisions accepted product
  refine ⟨law.history, law.catalogue.references, ?_, law.catalogue.contentIds,
    law.catalogue.transitionIds, law.catalogue.snapshot_distinct serial.sound.seeded⟩
  intro entry after next key absent
  obtain ⟨batch, current, plan, commits, rfl⟩ := (acceptRun_iff serial).mp next
  have catalogue := (acceptAll_history noCollisions accepted entry.request.product).catalogue
  exact commits.untouched noCollisions serial catalogue absent product

/-! ## A load that is revised and corrected back -/

/-- A run that accepts one record of the sample day. -/
def entryOf (runId : String) (record : Observation) : Entry :=
  .own runId sampleRequest [record] sampleStart (some sampleStop)

def sampleEntry : Entry := entryOf sampleRunId sampleObservation

/-- Four runs: a load, the load of the next interval, a revision of the first and its correction. -/
def sampleHistory : List Entry :=
  [sampleEntry, entryOf "1123456789abcdef0123456789abcdef" sampleSuccessor,
    entryOf "2123456789abcdef0123456789abcdef" sampleRevision,
    entryOf "3123456789abcdef0123456789abcdef" sampleObservation]

theorem sampleSuccessor_key (noCollisions : NoCollisions) :
    sampleSuccessor.logicalKey ≠ sampleObservation.logicalKey := by
  intro same
  exact absurd ((logicalKey_eq_iff noCollisions).mp same).start (by decide)

/-- The hashes of the load in the order in which the runs observe them. -/
theorem sampleHistory_observed (noCollisions : NoCollisions) :
    (observations .load sampleObservation.logicalKey sampleHistory).map Prod.snd =
      [sampleObservation.contentHash, sampleRevision.contentHash,
        sampleObservation.contentHash] := by
  have other := sampleSuccessor_key noCollisions
  have same : sampleRevision.logicalKey = sampleObservation.logicalKey := rfl
  simp [observations, sampleHistory, sampleEntry, entryOf, Entry.own, Entry.observes, other, same,
    sampleRequest]

theorem sampleHistory_others (noCollisions : NoCollisions) :
    (observations .load sampleSuccessor.logicalKey sampleHistory).map Prod.snd =
      [sampleSuccessor.contentHash] := by
  have other := (sampleSuccessor_key noCollisions).symm
  have same : sampleRevision.logicalKey = sampleObservation.logicalKey := rfl
  simp [observations, sampleHistory, sampleEntry, entryOf, Entry.own, Entry.observes, other, same,
    sampleRequest]

theorem sampleRevision_hash (noCollisions : NoCollisions) :
    sampleObservation.contentHash ≠ sampleRevision.contentHash := by
  intro same
  exact absurd ((contentHash_eq_iff noCollisions).mp same).2 (by decide +kernel)

theorem sampleHistory_revisions (noCollisions : NoCollisions) :
    revisions [sampleObservation.contentHash, sampleRevision.contentHash,
      sampleObservation.contentHash] = [sampleObservation.contentHash, sampleRevision.contentHash,
        sampleObservation.contentHash] := by
  have differ := sampleRevision_hash noCollisions
  simp [revisions, differ, differ.symm]

omit [Platform] in
/-- Every batch of the history passes its checks. -/
theorem sampleHistory_passes : letI := Platform.plain
    (sampleHistory.map (·.runId)).Nodup ∧
      ∀ entry ∈ sampleHistory, isRunId entry.runId = true ∧ entry.finalization ≠ none ∧
        ∃ batch, batchRows entry.request entry.records = .ok batch := by
  refine ⟨by decide, ?_⟩
  unfold sampleHistory
  rw [List.forall_mem_cons, List.forall_mem_cons, List.forall_mem_cons,
    List.forall_mem_singleton]
  exact ⟨⟨by decide, Option.some_ne_none _, _, rfl⟩, ⟨by decide, Option.some_ne_none _, _, rfl⟩,
    ⟨by decide, Option.some_ne_none _, _, rfl⟩, ⟨by decide, Option.some_ne_none _, _, rfl⟩⟩

omit [Platform] in
/-- The history of a load that was revised and corrected back has three transitions. -/
theorem revision_history_sample :
    letI := Platform.plain
    ∃ db, acceptAll sampleHistory Database.seeded = .ok db ∧
      (keyTransitions .load sampleObservation.logicalKey db).map (·.contentHash) =
        [sampleObservation.contentHash, sampleRevision.contentHash,
          sampleObservation.contentHash] ∧
      (keyTransitions .load sampleObservation.logicalKey db).map (·.ordinal) = [1, 2, 3] ∧
      ((db.contents .load).map (·.contentId)).Nodup := by
  let _ := Platform.plain
  obtain ⟨distinct, passes⟩ := sampleHistory_passes
  obtain ⟨_, db, accepted, _⟩ := acceptAll_ok noCollisions_plain distinct passes
  obtain ⟨history, _, _, ids, _⟩ := revision_history noCollisions_plain accepted .load
  have revised := (history sampleObservation.logicalKey).revised
  have values := revised.values
  rw [sampleHistory_observed noCollisions_plain, sampleHistory_revisions noCollisions_plain]
    at values
  have length := congrArg List.length values
  rw [List.length_map] at length
  have numbers := revised.numbers
  rw [length] at numbers
  exact ⟨db, accepted, values, numbers, ids⟩

end PowerMarket
