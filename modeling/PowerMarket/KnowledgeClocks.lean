import PowerMarket.Serializability

/-!
# Knowledge clocks

The clock of a content or a transition is missing while the run that wrote it is committed, and
from its finalization on it is the knowledge time of that run, which is the end of the commit job.
Knowledge times follow the order of the commits, so that a transition is never known before the
content that it refers to was first seen (`knowledge_clocks`).
-/

set_option autoImplicit false

namespace PowerMarket

open Library JobService

/-- A clock is missing while the run is committed, and its knowledge time otherwise. -/
structure Clocked (clock : Option UtcTime) (row : RunRow) : Prop where
  missing : clock = none ↔ row.status = .committed
  known : row.status ≠ .committed → clock = row.knowledgeAt

variable [Platform]

/-! ## Clocks of rows -/

theorem Wrote.product_eq (noCollisions : NoCollisions) {c : ControlRow} {db : Database}
    (sound : Sound c db) {product : Product} {row : RunRow} (wrote : Wrote db product row) :
    row.product = product := by
  obtain ⟨request, rfl, ofRequest⟩ := wrote.request
  obtain ⟨begun, requestId, product_eq, _⟩ := sound.bound row wrote.member
  rw [product_eq]
  exact Request.requestId_product noCollisions (requestId.symm.trans ofRequest)

theorem Wrote.clocked (noCollisions : NoCollisions) {c : ControlRow} {db : Database}
    (sound : Sound c db) {product : Product} {row : RunRow} (wrote : Wrote db product row) :
    Clocked (row.clock product) row := by
  have product_eq := wrote.product_eq noCollisions sound
  have timed := sound.timed row wrote.member
  rcases Status.hasCommitted_iff.mp wrote.committed with committed | succeeded
  · have unset : row.clock product = none := by
      rw [RunRow.clock, committed, if_neg]
      rintro ⟨impossible, _⟩
      cases impossible
    exact ⟨⟨fun _ => committed, fun _ => unset⟩, fun differs => absurd committed differs⟩
  · have set : row.clock product = row.knowledgeAt := by
      rw [RunRow.clock, if_pos ⟨succeeded, product_eq⟩]
    refine ⟨⟨fun missing => ?_, fun committed => ?_⟩, fun _ => set⟩
    · rw [← timed, ← set, missing] at succeeded
      cases succeeded
    · rw [succeeded] at committed
      cases committed

theorem Good.contents_clocked (noCollisions : NoCollisions) {db : Database} (good : Good db)
    {product : Product} {content : ContentRow} (member : content ∈ db.contents product) :
    ∃ row ∈ db.runs, row.runId = content.firstRunId ∧ Clocked content.firstSeenAt row := by
  rcases good with rfl | ⟨c, sound, _⟩
  · cases member
  · obtain ⟨row, wrote, ofRun, clock⟩ := sound.contents product content member
    exact ⟨row, wrote.member, ofRun, clock ▸ wrote.clocked noCollisions sound⟩

/-- The clocks of the transitions. -/
theorem Good.transitions_clocked (noCollisions : NoCollisions) {db : Database} (good : Good db)
    {product : Product} {transition : TransitionRow}
    (member : transition ∈ db.transitions product) :
    ∃ row ∈ db.runs, row.runId = transition.runId ∧ Clocked transition.knownAt row := by
  rcases good with rfl | ⟨c, sound, _⟩
  · cases member
  · obtain ⟨row, wrote, ofRun, _, clock⟩ := sound.transitions product transition member
    exact ⟨row, wrote.member, ofRun, clock ▸ wrote.clocked noCollisions sound⟩

/-! ## Clocks do not change -/

/-- The rows with a clock in the first tables are rows of the second tables. -/
structure ClocksKept (db after : Database) : Prop where
  runs : ∀ row ∈ db.runs, row.knowledgeAt.isSome → row ∈ after.runs
  contents : ∀ product, ∀ content ∈ db.contents product, content.firstSeenAt.isSome →
    content ∈ after.contents product
  transitions : ∀ product, ∀ transition ∈ db.transitions product, transition.knownAt.isSome →
    transition ∈ after.transitions product

omit [Platform] in
theorem Precedes.clocksKept {db after : Database} (precedes : Precedes db after)
    (timed : ∀ row ∈ db.runs, row.knowledgeAt.isSome = true → row.status = .succeeded) :
    ClocksKept db after := by
  constructor
  · intro row member set
    obtain ⟨row', member', progress⟩ := precedes.run member
    exact progress.final (.inl (timed row member set)) ▸ member'
  · intro product content member set
    obtain ⟨content', member', same | ⟨missing, _⟩⟩ := (precedes.contents product).moved member
    · exact same ▸ member'
    · rw [missing] at set
      cases set
  · intro product transition member set
    obtain ⟨transition', member', same | ⟨missing, _⟩⟩ :=
      (precedes.transitions product).moved member
    · exact same ▸ member'
    · rw [missing] at set
      cases set

theorem Good.timed {db : Database} (good : Good db) {row : RunRow} (member : row ∈ db.runs) :
    row.knowledgeAt.isSome = true ↔ row.status = .succeeded := by
  obtain ⟨_, sound⟩ := good.sound member
  exact sound.timed row member

/-! ## Clocks are ordered -/

/-- **Knowledge times follow the order of the commits.** -/
theorem Orderly.knowledge_ordered {w : Cloud} (orderly : Orderly w) {row other : RunRow}
    (member : row ∈ w.store.runs) (member' : other ∈ w.store.runs) {n m : Nat} {t u : UtcTime}
    (number : row.commitSequence = some n) (number' : other.commitSequence = some m) (le : n ≤ m)
    (clock : row.knowledgeAt = some t) (clock' : other.knowledgeAt = some u) : t ≤ u := by
  have succeeded : row.status = .succeeded :=
    (orderly.good.timed member).mp (by rw [clock]; rfl)
  have succeeded' : other.status = .succeeded :=
    (orderly.good.timed member').mp (by rw [clock']; rfl)
  rcases Nat.lt_or_eq_of_le le with less | rfl
  · obtain ⟨time, _, knowledge, order⟩ :=
      orderly.committed other member' (by rw [succeeded']; rfl)
    rw [knowledge succeeded'] at clock'
    cases clock'
    exact order row member succeeded n m number number' less t clock
  · obtain ⟨_, sound⟩ := orderly.good.sound member
    have same : row = other := sound.distinct row member other member' (by rw [succeeded]; rfl)
      (by rw [succeeded']; rfl) (number.trans number'.symm)
    rw [same, clock'] at clock
    exact le_of_eq (Option.some.inj clock).symm

/-- A transition refers to a content that was first written by its own run or an earlier one. -/
theorem ProductHistory.content_earlier {db : Database} {product : Product} {entries : List Entry}
    (law : ProductHistory product entries db) (order : SerialOrder entries db)
    {transition : TransitionRow} (member : transition ∈ db.transitions product) :
    ∃ content ∈ db.contents product, content.contentId = transition.contentId ∧
      ∃ first ∈ db.runs, ∃ row ∈ db.runs, ∃ n m, n ≤ m ∧ first.runId = content.firstRunId ∧
        row.runId = transition.runId ∧ first.commitSequence = some n ∧
        row.commitSequence = some m := by
  obtain ⟨content, at_content, sameId, sameKey, sameHash⟩ :=
    law.catalogue.references transition member
  refine ⟨content, at_content, sameId, ?_⟩
  have history := law.history transition.logicalKey
  have observed := history.observers transition (mem_keyTransitions.mpr ⟨member, rfl⟩)
  have first := history.seen.first content (mem_keyContents.mpr ⟨at_content, sameKey⟩)
  obtain ⟨i, j, x, y, le, at_i, isFirst, at_j, isOther⟩ :=
    find?_filterMap_first first observed (decide_eq_true sameHash.symm)
  have runOf : ∀ {entry : Entry} {runId hash : String},
      entry.observes product transition.logicalKey = some (runId, hash) →
      entry.runId = runId := by
    intro entry runId hash observes
    rw [Entry.observes] at observes
    split_ifs at observes
    obtain ⟨record, _, same⟩ := Option.map_eq_some_iff.mp observes
    exact congrArg Prod.fst same
  obtain ⟨firstRow, at_first, firstDocuments⟩ := order.documented i x at_i
  obtain ⟨row, at_row, documents⟩ := order.documented j y at_j
  exact ⟨firstRow, at_first, row, at_row, i + 1, j + 1, Nat.succ_le_succ le,
    firstDocuments.runId.trans (runOf isFirst), documents.runId.trans (runOf isOther),
    firstDocuments.number, documents.number⟩

/-- **The content of a transition whose run succeeded** was first written by a run that had
succeeded no later: the gate was free when the run of the transition committed. -/
theorem Good.content_first (noCollisions : NoCollisions) {db : Database} (good : Good db)
    {product : Product} {transition : TransitionRow}
    (member : transition ∈ db.transitions product) {row : RunRow} (at_row : row ∈ db.runs)
    (ofRun : row.runId = transition.runId) (succeeded : row.status = .succeeded) :
    ∃ content ∈ db.contents product, content.contentId = transition.contentId ∧
      ∃ first ∈ db.runs, ∃ n m, n ≤ m ∧ first.runId = content.firstRunId ∧
        first.status = .succeeded ∧ first.commitSequence = some n ∧
        row.commitSequence = some m := by
  have seeded : db ≠ .created := by
    intro created
    rw [created] at at_row
    cases at_row
  obtain ⟨c, entries, sound, order, law⟩ := good.history noCollisions seeded
  obtain ⟨content, at_content, sameId, first, at_first, other, at_other, n, m, le, ofFirst,
    ofOther, number, number'⟩ := (law product).content_earlier order member
  obtain rfl := run_unique sound.unique at_other at_row (ofOther.trans ofRun.symm)
  refine ⟨content, at_content, sameId, first, at_first, n, m, le, ofFirst, ?_, number, number'⟩
  obtain ⟨writer, wrote, ofWriter, _⟩ := sound.contents product content at_content
  obtain rfl := run_unique sound.unique wrote.member at_first (ofWriter.trans ofFirst.symm)
  have hasCommitted : other.status.hasCommitted = true := by rw [succeeded]; rfl
  refine (Status.hasCommitted_iff.mp wrote.committed).resolve_left fun committed => ?_
  have last := sound.newest writer at_first committed
  obtain ⟨k, less, number''⟩ := sound.numbered other at_other hasCommitted
  rw [number] at last
  rw [number'] at number''
  have isLast : n = c.sequence := Option.some.inj last
  have isNext : m = k + 1 := Option.some.inj number''
  have same : n = m := by omega
  have here := sound.distinct writer at_first other at_other wrote.committed hasCommitted
    (by rw [number, number', same])
  rw [here, succeeded] at committed
  cases committed

/-- **No transition is known before its content was first seen.** -/
theorem Orderly.content_seen (noCollisions : NoCollisions) {w : Cloud} (orderly : Orderly w)
    {product : Product} {transition : TransitionRow}
    (member : transition ∈ w.store.transitions product) {row : RunRow}
    (at_row : row ∈ w.store.runs) (ofRun : row.runId = transition.runId)
    (succeeded : row.status = .succeeded) :
    ∃ content ∈ w.store.contents product, content.contentId = transition.contentId ∧
      ∃ seen known, content.firstSeenAt = some seen ∧ transition.knownAt = some known ∧
        seen ≤ known := by
  have unique := orderly.good.unique
  obtain ⟨content, at_content, sameId, first, at_first, n, m, le, ofFirst, firstSucceeded, number,
    number'⟩ := orderly.good.content_first noCollisions member at_row ofRun succeeded
  refine ⟨content, at_content, sameId, ?_⟩
  obtain ⟨writer, at_writer, ofWriter, clocked⟩ :=
    orderly.good.contents_clocked noCollisions at_content
  obtain rfl := run_unique unique at_writer at_first (ofWriter.trans ofFirst.symm)
  obtain ⟨row', at_row', ofRow', clocked'⟩ :=
    orderly.good.transitions_clocked noCollisions member
  obtain rfl := run_unique unique at_row' at_row (ofRow'.trans ofRun.symm)
  have later : ∀ {x : RunRow}, x.status = .succeeded → x.status ≠ .committed := by
    intro x isSucceeded committed
    rw [isSucceeded] at committed
    cases committed
  obtain ⟨seen, isSeen⟩ := Option.isSome_iff_exists.mp
    ((orderly.good.timed at_first).mpr firstSucceeded)
  obtain ⟨known, isKnown⟩ := Option.isSome_iff_exists.mp
    ((orderly.good.timed at_row).mpr succeeded)
  exact ⟨seen, known, (clocked.known (later firstSucceeded)).trans isSeen,
    (clocked'.known (later succeeded)).trans isKnown,
    orderly.knowledge_ordered at_first at_row number number' le isSeen isKnown⟩

/-- **Knowledge clocks are set once and are ordered.** -/
theorem knowledge_clocks (noCollisions : NoCollisions) {s : WarehouseSystem}
    (reachable : Reachable s) :
    (∀ product, ∀ content ∈ s.world.store.contents product, ∃ row ∈ s.world.store.runs,
      row.runId = content.firstRunId ∧ Clocked content.firstSeenAt row) ∧
    (∀ product, ∀ transition ∈ s.world.store.transitions product, ∃ row ∈ s.world.store.runs,
      row.runId = transition.runId ∧ Clocked transition.knownAt row) ∧
    (∀ row ∈ s.world.store.runs, row.status = .succeeded →
      ∃ time, CommitEnded s.world row.runId time ∧ row.knowledgeAt = some time) ∧
    (∀ s', SystemRun s s' → ClocksKept s.world.store s'.world.store) ∧
    (∀ row ∈ s.world.store.runs, ∀ other ∈ s.world.store.runs, ∀ n m t u,
      row.commitSequence = some n → other.commitSequence = some m → n ≤ m →
      row.knowledgeAt = some t → other.knowledgeAt = some u → t ≤ u) ∧
    ∀ product, ∀ transition ∈ s.world.store.transitions product, ∀ row ∈ s.world.store.runs,
      row.runId = transition.runId → row.status = .succeeded →
      ∃ content ∈ s.world.store.contents product, content.contentId = transition.contentId ∧
        ∃ seen known, content.firstSeenAt = some seen ∧ transition.knownAt = some known ∧
          seen ≤ known := by
  have orderly := reachable.orderly
  refine ⟨fun product content member => orderly.good.contents_clocked noCollisions member,
    fun product transition member => orderly.good.transitions_clocked noCollisions member,
    fun row member succeeded => ?_, fun s' run => ?_, ?_, ?_⟩
  · obtain ⟨time, ended, knowledge, _⟩ :=
      orderly.committed row member (by rw [succeeded]; rfl)
    exact ⟨time, ended, knowledge succeeded⟩
  · exact (reachable.run run).2.before.clocksKept fun row member set =>
      (orderly.good.timed member).mp set
  · intro row member other member' n m t u number number' le clock clock'
    exact orderly.knowledge_ordered member member' number number' le clock clock'
  · intro product transition member row at_row ofRun succeeded
    exact orderly.content_seen noCollisions member at_row ofRun succeeded

omit [Platform] in
/-- The clocks after a load was revised and corrected back. -/
theorem knowledge_clocks_sample :
    letI := Platform.plain
    ∃ s : WarehouseSystem, Revised s.world.store ∧
      ∀ row ∈ s.world.store.runs, row.status = .succeeded →
        ∃ time, CommitEnded s.world row.runId time ∧ row.knowledgeAt = some time := by
  let _ := Platform.plain
  obtain ⟨s, reachable, revised⟩ := exists_revised
  obtain ⟨_, _, ends, _⟩ := knowledge_clocks noCollisions_plain reachable
  exact ⟨s, revised, ends⟩

end PowerMarket
