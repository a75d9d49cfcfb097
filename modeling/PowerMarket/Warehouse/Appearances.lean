import PowerMarket.Warehouse.Batches
import PowerMarket.KnowledgeClocks

/-!
# First appearances

A content that was not known is a new state of its key, so that the run that was the first to see a
content also made a transition to it (`Commits.appears`). `acceptAll_appears` proves this of a serial
execution and `Good.appears` of the tables of the concurrent system.

The clocks of the two rows are set together. So the time at which a content was first seen is the
least time at which a transition to it was known (`first_appearance`).
-/

set_option autoImplicit false

namespace PowerMarket

open Library

/-- The run that was the first to see a content made a transition to it. -/
def Appears (product : Product) (db : Database) (content : ContentRow) : Prop :=
  ∃ transition ∈ db.transitions product, transition.runId = content.firstRunId ∧
    transition.contentId = content.contentId

theorem Appears.congr {product : Product} {db : Database} {content other : ContentRow}
    (appears : Appears product db content) (runId : other.firstRunId = content.firstRunId)
    (contentId : other.contentId = content.contentId) : Appears product db other := by
  obtain ⟨transition, member, ofRun, refers⟩ := appears
  exact ⟨transition, member, ofRun.trans runId.symm, refers.trans contentId.symm⟩

theorem Appears.of_clocks {product : Product} {db after : Database} {content : ContentRow}
    (appears : Appears product db content) (clocks : SameButClocks product db after) :
    Appears product after content := by
  obtain ⟨transition, member, ofRun, refers⟩ := appears
  obtain ⟨clock, transitions⟩ := clocks.transitions
  refine ⟨transition.setClock (clock transition), ?_, ofRun, refers⟩
  rw [transitions]
  exact List.mem_map_of_mem member

variable [Platform]

section Commit

variable {entry : Entry} {c : ControlRow} {db : Database} {batch : List BatchRow}
  {current : Snapshot} {plan : WritePlan}

/-- **A content that was not known is a new state of its key.** -/
theorem Commits.moved (noCollisions : NoCollisions) (serial : Serial c db)
    (commits : Commits entry c db batch current plan) {entries : List Entry}
    (law : ProductHistory entry.request.product entries db) {row : BatchRow} (member : row ∈ batch)
    {content : ContentRow} (isNew : newContent entry.runId current row = some content) :
    ∃ ordinal, newTransition entry.runId current row =
      some (transitionOf entry.runId current.sequence row ordinal) := by
  obtain ⟨unknown, _⟩ := newContent_eq_some.mp isNew
  have latest := commits.latest noCollisions serial law.catalogue member
    (law.history row.logicalKey)
  have known := commits.known_iff noCollisions serial law.catalogue member
  suffices moves : ∃ ordinal, nextOrdinal current row = some ordinal by
    obtain ⟨ordinal, next⟩ := moves
    exact ⟨ordinal, by rw [newTransition, next, Option.map_some]⟩
  rw [nextOrdinal, latest]
  cases last : (keyTransitions entry.request.product row.logicalKey db).getLast? with
  | none => exact ⟨1, rfl⟩
  | some transition =>
      obtain ⟨inTable, key⟩ := mem_keyTransitions.mp (List.mem_of_getLast? last)
      obtain ⟨content', at_content, _, key', hash⟩ := law.catalogue.references transition inTable
      have differs : transition.contentHash ≠ row.contentHash := fun same =>
        unknown (known.mpr ⟨content', mem_keyContents.mpr ⟨at_content, key'.trans key⟩,
          hash.trans same⟩)
      exact ⟨transition.ordinal + 1, if_pos differs⟩

/-- **The contents appear** also after one more run. -/
theorem Commits.appears (noCollisions : NoCollisions) (serial : Serial c db)
    (commits : Commits entry c db batch current plan) {entries : List Entry}
    (law : ProductHistory entry.request.product entries db) {product : Product}
    (before : ∀ content ∈ db.contents product, Appears product db content) :
    ∀ content ∈ (afterRun entry plan c db).contents product,
      Appears product (afterRun entry plan c db) content := by
  have clocks := afterRun_sameButClocks product entry plan c db
  suffices committed : ∀ content ∈ (afterCommit entry plan c db).contents product,
      Appears product (afterCommit entry plan c db) content by
    obtain ⟨clock, contents⟩ := clocks.contents
    intro content member
    rw [contents] at member
    obtain ⟨old, at_old, rfl⟩ := List.mem_map.mp member
    exact ((committed old at_old).of_clocks clocks).congr rfl rfl
  by_cases same : product = entry.request.product
  · subst same
    have contents := commits.contents noCollisions serial law.catalogue
    have transitions := commits.transitions noCollisions serial law.catalogue
    intro content member
    rw [contents] at member
    rcases List.mem_append.mp member with old | added
    · obtain ⟨transition, inTable, ofRun, refers⟩ := before content old
      exact ⟨transition, transitions ▸ List.mem_append_left _ inTable, ofRun, refers⟩
    · obtain ⟨row, at_row, isNew⟩ := List.mem_filterMap.mp added
      obtain ⟨ordinal, moves⟩ := commits.moved noCollisions serial law at_row isNew
      obtain ⟨_, rfl⟩ := newContent_eq_some.mp isNew
      refine ⟨_, transitions ▸ List.mem_append_right _ (List.mem_filterMap.mpr ⟨row, at_row, moves⟩),
        rfl, rfl⟩
  · have other : SameButClocks product db (afterCommit entry plan c db) := afterCommit_other same
    obtain ⟨clock, contents⟩ := other.contents
    intro content member
    rw [contents] at member
    obtain ⟨old, at_old, rfl⟩ := List.mem_map.mp member
    exact ((before old at_old).of_clocks other).congr rfl rfl

end Commit

/-- **The run lemma.** After any number of runs every content appears. -/
theorem acceptAll_appears (noCollisions : NoCollisions) {entries : List Entry} {db : Database}
    (accepted : acceptAll entries Database.seeded = .ok db) (product : Product) :
    ∀ content ∈ db.contents product, Appears product db content := by
  induction entries using List.reverseRecOn generalizing db with
  | nil =>
      cases accepted
      simp [Database.seeded, Database.created]
  | append_singleton entries entry ih =>
      obtain ⟨before, earlier, last⟩ := acceptAll_snoc.mp accepted
      obtain ⟨c, serial⟩ := acceptAll_serial earlier
      obtain ⟨batch, current, plan, commits, rfl⟩ := (acceptRun_iff serial).mp last
      exact commits.appears noCollisions serial
        (acceptAll_history noCollisions earlier entry.request.product) (ih earlier)

/-- **Every content appears** in every good state. -/
theorem Good.appears (noCollisions : NoCollisions) {db : Database} (good : Good db)
    {product : Product} {content : ContentRow} (member : content ∈ db.contents product) :
    Appears product db content := by
  rcases good with rfl | ⟨_, _, entries, serial, accepted, mirrors⟩
  · cases member
  · obtain ⟨transition, inTable, rest⟩ := acceptAll_appears noCollisions accepted product content
      (mirrors.contents ▸ member)
    exact ⟨transition, mirrors.transitions ▸ inTable, rest⟩

/-! ## The first transition to a content -/

/-- The transition to a content by the run that was the first to see it: every other transition
to the content has a greater number, and none was known before the content was first seen. -/
structure FirstOf (product : Product) (db : Database) (content : ContentRow)
    (transition : TransitionRow) : Prop where
  member : transition ∈ db.transitions product
  refers : transition.contentId = content.contentId
  runId : transition.runId = content.firstRunId
  clock : transition.knownAt = content.firstSeenAt
  earliest : ∀ other ∈ db.transitions product, other.contentId = content.contentId →
    other = transition ∨ transition.commitSequence < other.commitSequence
  least : ∀ other ∈ db.transitions product, other.contentId = content.contentId →
    ∀ known, other.knownAt = some known → ∃ seen, content.firstSeenAt = some seen ∧ seen ≤ known

theorem Good.number_inj (noCollisions : NoCollisions) {db : Database} (good : Good db)
    {product : Product} {transition other : TransitionRow}
    (member : transition ∈ db.transitions product) (member' : other ∈ db.transitions product)
    (key : transition.logicalKey = other.logicalKey)
    (same : transition.commitSequence = other.commitSequence) : transition = other := by
  have seeded : db ≠ .created := by
    rintro rfl
    cases member
  obtain ⟨_, _, _, _, law⟩ := good.history noCollisions seeded
  have increasing := ((law product).history other.logicalKey).increasing
  have distinct : ((keyTransitions product other.logicalKey db).map (·.commitSequence)).Nodup :=
    List.pairwise_map.mpr (increasing.imp fun less => ne_of_lt less)
  exact List.inj_on_of_nodup_map distinct (mem_keyTransitions.mpr ⟨member, key⟩)
    (mem_keyTransitions.mpr ⟨member', rfl⟩) same

/-- **The first transition to a content.** Every content has been reached by a transition of the run
that was the first to see it. Of all transitions to the content, that one has the least number, and
the time at which it was known, missing while the run is committed, is the time at which the content
was first seen. -/
theorem first_appearance (noCollisions : NoCollisions) {s : WarehouseSystem}
    (reachable : Reachable s) (product : Product) :
    ∀ content ∈ s.world.store.contents product,
      ∃ transition, FirstOf product s.world.store content transition := by
  intro content member
  have orderly := reachable.orderly
  have good := orderly.good
  obtain ⟨transition, inTable, ofRun, refers⟩ := good.appears noCollisions member
  obtain ⟨c, entries, sound, order, law⟩ := good.history noCollisions fun created => by
    rw [created] at member
    cases member
  obtain ⟨first, wrote, ofFirst, seen⟩ := sound.contents product content member
  obtain ⟨writer, wrote', ofWriter, number, known⟩ := sound.transitions product transition inTable
  obtain rfl := run_unique sound.unique wrote'.member wrote.member
    (ofWriter.trans (ofRun.trans ofFirst.symm))
  -- The content of a transition is the only one with its id.
  have unique : ∀ {other : ContentRow}, other ∈ s.world.store.contents product →
      other.contentId = content.contentId → other = content := fun at_other same =>
    List.inj_on_of_nodup_map (law product).catalogue.contentIds at_other member same
  have keyOf : ∀ other ∈ s.world.store.transitions product,
      other.contentId = content.contentId → other.logicalKey = content.logicalKey := by
    intro other at_other refers'
    obtain ⟨found, at_found, sameId, key, _⟩ := (law product).catalogue.references other at_other
    exact key.symm.trans (congrArg (·.logicalKey) (unique at_found (sameId.trans refers')))
  refine ⟨transition, inTable, refers, ofRun, known.trans seen.symm, ?_, ?_⟩
  · intro other at_other refers'
    obtain ⟨found, at_found, sameId, run, at_run, owner, at_owner, n, m, le, ofFound, ofOwner,
      isFirst, isOwner⟩ := (law product).content_earlier order at_other
    obtain rfl := unique at_found (sameId.trans refers')
    obtain rfl := run_unique sound.unique at_run wrote.member (ofFound.trans ofFirst.symm)
    obtain ⟨author, wroteOther, ofAuthor, number', _⟩ := sound.transitions product other at_other
    obtain rfl := run_unique sound.unique at_owner wroteOther.member (ofOwner.trans ofAuthor.symm)
    have isNumber : transition.commitSequence = n := Option.some.inj (number.symm.trans isFirst)
    have isNumber' : other.commitSequence = m := Option.some.inj (number'.symm.trans isOwner)
    rcases Nat.lt_or_eq_of_le le with less | same
    · exact .inr (by omega)
    · have key := (keyOf other at_other refers').trans (keyOf transition inTable refers).symm
      exact .inl (good.number_inj noCollisions at_other inTable key (by omega))
  · intro other at_other refers' time isKnown
    obtain ⟨author, at_author, ofAuthor, clocked⟩ := good.transitions_clocked noCollisions at_other
    have settled : author.status ≠ .committed := fun committed => by
      rw [clocked.missing.mpr committed] at isKnown
      cases isKnown
    have succeeded : author.status = .succeeded :=
      (good.timed at_author).mp (by rw [← clocked.known settled, isKnown]; rfl)
    obtain ⟨found, at_found, sameId, seen', known', isSeen, isKnown', le⟩ :=
      orderly.content_seen noCollisions at_other at_author ofAuthor succeeded
    obtain rfl := unique at_found (sameId.trans refers')
    rw [isKnown] at isKnown'
    cases isKnown'
    exact ⟨seen', isSeen, le⟩

omit [Platform] in
/-- The contents of a load that was revised and corrected back have their first transitions. -/
theorem first_appearance_sample :
    letI := Platform.plain
    ∃ s : WarehouseSystem, Revised s.world.store ∧
      ∀ content ∈ s.world.store.contents .load,
        ∃ transition, FirstOf .load s.world.store content transition := by
  let _ := Platform.plain
  obtain ⟨s, reachable, revised⟩ := exists_revised
  exact ⟨s, revised, first_appearance noCollisions_plain reachable .load⟩

end PowerMarket
