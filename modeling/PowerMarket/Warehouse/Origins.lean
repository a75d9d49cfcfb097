import PowerMarket.Identities
import PowerMarket.Serializability
import PowerMarket.Warehouse.Manifests
import PowerMarket.Warehouse.Columns

/-!
# Where the rows come from

Every row of the tables was written by one run for one record that its request accepted
(`Good.content_origin`, `Good.transition_origin`). The manifest of the run is in the tables and
shows that request, because the request id determines the request.
-/

set_option autoImplicit false

namespace PowerMarket

open Library

variable [Platform]

/-! ## Requests and their ids -/

omit [Platform] in
theorem Date.text_injective : Function.Injective Date.text := by
  intro a b same
  have chars : dateChars a.ordinal = dateChars b.ordinal := by
    simpa [Date.text, String.ofList_inj] using same
  have ordinal := dateChars_injective a.positive b.positive a.bounded b.bounded chars
  cases a
  cases b
  cases ordinal
  rfl

omit [Platform] in
theorem Product.text_injective : Function.Injective Product.text := by
  intro a b same
  cases a <;> cases b <;> simp_all [Product.text]

omit [Platform] in
theorem Request.eq_of_parts {a b : Request} (product : a.product = b.product)
    (day : a.day = b.day)
    (hub : (a.location.map Hub.text).getD "" = (b.location.map Hub.text).getD "") : a = b := by
  have named : ∀ hub : Hub, hub.text ≠ "" := by
    intro hub
    cases hub <;> decide
  obtain ⟨product', day', location', supported'⟩ := a
  obtain ⟨product'', day'', location'', supported''⟩ := b
  obtain rfl : product' = product'' := product
  obtain rfl : day' = day'' := day
  obtain rfl : location' = location'' := by
    cases location' with
    | none =>
        cases location'' with
        | none => rfl
        | some hub' => exact absurd hub.symm (named hub')
    | some hub' =>
        cases location'' with
        | none => exact absurd hub (named hub')
        | some hub'' => exact congrArg some (Hub.text_injective hub)
  rfl

/-- **The request id determines the request.** -/
theorem Request.requestId_injective (noCollisions : NoCollisions) :
    Function.Injective Request.requestId := by
  intro a b same
  have entries := digest_perm noCollisions (by simp) (by simp) same
  exact Request.eq_of_parts (Request.requestId_product noCollisions same)
    (Date.text_injective (value_eq_of_perm "date" entries (by simp) (by simp) (by simp)))
    (value_eq_of_perm "location" entries (by simp) (by simp) (by simp))

/-! ## The run, the request and the record of a row -/

/-- A run that has committed for a request of a product, and a record that the request accepts. -/
structure Written (db : Database) (product : Product) (row : RunRow) (request : Request)
    (record : Observation) : Prop where
  member : row ∈ db.runs
  committed : row.status.hasCommitted = true
  requestId : row.requestId = request.requestId
  product : request.product = product
  runProduct : row.product = request.product
  date : row.requestedDate = request.day
  location : row.requestedLocation = request.location
  admissible : Admissible request record
  exact : ∀ d ∈ decimalsOf record, Representable d.value

/-- The manifest of a run that wrote into the tables of a product shows its request. -/
theorem Sound.request (noCollisions : NoCollisions) {c : ControlRow} {db : Database}
    (sound : Sound c db) {product : Product} {row : RunRow} (wrote : Wrote db product row)
    {request : Request} (ofRequest : row.requestId = request.requestId) :
    request.product = product ∧ row.product = request.product ∧ row.requestedDate = request.day ∧
      row.requestedLocation = request.location := by
  have same : ∀ other : Request, row.requestId = other.requestId → other = request :=
    fun other ofOther => Request.requestId_injective noCollisions (ofOther.symm.trans ofRequest)
  obtain ⟨writer, ofProduct, ofWriter⟩ := wrote.request
  obtain rfl := same writer ofWriter
  obtain ⟨shown, ofShown, product', date, location⟩ := sound.bound row wrote.member
  obtain rfl := same shown ofShown
  exact ⟨ofProduct, product', date, location⟩

section Origins

variable {db : Database} {product : Product}

/-- **Where a content comes from.** It is the row of a record accepted for the request of the run
that was the first to see it, with the clock of that run. -/
theorem Good.content_origin (noCollisions : NoCollisions) (good : Good db) {content : ContentRow}
    (member : content ∈ db.contents product) :
    ∃ row request record, Written db product row request record ∧
      content.firstRunId = row.runId ∧ content.toBatchRow = rowOf request record ∧
      content.firstSeenAt = row.clock product := by
  rcases id good with rfl | ⟨c, sound, _⟩
  · cases member
  · obtain ⟨row, wrote, ofRun, clock⟩ := sound.contents product content member
    obtain ⟨request, records, batch, current, plan, truthful⟩ :=
      good.truthful noCollisions wrote.member wrote.committed
    obtain ⟨ofProduct, product', date, location⟩ :=
      sound.request noCollisions wrote truthful.requestId
    have own : content.setClock none ∈ (ownContents product row.runId db).map (·.setClock none) :=
      List.mem_map_of_mem (List.mem_filter.mpr ⟨member, by simp [ofRun]⟩)
    rw [truthful.contents product, if_pos ofProduct.symm, (planWrite_eq truthful.planned).2] at own
    obtain ⟨planned, at_planned, isNew⟩ := List.mem_filterMap.mp own
    obtain ⟨_, content_eq⟩ := newContent_eq_some.mp isNew
    have accepted := batchRows_spec truthful.batched
    obtain ⟨record, at_record, rfl⟩ := List.mem_map.mp (accepted.perm.mem_iff.mp at_planned)
    refine ⟨row, request, record, ⟨wrote.member, wrote.committed, truthful.requestId, ofProduct,
      product', date, location, accepted.admissible record at_record,
      batchRows_numeric truthful.batched record at_record⟩, ofRun.symm, ?_, clock⟩
    exact congrArg ContentRow.toBatchRow content_eq

/-- **Where a transition comes from.** It was planned for a record accepted for the request of its
run, with the number and the clock of that run. -/
theorem Good.transition_origin (noCollisions : NoCollisions) (good : Good db)
    {transition : TransitionRow} (member : transition ∈ db.transitions product) :
    ∃ row request record sequence ordinal, Written db product row request record ∧
      transition.setClock none =
        transitionOf row.runId sequence (rowOf request record) ordinal ∧
      0 < ordinal ∧ row.commitSequence = some transition.commitSequence ∧
      transition.knownAt = row.clock product := by
  rcases id good with rfl | ⟨c, sound, _⟩
  · cases member
  · obtain ⟨row, wrote, ofRun, number, clock⟩ := sound.transitions product transition member
    obtain ⟨request, records, batch, current, plan, truthful⟩ :=
      good.truthful noCollisions wrote.member wrote.committed
    obtain ⟨ofProduct, product', date, location⟩ :=
      sound.request noCollisions wrote truthful.requestId
    have own : transition.setClock none ∈
        (ownTransitions product row.runId db).map (·.setClock none) :=
      List.mem_map_of_mem (List.mem_filter.mpr ⟨member, by simp [ofRun]⟩)
    rw [truthful.transitions product, if_pos ofProduct.symm,
      (planWrite_eq truthful.planned).2] at own
    obtain ⟨planned, at_planned, isNew⟩ := List.mem_filterMap.mp own
    obtain ⟨ordinal, next, transition_eq⟩ := newTransition_eq_some.mp isNew
    have accepted := batchRows_spec truthful.batched
    obtain ⟨record, at_record, rfl⟩ := List.mem_map.mp (accepted.perm.mem_iff.mp at_planned)
    refine ⟨row, request, record, current.sequence, ordinal, ⟨wrote.member, wrote.committed,
      truthful.requestId, ofProduct, product', date, location,
      accepted.admissible record at_record, batchRows_numeric truthful.batched record at_record⟩,
      transition_eq, ?_, number, clock⟩
    unfold nextOrdinal at next
    split at next
    · cases next
      exact Nat.one_pos
    · split_ifs at next
      cases next
      exact Nat.succ_pos _

end Origins

end PowerMarket
