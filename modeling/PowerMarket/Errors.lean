import Mathlib.Data.List.Forall2

/-!
# Exceptions

An exception has its own type, with the listed type it counts as, a message, and the
exceptions that it was explicitly raised from, nearest first. That chain is what the
classification of retries walks. The exceptions it was raised next to are not part of it.
-/

set_option autoImplicit false

namespace PowerMarket

/-- The exception types that the program tells apart. A subtype counts as the listed type. -/
inductive ErrorClass where
  | conflict
  | notFound
  | badRequest
  | forbidden
  | tooManyRequests
  | unauthorized
  | serviceUnavailable
  | internalServerError
  | badGateway
  | gatewayTimeout
  | googleApiCallError
  | googleAuthError
  | requestConnectionError
  | requestTimeout
  | unsupportedRequestError
  | upstreamRequestError
  | schemaError
  | validationError
  | powerMarketDataError
  | warehouseError
  | commitUnconfirmed
  | retryableIngestionError
  | nonRecoverableError
  | keyError
  | typeError
  | valueError
  | overflowError
  | invalidOperation
  | other
  deriving DecidableEq

namespace ErrorClass

/-- Whether an exception of this type is an error of a call to the cloud interface. -/
def isGoogleApiCallError : ErrorClass → Bool
  | conflict | notFound | badRequest | forbidden | tooManyRequests | unauthorized
  | serviceUnavailable | internalServerError | badGateway | gatewayTimeout
  | googleApiCallError => true
  | _ => false

/-- The name of a listed type. -/
def name : ErrorClass → String
  | conflict => "Conflict"
  | notFound => "NotFound"
  | badRequest => "BadRequest"
  | forbidden => "Forbidden"
  | tooManyRequests => "TooManyRequests"
  | unauthorized => "Unauthorized"
  | serviceUnavailable => "ServiceUnavailable"
  | internalServerError => "InternalServerError"
  | badGateway => "BadGateway"
  | gatewayTimeout => "GatewayTimeout"
  | googleApiCallError => "GoogleAPICallError"
  | googleAuthError => "GoogleAuthError"
  | requestConnectionError => "ConnectionError"
  | requestTimeout => "Timeout"
  | unsupportedRequestError => "UnsupportedRequestError"
  | upstreamRequestError => "UpstreamRequestError"
  | schemaError => "SchemaError"
  | validationError => "ValidationError"
  | powerMarketDataError => "PowerMarketDataError"
  | warehouseError => "WarehouseError"
  | commitUnconfirmed => "CommitUnconfirmed"
  | retryableIngestionError => "RetryableIngestionError"
  | nonRecoverableError => "NonRecoverableError"
  | keyError => "KeyError"
  | typeError => "TypeError"
  | valueError => "ValueError"
  | overflowError => "OverflowError"
  | invalidOperation => "InvalidOperation"
  | other => "Exception"

end ErrorClass

/-- One exception of a chain: the listed type it counts as, the name of its own type and its
message. -/
structure Error where
  kind : ErrorClass
  name : String
  message : String
  deriving DecidableEq

/-- A raised exception with its chain of explicit causes. -/
structure Exn where
  error : Error
  causes : List Error
  deriving DecidableEq

namespace Exn

/-- Raise an exception of a listed type. -/
def new (kind : ErrorClass) (message : String) : Exn := ⟨⟨kind, kind.name, message⟩, []⟩

/-- Raise an exception of a listed type from another exception. -/
def newFrom (kind : ErrorClass) (message : String) (cause : Exn) : Exn :=
  ⟨⟨kind, kind.name, message⟩, cause.error :: cause.causes⟩

/-- The exception and its explicit causes, the exception first. -/
def chain (e : Exn) : List Error := e.error :: e.causes

@[simp] theorem new_kind (kind : ErrorClass) (message : String) :
    (new kind message).error.kind = kind := rfl

@[simp] theorem newFrom_kind (kind : ErrorClass) (message : String) (cause : Exn) :
    (newFrom kind message cause).error.kind = kind := rfl

@[simp] theorem new_chain (kind : ErrorClass) (message : String) :
    (new kind message).chain = [⟨kind, kind.name, message⟩] := rfl

@[simp] theorem newFrom_chain (kind : ErrorClass) (message : String) (cause : Exn) :
    (newFrom kind message cause).chain = ⟨kind, kind.name, message⟩ :: cause.chain := rfl

end Exn

/-- A sequence of fallible steps succeeds when each step does. -/
theorem bind_eq_ok {ε α β : Type} {step : Except ε α} {rest : α → Except ε β} {b : β} :
    (step >>= rest) = .ok b ↔ ∃ a, step = .ok a ∧ rest a = .ok b := by
  cases step with
  | error e => simp [bind, Except.bind]
  | ok a => simp [bind, Except.bind]

theorem bind_eq_error {ε α β : Type} {step : Except ε α} {rest : α → Except ε β} {e : ε} :
    (step >>= rest) = .error e ↔ step = .error e ∨ ∃ a, step = .ok a ∧ rest a = .error e := by
  cases step with
  | error e' => simp [bind, Except.bind]
  | ok a => simp [bind, Except.bind]

theorem mapError_eq_ok {ε ε' α : Type} {step : Except ε α} {translate : ε → ε'} {a : α} :
    step.mapError translate = .ok a ↔ step = .ok a := by
  cases step with
  | error e => exact ⟨fun h => (nomatch h), fun h => (nomatch h)⟩
  | ok a' =>
      constructor
      · intro same
        injection same with same
        rw [same]
      · intro same
        injection same with same
        rw [same]
        rfl

/-- A list of checks passes when every check does. -/
theorem forM_eq_ok {ε α : Type} {check : α → Except ε Unit} {items : List α} :
    items.forM check = .ok () ↔ ∀ item ∈ items, check item = .ok () := by
  induction items with
  | nil => exact ⟨fun _ _ impossible => (by cases impossible), fun _ => rfl⟩
  | cons item items ih =>
      have steps : (item :: items).forM check = (check item >>= fun _ => items.forM check) := rfl
      rw [steps, bind_eq_ok, List.forall_mem_cons, ← ih]
      constructor
      · rintro ⟨_, first, rest⟩
        exact ⟨first, rest⟩
      · rintro ⟨first, rest⟩
        exact ⟨(), first, rest⟩

/-- A list of steps succeeds when each step does, with the results of the steps. -/
theorem mapM_eq_ok {ε α β : Type} {step : α → Except ε β} {items : List α} {results : List β} :
    items.mapM step = .ok results ↔
      List.Forall₂ (fun item result => step item = .ok result) items results := by
  induction items generalizing results with
  | nil =>
      rw [List.mapM_nil, List.forall₂_nil_left_iff]
      constructor
      · intro same
        exact (Except.ok.inj same).symm
      · rintro rfl
        rfl
  | cons item items ih =>
      rw [List.mapM_cons, List.forall₂_cons_left_iff, bind_eq_ok]
      constructor
      · rintro ⟨result, first, rest⟩
        obtain ⟨results', others, same⟩ := bind_eq_ok.mp rest
        exact ⟨result, results', first, ih.mp others, (Except.ok.inj same).symm⟩
      · rintro ⟨result, results', first, others, rfl⟩
        exact ⟨result, first, bind_eq_ok.mpr ⟨results', ih.mpr others, rfl⟩⟩

/-- Steps that agree wherever both succeed have the same results. -/
theorem mapM_agree {ε α β : Type} {step step' : α → Except ε β}
    (agree : ∀ item result result', step item = .ok result → step' item = .ok result' →
      result = result') {items : List α} {results results' : List β}
    (succeeded : items.mapM step = .ok results) (succeeded' : items.mapM step' = .ok results') :
    results = results' := by
  induction items generalizing results results' with
  | nil =>
      cases succeeded
      cases succeeded'
      rfl
  | cons item items ih =>
      obtain ⟨result, first, rest⟩ := bind_eq_ok.mp (List.mapM_cons.symm.trans succeeded)
      obtain ⟨result', first', rest'⟩ := bind_eq_ok.mp (List.mapM_cons.symm.trans succeeded')
      obtain ⟨others, areOthers, same⟩ := bind_eq_ok.mp rest
      obtain ⟨others', areOthers', same'⟩ := bind_eq_ok.mp rest'
      cases same
      cases same'
      rw [agree item result result' first first', ih areOthers areOthers']

/-- Steps that all succeed have results, with whatever holds of each of them. -/
theorem mapM_ok {ε α β : Type} {step : α → Except ε β} {holds : α → β → Prop} {items : List α}
    (each : ∀ item ∈ items, ∃ result, step item = .ok result ∧ holds item result) :
    ∃ results, items.mapM step = .ok results ∧ List.Forall₂ holds items results := by
  induction items with
  | nil => exact ⟨[], rfl, .nil⟩
  | cons item items ih =>
      obtain ⟨result, first, isFirst⟩ := each item List.mem_cons_self
      obtain ⟨results, others, areOthers⟩ :=
        ih fun item' member => each item' (List.mem_cons_of_mem item member)
      exact ⟨result :: results, mapM_eq_ok.mpr (.cons first (mapM_eq_ok.mp others)),
        .cons isFirst areOthers⟩

/-- Steps that all succeed, whatever the state is, lead to the state that they compute. -/
theorem foldlM_ok {ε α σ : Type} {step : σ → α → Except ε σ} {next : σ → α → σ} {items : List α}
    (each : ∀ item ∈ items, ∀ state, step state item = .ok (next state item)) (state : σ) :
    items.foldlM step state = .ok (items.foldl next state) := by
  induction items generalizing state with
  | nil => rfl
  | cons item items ih =>
      rw [List.foldlM_cons, bind_eq_ok]
      exact ⟨next state item, each item List.mem_cons_self state,
        ih (fun item' member => each item' (List.mem_cons_of_mem item member)) _⟩

theorem forall₂_left {α β : Type} {related : α → β → Prop} {items : List α} {results : List β}
    (each : List.Forall₂ related items results) {item : α} (member : item ∈ items) :
    ∃ result ∈ results, related item result := by
  induction each with
  | nil => cases member
  | cons first _ ih =>
      rcases List.mem_cons.mp member with rfl | member
      · exact ⟨_, List.mem_cons_self, first⟩
      · obtain ⟨result, inRest, holds⟩ := ih member
        exact ⟨result, List.mem_cons_of_mem _ inRest, holds⟩

theorem forall₂_right {α β : Type} {related : α → β → Prop} {items : List α} {results : List β}
    (each : List.Forall₂ related items results) {result : β} (member : result ∈ results) :
    ∃ item ∈ items, related item result := forall₂_left each.flip member

theorem forall₂_eq_map {α β : Type} {f : α → β} {holds : α → Prop} {items : List α}
    {results : List β} : List.Forall₂ (fun item result => result = f item ∧ holds item) items results ↔
      results = items.map f ∧ ∀ item ∈ items, holds item := by
  induction items generalizing results with
  | nil =>
      rw [List.forall₂_nil_left_iff]
      exact ⟨fun none => ⟨none, fun _ impossible => nomatch impossible⟩, fun same => same.1⟩
  | cons item items ih =>
      rw [List.forall₂_cons_left_iff, List.forall_mem_cons]
      constructor
      · rintro ⟨_, rest, ⟨rfl, first⟩, others, rfl⟩
        obtain ⟨same, each⟩ := ih.mp others
        exact ⟨congrArg (f item :: ·) same, first, each⟩
      · rintro ⟨rfl, first, each⟩
        exact ⟨_, _, ⟨rfl, first⟩, ih.mpr ⟨rfl, each⟩, rfl⟩

end PowerMarket
