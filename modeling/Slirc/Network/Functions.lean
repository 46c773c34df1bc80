import Slirc.Basic

/-!
# The functions of the network service (`src/network.cpp`)

The library has an `io_service` of its own, which the first request starts in a thread; an external
one replaces it. Each function runs under `service_mutex`.

* `NetworkService`: `slirc_network_service`. `NetworkService.call`: what a function does while it
  has the mutex.
* `NetworkService.refusal`: what `get_service` throws.
-/

namespace Slirc

/-- `service_thread` -/
inductive ServiceThread where
  /-- No thread: it was never started. -/
  | none
  /-- It is in `internal_service.run()`. -/
  | running
  /-- `run` has returned, and the thread was not joined. -/
  | returned
  | joined
  deriving DecidableEq, Repr

/-- `service_thread.joinable()` -/
def ServiceThread.joinable : ServiceThread → Bool
  | .running | .returned => true
  | .none | .joined => false

/-- `run` has returned. -/
def ServiceThread.ended : ServiceThread → Bool
  | .returned | .joined => true
  | .none | .running => false

/-- `slirc_network_service` -/
structure NetworkService where
  serviceThread : ServiceThread := .none
  /-- An external service; none if `current_service` is `&internal_service`. -/
  currentService : Option Nat := none
  /-- The optional work object, which keeps `run` from returning. -/
  internalServiceWork : Bool := false
  internalServiceStopping : Bool := false
  deriving DecidableEq, Repr

inductive NetworkCall where
  /-- `service()` -/
  | service
  /-- `service(external_service)` -/
  | setService (external : Nat)
  | usesInternalService
  deriving DecidableEq, Repr

/-- How a call ends. -/
inductive NetworkAnswer where
  /-- The external service, or the internal one. -/
  | service (external : Option Nat)
  | threw (fault : Fault)
  | set
  | uses (internal : Bool)
  deriving DecidableEq, Repr

namespace NetworkService

/-- `get_service`. The constructor of `std::thread` may throw (`start`). -/
def getService (s : NetworkService) (start : Option Fault) : NetworkAnswer × NetworkService :=
  match s.currentService with
  | some external => (.service (some external), s)
  | none =>
    if s.internalServiceStopping then
      (.threw (.logicError
        "slirc::network: must not request internal service during service shutdown!"), s)
    else if s.serviceThread.joinable then (.service none, s)
    else
      match start with
      | none => (.service none, { s with internalServiceWork := true, serviceThread := .running })
      | some fault => (.threw fault, { s with internalServiceWork := true })

/-- What a call does while it has the mutex. -/
def call (s : NetworkService) (start : Option Fault) :
    NetworkCall → NetworkAnswer × NetworkService
  | .service => s.getService start
  | .setService external => (.set, { s with currentService := some external })
  | .usesInternalService => (.uses s.currentService.isNone, s)

/-- A call leaves the thread as it is, or it starts it. -/
theorem call_cases {s t : NetworkService} {start : Option Fault} {call : NetworkCall}
    {answer : NetworkAnswer} (h : s.call start call = (answer, t)) :
    t.internalServiceStopping = s.internalServiceStopping ∧
    (answer = .service none → s.internalServiceStopping = false) ∧
    ((t.serviceThread = s.serviceThread ∧
        (answer = .service none → s.serviceThread.joinable = true) ∧
        (s.serviceThread.joinable = true → t.internalServiceWork = s.internalServiceWork)) ∨
      (s.internalServiceStopping = false ∧ s.serviceThread.joinable = false ∧
        t.serviceThread = .running ∧ t.internalServiceWork = true)) := by
  cases call with
  | setService => cases h; exact ⟨rfl, nofun, .inl ⟨rfl, nofun, fun _ => rfl⟩⟩
  | usesInternalService => cases h; exact ⟨rfl, nofun, .inl ⟨rfl, nofun, fun _ => rfl⟩⟩
  | service =>
    dsimp only [NetworkService.call, getService] at h
    split at h
    · cases h
      exact ⟨rfl, nofun, .inl ⟨rfl, nofun, fun _ => rfl⟩⟩
    · split at h
      · cases h
        exact ⟨rfl, nofun, .inl ⟨rfl, nofun, fun _ => rfl⟩⟩
      · rename_i hstopping
        have hstopping : s.internalServiceStopping = false := by simpa using hstopping
        split at h
        · rename_i hjoinable
          cases h
          exact ⟨rfl, fun _ => hstopping, .inl ⟨rfl, fun _ => hjoinable, fun _ => rfl⟩⟩
        · rename_i hjoinable
          have hjoinable : s.serviceThread.joinable = false := by simpa using hjoinable
          split at h
          · cases h
            exact ⟨rfl, fun _ => hstopping, .inr ⟨hstopping, hjoinable, rfl, rfl⟩⟩
          · cases h
            exact ⟨rfl, nofun, .inl ⟨rfl, nofun, fun hj => by simp [hjoinable] at hj⟩⟩

/-- What `get_service` throws. -/
def refusal (s : NetworkService) (start : Option Fault) : Option Fault :=
  match (s.getService start).1 with
  | .threw fault => some fault
  | .service _ | .set | .uses _ => none

/-- `get_service` gives no service: the internal one is asked for while it is shut down, or has to
be started and cannot be. -/
def refuses (s : NetworkService) (start : Option Fault) : Bool :=
  s.currentService.isNone &&
    (s.internalServiceStopping || !s.serviceThread.joinable && start.isSome)

theorem refusal_isSome (s : NetworkService) (start : Option Fault) :
    (s.refusal start).isSome = s.refuses start := by
  unfold refusal getService refuses
  cases s.currentService with
  | some external => rfl
  | none =>
    cases s.internalServiceStopping with
    | true => rfl
    | false => cases s.serviceThread.joinable <;> cases start <;> rfl

end NetworkService

end Slirc
