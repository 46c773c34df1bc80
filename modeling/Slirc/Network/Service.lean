import Slirc.Lib.ListUpdate
import Slirc.Lib.Machine
import Slirc.Network.Functions
import Mathlib.Data.List.Perm.Basic

/-!
# The network service (`src/network.cpp`)

The library has an `io_service` of its own, which runs in a thread that the first request starts and
that the destructor joins when the library is unloaded. Any number of threads call the functions of
the namespace meanwhile, and so do the handlers that the thread itself calls. `service_mutex` is
modelled lock by lock, since the destructor gives it back before it joins. Nobody catches what a
handler throws, as it does where it is refused the service: it leaves `run` and the function of the
thread, and the process is terminated (`NetworkStep.handlerThrows`).

* `NetworkService`: `slirc_network_service`, and the bodies of the functions. `Network`: it together
  with the threads, and the operations that were started on the internal service.
* `Inv`: what holds after every step. `service_kept`: the internal service runs from the first
  request to the destructor, and no operation is lost that was started before it ended.
* `unloaded`: the destructor ends, unless the process is terminated or an operation does not
  complete.
-/

namespace Slirc

/-! ## The threads -/

/-- A call of a function of the namespace that has not returned. -/
structure NetworkSection where
  call : NetworkCall
  /-- It was made by the handler that the service thread has called. -/
  inHandler : Bool := false
  /-- It has the mutex. -/
  locked : Bool := false
  deriving DecidableEq, Repr

def NetworkSection.holds (x : NetworkSection) : Nat := x.locked.toNat

/-- Where the destructor is. -/
inductive UnloadPhase where
  | notCalled
  | waiting
  | locked
  /-- It has given the mutex back, and is in `service_thread.join()`. -/
  | joining
  /-- Its body has ended. -/
  | ended
  deriving DecidableEq, Repr

/-- `internal_service_stopping` was set. -/
def UnloadPhase.stopping : UnloadPhase → Bool
  | .joining | .ended => true
  | .notCalled | .waiting | .locked => false

def UnloadPhase.holds : UnloadPhase → Nat
  | .locked => 1
  | .notCalled | .waiting | .joining | .ended => 0

/-- The service, the calls of its functions, and the operations `α` of the internal service. -/
structure Network (α : Type*) where
  service : NetworkService := {}
  mutex : Bool := false
  calls : List NetworkSection := []
  destructor : UnloadPhase := .notCalled
  /-- Some thread has been given the internal service. -/
  handedOut : Bool := false
  /-- The operations whose handlers have not been called. -/
  outstanding : List α := []
  /-- The operation whose handler the service thread has called. -/
  handling : Option α := none
  handled : List α := []
  /-- The operations that were started before `run` returned, and those that were later. -/
  posted : List α := []
  late : List α := []
  /-- The number of threads that were started. -/
  threads : Nat := 0
  /-- `std::terminate` was called. -/
  terminated : Bool := false
  deriving DecidableEq

inductive NetworkStep (α : Type*) where
  | call (call : NetworkCall) (inHandler : Bool)
  | lock (n : Nat)
  /-- The call gives the mutex back and ends. -/
  | leave (n : Nat) (start : Option Fault)
  | post (x : α)
  /-- The `i`th operation completes, and `run` calls its handler. -/
  | dispatch (i : Nat)
  | handlerReturns
  /-- An exception leaves the handler. -/
  | handlerThrows
  | runReturns
  | unload
  | unloadLock
  | unloadSection
  | join
  deriving DecidableEq

namespace Network

variable {α : Type*}

def step (s : Network α) (a : NetworkStep α) : Option (Option NetworkAnswer × Network α) :=
  if s.terminated then none
  else match a with
    | .call call inHandler =>
      -- the handler is one thread: it makes one call at a time
      if inHandler = true → s.handling.isSome = true ∧ ∀ x ∈ s.calls, x.inHandler = false then
        some (none, { s with calls := s.calls ++ [{ call, inHandler }] })
      else none
    | .lock n =>
      s.calls[n]?.bind fun x =>
        if x.locked = false ∧ s.mutex = false then
          some (none, { s with mutex := true, calls := s.calls.set n { x with locked := true } })
        else none
    | .leave n start =>
      s.calls[n]?.bind fun x =>
        if x.locked then
          let r := s.service.call start x.call
          some (some r.1, { s with
            service := r.2
            mutex := false
            calls := s.calls.eraseIdx n
            handedOut := s.handedOut || r.1 == .service none
            threads := if r.2.serviceThread = s.service.serviceThread then s.threads
              else s.threads + 1 })
        else none
    | .post x =>
      if s.handedOut then
        some (none,
          if s.service.serviceThread.ended then
            { s with outstanding := s.outstanding ++ [x], late := s.late ++ [x] }
          else { s with outstanding := s.outstanding ++ [x], posted := s.posted ++ [x] })
      else none
    | .dispatch i =>
      if s.service.serviceThread = .running ∧ s.handling.isNone = true then
        s.outstanding[i]?.map fun x =>
          (none, { s with handling := some x, outstanding := s.outstanding.eraseIdx i })
      else none
    | .handlerReturns =>
      if ∀ x ∈ s.calls, x.inHandler = false then
        s.handling.map fun x => (none, { s with handling := none, handled := s.handled ++ [x] })
      else none
    | .handlerThrows =>
      if s.handling.isSome = true ∧ ∀ x ∈ s.calls, x.inHandler = false then
        some (none, { s with terminated := true })
      else none
    | .runReturns =>
      if s.service.serviceThread = .running ∧ s.handling.isNone = true ∧
          s.outstanding.isEmpty = true ∧ s.service.internalServiceWork = false then
        some (none, { s with service := { s.service with serviceThread := .returned } })
      else none
    | .unload =>
      if s.destructor = .notCalled then some (none, { s with destructor := .waiting }) else none
    | .unloadLock =>
      if s.destructor = .waiting ∧ s.mutex = false then
        some (none, { s with mutex := true, destructor := .locked })
      else none
    | .unloadSection =>
      if s.destructor = .locked then
        some (none,
          if s.service.serviceThread.joinable then
            { s with
              service := { s.service with
                internalServiceStopping := true
                internalServiceWork := false }
              mutex := false
              destructor := .joining }
          else
            { s with
              service := { s.service with internalServiceStopping := true }
              mutex := false
              destructor := .ended })
      else none
    | .join =>
      if s.destructor = .joining ∧ s.service.serviceThread = .returned then
        some (none, { s with
          service := { s.service with serviceThread := .joined }
          destructor := .ended })
      else none

/-- The runs of the program, from the construction of the service on. -/
def machine (α : Type*) : Machine (Network α) (NetworkStep α) (Option NetworkAnswer) := ⟨step⟩

/-- What a step can do. -/
inductive Effect (s : Network α) :
    NetworkStep α → Option NetworkAnswer → Network α → Prop where
  | call {call : NetworkCall} {inHandler : Bool} :
    (inHandler = true → s.handling.isSome = true ∧ ∀ x ∈ s.calls, x.inHandler = false) →
    Effect s (.call call inHandler) none { s with calls := s.calls ++ [{ call, inHandler }] }
  | lock {n : Nat} {x : NetworkSection} :
    s.calls[n]? = some x → x.locked = false → s.mutex = false →
    Effect s (.lock n) none
      { s with mutex := true, calls := s.calls.set n { x with locked := true } }
  | leave {n : Nat} {start : Option Fault} {x : NetworkSection} {answer : NetworkAnswer}
    {service : NetworkService} :
    s.calls[n]? = some x → x.locked = true → s.service.call start x.call = (answer, service) →
    Effect s (.leave n start) (some answer) { s with
      service
      mutex := false
      calls := s.calls.eraseIdx n
      handedOut := s.handedOut || answer == .service none
      threads := if service.serviceThread = s.service.serviceThread then s.threads
        else s.threads + 1 }
  | post {x : α} : s.handedOut = true → s.service.serviceThread.ended = false →
    Effect s (.post x) none
      { s with outstanding := s.outstanding ++ [x], posted := s.posted ++ [x] }
  | postLate {x : α} : s.handedOut = true → s.service.serviceThread.ended = true →
    Effect s (.post x) none { s with outstanding := s.outstanding ++ [x], late := s.late ++ [x] }
  | dispatch {i : Nat} {x : α} :
    s.service.serviceThread = .running → s.handling = none → s.outstanding[i]? = some x →
    Effect s (.dispatch i) none
      { s with handling := some x, outstanding := s.outstanding.eraseIdx i }
  | handlerReturns {x : α} : (∀ x ∈ s.calls, x.inHandler = false) → s.handling = some x →
    Effect s .handlerReturns none { s with handling := none, handled := s.handled ++ [x] }
  | handlerThrows {x : α} : s.handling = some x →
    Effect s .handlerThrows none { s with terminated := true }
  | runReturns : s.service.serviceThread = .running → s.handling = none → s.outstanding = [] →
    s.service.internalServiceWork = false →
    Effect s .runReturns none
      { s with service := { s.service with serviceThread := .returned } }
  | unload : s.destructor = .notCalled → Effect s .unload none { s with destructor := .waiting }
  | unloadLock : s.destructor = .waiting → s.mutex = false →
    Effect s .unloadLock none { s with mutex := true, destructor := .locked }
  | unloadJoins : s.destructor = .locked → s.service.serviceThread.joinable = true →
    Effect s .unloadSection none { s with
      service := { s.service with internalServiceStopping := true, internalServiceWork := false }
      mutex := false
      destructor := .joining }
  | unloadEnds : s.destructor = .locked → s.service.serviceThread.joinable = false →
    Effect s .unloadSection none { s with
      service := { s.service with internalServiceStopping := true }
      mutex := false
      destructor := .ended }
  | join : s.destructor = .joining → s.service.serviceThread = .returned →
    Effect s .join none { s with
      service := { s.service with serviceThread := .joined }
      destructor := .ended }

theorem step_effect {s s' : Network α} {a : NetworkStep α} {o : Option NetworkAnswer}
    (hst : s.step a = some (o, s')) : Effect s a o s' := by
  unfold Network.step at hst
  split at hst
  · cases hst
  cases a with
  | call call inHandler =>
    obtain ⟨hone, heq⟩ := Option.ite_none_right_eq_some.mp hst
    cases heq
    exact .call hone
  | lock n =>
    obtain ⟨x, hn, hst⟩ := Option.bind_eq_some_iff.mp hst
    obtain ⟨⟨hx, hmutex⟩, heq⟩ := Option.ite_none_right_eq_some.mp hst
    cases heq
    exact .lock hn hx hmutex
  | leave n start =>
    obtain ⟨x, hn, hst⟩ := Option.bind_eq_some_iff.mp hst
    obtain ⟨hx, heq⟩ := Option.ite_none_right_eq_some.mp hst
    cases heq
    exact .leave hn hx rfl
  | post x =>
    obtain ⟨hout, heq⟩ := Option.ite_none_right_eq_some.mp hst
    cases hended : s.service.serviceThread.ended with
    | true =>
      simp only [hended, if_true] at heq
      cases heq
      exact .postLate hout hended
    | false =>
      simp only [hended, Bool.false_eq_true, if_false] at heq
      cases heq
      exact .post hout hended
  | dispatch i =>
    obtain ⟨⟨hrunning, hnone⟩, hst⟩ := Option.ite_none_right_eq_some.mp hst
    obtain ⟨x, hi, heq⟩ := Option.map_eq_some_iff.mp hst
    cases heq
    exact .dispatch hrunning (Option.isNone_iff_eq_none.mp hnone) hi
  | handlerReturns =>
    obtain ⟨hcalls, hst⟩ := Option.ite_none_right_eq_some.mp hst
    obtain ⟨x, hx, heq⟩ := Option.map_eq_some_iff.mp hst
    cases heq
    exact .handlerReturns hcalls hx
  | handlerThrows =>
    obtain ⟨⟨hsome, -⟩, heq⟩ := Option.ite_none_right_eq_some.mp hst
    cases heq
    obtain ⟨x, hx⟩ := Option.isSome_iff_exists.mp hsome
    exact .handlerThrows hx
  | runReturns =>
    obtain ⟨⟨hrunning, hnone, hempty, hwork⟩, heq⟩ := Option.ite_none_right_eq_some.mp hst
    cases heq
    exact .runReturns hrunning (Option.isNone_iff_eq_none.mp hnone) (List.isEmpty_iff.mp hempty)
      hwork
  | unload =>
    obtain ⟨hd, heq⟩ := Option.ite_none_right_eq_some.mp hst
    cases heq
    exact .unload hd
  | unloadLock =>
    obtain ⟨⟨hd, hmutex⟩, heq⟩ := Option.ite_none_right_eq_some.mp hst
    cases heq
    exact .unloadLock hd hmutex
  | unloadSection =>
    obtain ⟨hd, heq⟩ := Option.ite_none_right_eq_some.mp hst
    cases hjoinable : s.service.serviceThread.joinable with
    | true =>
      simp only [hjoinable, if_true] at heq
      cases heq
      exact .unloadJoins hd hjoinable
    | false =>
      simp only [hjoinable, Bool.false_eq_true, if_false] at heq
      cases heq
      exact .unloadEnds hd hjoinable
  | join =>
    obtain ⟨⟨hd, hreturned⟩, heq⟩ := Option.ite_none_right_eq_some.mp hst
    cases heq
    exact .join hd hreturned

/-! ## The invariant -/

/-- How far the thread is, and how far the destructor. -/
def Course (s : Network α) : Prop :=
  match s.service.serviceThread with
  | .none => s.threads = 0 ∧ s.handedOut = false ∧ s.destructor ≠ .joining
  | .running =>
    s.threads = 1 ∧ s.destructor ≠ .ended ∧
      s.service.internalServiceWork = !s.destructor.stopping
  | .returned => s.threads = 1 ∧ s.destructor = .joining
  | .joined => s.threads = 1 ∧ s.destructor = .ended

/-- Where the operations are. -/
def Ledger (s : Network α) : Prop :=
  match s.service.serviceThread with
  | .none => s.posted = [] ∧ s.handled = [] ∧ s.late = [] ∧ s.handling = none ∧ s.outstanding = []
  | .running => s.late = [] ∧ s.posted.Perm (s.handled ++ s.handling.toList ++ s.outstanding)
  | .returned | .joined => s.handling = none ∧ s.outstanding = s.late ∧ s.posted.Perm s.handled

structure Inv (s : Network α) : Prop where
  /-- Who has the mutex. -/
  mutex : s.mutex.toNat = ListUpdate.weight NetworkSection.holds s.calls + s.destructor.holds
  stopping : s.service.internalServiceStopping = s.destructor.stopping
  course : s.Course
  ledger : s.Ledger

theorem inv_init : Inv ({} : Network α) :=
  ⟨rfl, rfl, ⟨rfl, rfl, nofun⟩, ⟨rfl, rfl, rfl, rfl, rfl⟩⟩

section Inv

variable {s s' : Network α}

theorem Course.started (h : s.Course) (hout : s.handedOut = true) :
    s.service.serviceThread ≠ .none := by
  intro hnone
  simp only [Course, hnone] at h
  simp [h.2.1] at hout

theorem Course.returned (h : s.Course) (hended : s.service.serviceThread.ended = true) :
    s.destructor.stopping = true := by
  cases hthread : s.service.serviceThread with
  | none | running => simp [hthread, ServiceThread.ended] at hended
  | returned | joined =>
    simp only [Course, hthread] at h
    simp [h.2, UnloadPhase.stopping]

/-- The thread goes on while the destructor comes to its section. -/
theorem Course.waiting (h : s.Course) {phase : UnloadPhase} (hs : s.destructor.stopping = false)
    (hphase : phase.stopping = false) : Course { s with destructor := phase } := by
  cases hthread : s.service.serviceThread with
  | none =>
    simp only [Course, hthread] at h ⊢
    refine ⟨h.1, h.2.1, fun hd => ?_⟩
    simp [hd, UnloadPhase.stopping] at hphase
  | running =>
    simp only [Course, hthread, hs] at h ⊢
    refine ⟨h.1, fun hd => ?_, by rw [hphase]; exact h.2.2⟩
    simp [hd, UnloadPhase.stopping] at hphase
  | returned | joined =>
    simp only [Course, hthread] at h
    simp [h.2, UnloadPhase.stopping] at hs

/-- The thread is started by a call that finds neither a thread nor a shutdown. -/
theorem Course.start (h : s.Course) (hstopping : s.destructor.stopping = false)
    (hjoinable : s.service.serviceThread.joinable = false) :
    s.service.serviceThread = .none ∧ s.threads = 0 := by
  cases hthread : s.service.serviceThread with
  | none =>
    simp only [Course, hthread] at h
    exact ⟨rfl, h.1⟩
  | running | returned => simp [hthread, ServiceThread.joinable] at hjoinable
  | joined =>
    simp only [Course, hthread] at h
    simp [h.2, UnloadPhase.stopping] at hstopping

theorem Inv.leave (hs : s.Inv) {n : Nat} {start : Option Fault} {x : NetworkSection}
    {answer : NetworkAnswer} {service : NetworkService} (hn : s.calls[n]? = some x)
    (hx : x.locked = true) (hcall : s.service.call start x.call = (answer, service)) :
    Inv { s with
      service
      mutex := false
      calls := s.calls.eraseIdx n
      handedOut := s.handedOut || answer == .service none
      threads := if service.serviceThread = s.service.serviceThread then s.threads
        else s.threads + 1 } := by
  obtain ⟨hsame, -, hcases⟩ := NetworkService.call_cases hcall
  have hweight := ListUpdate.weight_eraseIdx (f := NetworkSection.holds) hn
  have hone : x.holds = 1 := by simp [NetworkSection.holds, hx]
  have hle := Bool.toNat_le s.mutex
  have hmutex := hs.mutex
  refine ⟨?_, hsame.trans hs.stopping, ?_, ?_⟩
  · dsimp only [Bool.toNat_false]
    omega
  · rcases hcases with ⟨hthread, hout, hwork⟩ | ⟨hstopping, hjoinable, hrunning, hwork⟩
    · have hcourse := hs.course
      cases hold : s.service.serviceThread with
      | none =>
        simp only [Course, hold] at hcourse hout hthread ⊢
        simpa [hthread, hcourse, ServiceThread.joinable] using hout
      | running =>
        simp only [Course, hold] at hcourse hwork hthread ⊢
        simpa [hthread, hwork rfl] using hcourse
      | returned | joined =>
        simp only [Course, hold] at hcourse hthread ⊢
        simpa [hthread] using hcourse
    · rw [hs.stopping] at hstopping
      obtain ⟨hnone, hzero⟩ := hs.course.start hstopping hjoinable
      simp only [Course, hrunning]
      refine ⟨by simp [hnone, hzero], ?_, by rw [hwork, hstopping]; rfl⟩
      intro hover
      simp [hover, UnloadPhase.stopping] at hstopping
  · have hledger := hs.ledger
    rcases hcases with ⟨hthread, -, -⟩ | ⟨hstopping, hjoinable, hrunning, -⟩
    · simpa only [Ledger, hthread] using hledger
    · rw [hs.stopping] at hstopping
      obtain ⟨hnone, -⟩ := hs.course.start hstopping hjoinable
      simp only [Ledger, hnone] at hledger
      obtain ⟨hposted, hhandled, hlate, hhandling, houtstanding⟩ := hledger
      simp [Ledger, hrunning, hposted, hhandled, hlate, hhandling, houtstanding]

theorem Inv.post (hs : s.Inv) {x : α} (hout : s.handedOut = true)
    (hended : s.service.serviceThread.ended = false) :
    Ledger { s with outstanding := s.outstanding ++ [x], posted := s.posted ++ [x] } := by
  have hledger := hs.ledger
  have hstarted := hs.course.started hout
  cases hthread : s.service.serviceThread with
  | none => exact absurd hthread hstarted
  | returned | joined => simp [hthread, ServiceThread.ended] at hended
  | running =>
    simp only [Ledger, hthread] at hledger ⊢
    refine ⟨hledger.1, ?_⟩
    rw [← List.append_assoc]
    exact hledger.2.append_right [x]

theorem Inv.postLate (hs : s.Inv) {x : α} (hended : s.service.serviceThread.ended = true) :
    Ledger { s with outstanding := s.outstanding ++ [x], late := s.late ++ [x] } := by
  have hledger := hs.ledger
  cases hthread : s.service.serviceThread with
  | none | running => simp [hthread, ServiceThread.ended] at hended
  | returned | joined =>
    simp only [Ledger, hthread] at hledger ⊢
    exact ⟨hledger.1, by rw [hledger.2.1], hledger.2.2⟩

theorem Inv.step {a : NetworkStep α} {o : Option NetworkAnswer} (hs : s.Inv)
    (hst : s.step a = some (o, s')) : s'.Inv := by
  obtain ⟨hmutex, hstopping, hcourse, hledger⟩ := hs
  cases step_effect hst with
  | call =>
    refine ⟨?_, hstopping, hcourse, hledger⟩
    rw [ListUpdate.weight_append]
    exact hmutex
  | @lock n x hn hx hfree =>
    have hweight := ListUpdate.weight_set (f := NetworkSection.holds)
      (y := { x with locked := true }) hn
    have hzero : x.holds = 0 := by simp [NetworkSection.holds, hx]
    have hone : NetworkSection.holds { x with locked := true } = 1 := rfl
    have hnobody : s.mutex.toNat = 0 := by simp [hfree]
    refine ⟨?_, hstopping, hcourse, hledger⟩
    dsimp only [Bool.toNat_true]
    omega
  | leave hn hx hcall => exact Inv.leave ⟨hmutex, hstopping, hcourse, hledger⟩ hn hx hcall
  | post hout hended =>
    exact ⟨hmutex, hstopping, hcourse,
      Inv.post ⟨hmutex, hstopping, hcourse, hledger⟩ hout hended⟩
  | postLate _ hended =>
    exact ⟨hmutex, hstopping, hcourse,
      Inv.postLate ⟨hmutex, hstopping, hcourse, hledger⟩ hended⟩
  | @dispatch i x hrunning hnone hi =>
    refine ⟨hmutex, hstopping, hcourse, ?_⟩
    simp only [Ledger, hrunning, hnone] at hledger ⊢
    refine ⟨hledger.1, hledger.2.trans ?_⟩
    obtain ⟨hlt, rfl⟩ := List.getElem?_eq_some_iff.mp hi
    simpa using (List.getElem_cons_eraseIdx_perm hlt).symm.append_left s.handled
  | @handlerReturns x _ hx =>
    refine ⟨hmutex, hstopping, hcourse, ?_⟩
    cases hthread : s.service.serviceThread with
    | running =>
      simp only [Ledger, hthread, hx] at hledger ⊢
      simpa using hledger
    | none | returned | joined => simp [Ledger, hthread, hx] at hledger
  | handlerThrows => exact ⟨hmutex, hstopping, hcourse, hledger⟩
  | runReturns hrunning hnone hempty hwork =>
    -- the work object is gone: the destructor joins
    simp only [Course, hrunning, hwork] at hcourse
    have hjoining : s.destructor = .joining := by
      cases hd : s.destructor <;> simp [hd, UnloadPhase.stopping] at hcourse ⊢
    refine ⟨hmutex, hstopping, ⟨hcourse.1, hjoining⟩, ?_⟩
    simp only [Ledger, hrunning, hnone, hempty] at hledger ⊢
    exact ⟨trivial, hledger.1.symm, by simpa using hledger.2⟩
  | unload hd =>
    rw [hd] at hmutex hstopping
    exact ⟨hmutex, hstopping, hcourse.waiting (by rw [hd]; rfl) rfl, hledger⟩
  | unloadLock hd hfree =>
    rw [hd] at hmutex hstopping
    refine ⟨?_, hstopping, hcourse.waiting (by rw [hd]; rfl) rfl, hledger⟩
    rw [hfree] at hmutex
    simp only [Bool.toNat_false, UnloadPhase.holds, Bool.toNat_true] at hmutex ⊢
    omega
  | unloadJoins hd hjoinable =>
    rw [hd] at hmutex
    have hle := Bool.toNat_le s.mutex
    refine ⟨?_, rfl, ?_, hledger⟩
    · simp only [UnloadPhase.holds, Bool.toNat_false] at hmutex ⊢
      omega
    · cases hthread : s.service.serviceThread with
      | none | joined => simp [hthread, ServiceThread.joinable] at hjoinable
      | running | returned => simp_all [Course, UnloadPhase.stopping]
  | unloadEnds hd hjoinable =>
    rw [hd] at hmutex
    have hle := Bool.toNat_le s.mutex
    refine ⟨?_, rfl, ?_, hledger⟩
    · simp only [UnloadPhase.holds, Bool.toNat_false] at hmutex ⊢
      omega
    · cases hthread : s.service.serviceThread with
      | running | returned => simp [hthread, ServiceThread.joinable] at hjoinable
      | none | joined => simp_all [Course, UnloadPhase.stopping]
  | join hd hreturned =>
    rw [hd] at hmutex hstopping
    simp only [Course, hreturned] at hcourse
    refine ⟨hmutex, hstopping, ⟨hcourse.1, rfl⟩, ?_⟩
    simpa only [Ledger, hreturned] using hledger

end Inv

theorem inv_of_reaches {s : Network α} (h : (machine α).Reaches {} s) : s.Inv :=
  h.inv (fun _ _ _ _ hs hst => hs.step hst) inv_init

theorem step_running {s s' : Network α} {a : NetworkStep α} {o : Option NetworkAnswer}
    (hst : s.step a = some (o, s')) : s.terminated = false := by
  unfold Network.step at hst
  split at hst
  · cases hst
  · rename_i hrunning
    exact Bool.eq_false_iff.mpr hrunning

theorem running_kept {s s' : Network α} {a : NetworkStep α} {o : Option NetworkAnswer}
    (hst : s.step a = some (o, s')) (ha : a ≠ .handlerThrows) : s'.terminated = false := by
  have hrunning := step_running hst
  cases step_effect hst with
  | handlerThrows => exact absurd rfl ha
  | _ => exact hrunning

end Network

/-! ## The end -/

/-- The step begins something new. -/
def NetworkStep.begins {α : Type*} : NetworkStep α → Bool
  | .call _ _ | .post _ | .unload => true
  | _ => false

/-- The step waits for an operation to complete. -/
def NetworkStep.completes {α : Type*} : NetworkStep α → Bool
  | .dispatch _ => true
  | _ => false

/-- The number of steps that the call still makes; its section may start the thread, which then
returns. -/
def NetworkSection.budget (x : NetworkSection) : Nat := if x.locked then 2 else 3

def UnloadPhase.budget : UnloadPhase → Nat
  | .notCalled => 4
  | .waiting => 3
  | .locked => 2
  | .joining => 1
  | .ended => 0

def ServiceThread.budget : ServiceThread → Nat
  | .running => 1
  | .none | .returned | .joined => 0

namespace Network

/-- The number of steps that are made if nothing new is begun. -/
def budget (s : Network α) : Nat :=
  ListUpdate.weight NetworkSection.budget s.calls + 2 * s.outstanding.length +
    s.handling.toList.length + s.service.serviceThread.budget + s.destructor.budget +
    (!s.terminated).toNat

/-- The destructor has ended, and so has everything else. -/
structure AtRest (s : Network α) : Prop where
  destructor : s.destructor = .ended
  joinable : s.service.serviceThread.joinable = false
  calls : s.calls = []
  handled : s.posted.Perm s.handled
  outstanding : s.outstanding = s.late

/-- The destructor waits for the thread, and the thread for an operation to complete. -/
structure Waits (s : Network α) : Prop where
  destructor : s.destructor = .joining
  running : s.service.serviceThread = .running
  calls : s.calls = []
  handling : s.handling = none
  outstanding : s.outstanding ≠ []

variable {s s' : Network α}

/-- The destructor stays called. -/
theorem unload_kept {a : NetworkStep α} {o : Option NetworkAnswer}
    (hst : s.step a = some (o, s')) (hd : s.destructor ≠ .notCalled) :
    s'.destructor ≠ .notCalled := by
  cases step_effect hst with
  | unload hnot => exact absurd hnot hd
  | unloadLock | unloadJoins | unloadEnds | join => nofun
  | _ => exact hd

/-- A step that begins nothing new lowers the budget. -/
theorem budget_lt {a : NetworkStep α} {o : Option NetworkAnswer} (hst : s.step a = some (o, s'))
    (ha : a.begins = false) : s'.budget < s.budget := by
  cases step_effect hst with
  | call | post | postLate | unload => cases ha
  | @lock n x hn hx =>
    have hweight := ListUpdate.weight_set (f := NetworkSection.budget)
      (y := { x with locked := true }) hn
    have hthree : x.budget = 3 := by simp [NetworkSection.budget, hx]
    have htwo : NetworkSection.budget { x with locked := true } = 2 := rfl
    dsimp only [budget]
    omega
  | @leave n start x answer service hn hx hcall =>
    have hweight := ListUpdate.weight_eraseIdx (f := NetworkSection.budget) hn
    have htwo : x.budget = 2 := by simp [NetworkSection.budget, hx]
    have hthread : service.serviceThread.budget ≤ s.service.serviceThread.budget + 1 := by
      obtain ⟨-, -, ⟨hthread, -⟩ | ⟨-, -, hrunning, -⟩⟩ := NetworkService.call_cases hcall
      · rw [hthread]
        omega
      · rw [hrunning]
        exact Nat.le_add_left 1 _
    dsimp only [budget]
    omega
  | @dispatch i x _ hnone hi =>
    obtain ⟨hlt, -⟩ := List.getElem?_eq_some_iff.mp hi
    have hlen := List.length_eraseIdx_of_lt hlt
    simp only [budget, hnone, hlen, Option.toList_none, Option.toList_some, List.length_nil,
      List.length_singleton]
    omega
  | handlerReturns _ hx =>
    simp only [budget, hx, Option.toList_none, Option.toList_some, List.length_nil,
      List.length_singleton]
    omega
  | handlerThrows =>
    simp [budget, step_running hst]
  | runReturns hrunning =>
    simp only [budget, hrunning, ServiceThread.budget]
    omega
  | unloadLock hwaiting =>
    simp only [budget, hwaiting, UnloadPhase.budget]
    omega
  | unloadJoins hlocked | unloadEnds hlocked =>
    simp only [budget, hlocked, UnloadPhase.budget]
    omega
  | join hjoining hreturned =>
    simp only [budget, hjoining, hreturned, UnloadPhase.budget, ServiceThread.budget]
    omega

/-- Where nobody can go on, nobody has the mutex, and no call is left. -/
theorem Inv.calls_over (hs : s.Inv) (hrunning : s.terminated = false)
    (hrest : ∀ a : NetworkStep α, a.begins = false → a.completes = false → a ≠ .handlerThrows →
      s.step a = none) :
    s.mutex = false ∧ s.calls = [] := by
  have hunlocked : ∀ x ∈ s.calls, x.locked = false := by
    intro x hx
    by_contra hlocked
    obtain ⟨n, hn⟩ := List.mem_iff_getElem?.mp hx
    have hnone := hrest (.leave n none) rfl rfl nofun
    simp [Network.step, hrunning, hn, hlocked] at hnone
  have hdestructor : s.destructor ≠ .locked := by
    intro hlocked
    have hnone := hrest .unloadSection rfl rfl nofun
    simp [Network.step, hrunning, hlocked] at hnone
  have hfree : s.mutex = false := by
    have hnone : ListUpdate.weight NetworkSection.holds s.calls = 0 :=
      ListUpdate.weight_eq_zero fun x hx => by simp [NetworkSection.holds, hunlocked x hx]
    have hmutex := hs.mutex
    rw [hnone] at hmutex
    have hzero : s.destructor.holds = 0 := by
      cases hd : s.destructor <;> first | rfl | exact absurd hd hdestructor
    simpa [hzero] using hmutex
  refine ⟨hfree, ?_⟩
  cases hcalls : s.calls with
  | nil => rfl
  | cons x calls =>
    have hnone := hrest (.lock 0) rfl rfl nofun
    simp [Network.step, hrunning, hcalls, hfree, hunlocked x (hcalls ▸ List.mem_cons_self)]
      at hnone

/-- **Where nobody can go on** until an operation completes. -/
theorem Inv.atRest (hs : s.Inv) (hd : s.destructor ≠ .notCalled) (hrunning : s.terminated = false)
    (hrest : ∀ a : NetworkStep α, a.begins = false → a.completes = false → a ≠ .handlerThrows →
      s.step a = none) :
    s.AtRest ∨ s.Waits := by
  obtain ⟨hfree, hcalls⟩ := hs.calls_over hrunning hrest
  have hcourse := hs.course
  have hledger := hs.ledger
  have hhandling : s.handling = none := by
    cases hx : s.handling with
    | none => rfl
    | some x =>
      have hnone := hrest .handlerReturns rfl rfl nofun
      simp [Network.step, hrunning, hcalls, hx] at hnone
  have hstopping : s.destructor = .joining ∨ s.destructor = .ended := by
    cases hphase : s.destructor with
    | notCalled => exact absurd hphase hd
    | waiting =>
      have hnone := hrest .unloadLock rfl rfl nofun
      simp [Network.step, hrunning, hphase, hfree] at hnone
    | locked =>
      have hnone := hrest .unloadSection rfl rfl nofun
      simp [Network.step, hrunning, hphase] at hnone
    | joining => exact .inl rfl
    | ended => exact .inr rfl
  cases hthread : s.service.serviceThread with
  | none =>
    simp only [Course, Ledger, hthread] at hcourse hledger
    obtain ⟨hposted, hhandled, hlate, -, houtstanding⟩ := hledger
    refine .inl ⟨hstopping.resolve_left hcourse.2.2, by rw [hthread]; rfl, hcalls, ?_, ?_⟩
    · rw [hposted, hhandled]
    · rw [houtstanding, hlate]
  | running =>
    -- the work object is gone: `run` returns when all handlers were called
    simp only [Course, hthread] at hcourse
    have hjoining := hstopping.resolve_right hcourse.2.1
    refine .inr ⟨hjoining, hthread, hcalls, hhandling, fun houtstanding => ?_⟩
    have hnone := hrest .runReturns rfl rfl nofun
    simp [Network.step, hrunning, hthread, hhandling, houtstanding, hcourse.2.2, hjoining,
      UnloadPhase.stopping] at hnone
  | returned =>
    simp only [Course, hthread] at hcourse
    have hnone := hrest .join rfl rfl nofun
    simp [Network.step, hrunning, hthread, hcourse.2] at hnone
  | joined =>
    simp only [Course, Ledger, hthread] at hcourse hledger
    exact .inl ⟨hcourse.2, by rw [hthread]; rfl, hcalls, hledger.2.2, hledger.2.1⟩

/-- An operation that completes ends the wait. -/
theorem Waits.dispatch (h : s.Waits) (hrunning : s.terminated = false) :
    (s.step (.dispatch 0)).isSome = true := by
  obtain ⟨x, outstanding, houtstanding⟩ := List.exists_cons_of_ne_nil h.outstanding
  simp [Network.step, hrunning, h.running, h.handling, houtstanding]

/-- **Unloading ends.** Once the destructor was called, and if no new calls and no new operations
are begun, at most `budget` steps are made, in whatever order. When nobody can go on until an
operation completes, the process was terminated by the exception of a handler; or the destructor has
ended, nobody waits for the mutex, and every handler was called of an operation that was started
before `run` returned; or the destructor waits in `join` for the thread, which waits for an
operation to complete. If they all do, and no handler throws, the destructor ends. -/
theorem unloaded (h : (machine α).Reaches {} s) (hd : s.destructor ≠ .notCalled) :
    (∀ as os s', (machine α).run s as = some (os, s') → (∀ a ∈ as, a.begins = false) →
      as.length ≤ s.budget ∧
        ((∀ a : NetworkStep α, a.begins = false → a.completes = false → s'.step a = none) →
          s'.terminated = true ∨ s'.AtRest ∨
            s'.Waits ∧ (s'.step (.dispatch 0)).isSome = true)) ∧
    (s.terminated = false → ∃ as os s', (∀ a ∈ as, a.begins = false ∧ a ≠ .handlerThrows) ∧
      (machine α).run s as = some (os, s') ∧ s'.AtRest) := by
  let unloading (t : Network α) : Prop := t.Inv ∧ t.destructor ≠ .notCalled
  have hkeep : ∀ t a o t', unloading t → (machine α).step t a = some (o, t') → unloading t' :=
    fun t a o t' ht hst => ⟨ht.1.step hst, unload_kept hst ht.2⟩
  have hs : unloading s := ⟨inv_of_reaches h, hd⟩
  constructor
  · intro as os s' hrun has
    have hle := Machine.run_length_le (G := fun a : NetworkStep α => a.begins = false)
      (fun t a o t' ht ha hst => ⟨hkeep t a o t' ht hst, budget_lt hst ha⟩) hs has hrun
    obtain ⟨ht, hd'⟩ := Machine.run_inv hkeep hs hrun
    refine ⟨by omega, fun hrest => ?_⟩
    cases hrunning : s'.terminated with
    | true => exact .inl rfl
    | false =>
      rcases ht.atRest hd' hrunning fun a ha hc _ => hrest a ha hc with hover | hwaits
      · exact .inr (.inl hover)
      · exact .inr (.inr ⟨hwaits, hwaits.dispatch hrunning⟩)
  · intro hrunning
    let calm (t : Network α) : Prop := unloading t ∧ t.terminated = false
    have hlower : ∀ t a o t', calm t → (NetworkStep.begins a = false ∧ a ≠ .handlerThrows) →
        (machine α).step t a = some (o, t') → calm t' ∧ t'.budget < t.budget :=
      fun t a o t' ht ha hst =>
        ⟨⟨hkeep t a o t' ht.1 hst, running_kept hst ha.2⟩, budget_lt hst ha.1⟩
    obtain ⟨as, os, s', has, hrun, ⟨⟨ht, hd'⟩, hrunning'⟩, hlast⟩ :=
      Machine.exists_run_to_rest hlower ⟨hs, hrunning⟩
    refine ⟨as, os, s', has, hrun, ?_⟩
    refine (ht.atRest hd' hrunning' fun a ha _ hthrows => hlast a ⟨ha, hthrows⟩).resolve_right ?_
    intro hwaits
    have hnone : s'.step (.dispatch 0) = none := hlast (.dispatch 0) ⟨rfl, nofun⟩
    have hsome := hwaits.dispatch hrunning'
    rw [hnone] at hsome
    cases hsome

/-- The library is unloaded while a handler of the internal service requests it. -/
def shutdown : List (NetworkStep Nat) :=
  [.call .service false, .lock 0, .leave 0 none, .post 1, .post 2, .dispatch 1,
    .call .service true, .unload, .unloadLock, .unloadSection, .lock 0]

def afterShutdown : Network Nat where
  service := { serviceThread := .running, internalServiceStopping := true }
  mutex := true
  calls := [{ call := .service, inHandler := true, locked := true }]
  destructor := .joining
  handedOut := true
  outstanding := [1]
  handling := some 2
  posted := [1, 2]
  threads := 1

theorem shutdown_reached : (machine Nat).Reaches {} afterShutdown :=
  ⟨shutdown, [none, none, some (.service none)] ++ List.replicate 8 none, rfl⟩

theorem unloaded_shutdown : ∃ as os s', (∀ a ∈ as, a.begins = false ∧ a ≠ .handlerThrows) ∧
    (machine Nat).run afterShutdown as = some (os, s') ∧ s'.AtRest :=
  (unloaded shutdown_reached nofun).2 rfl

end Network

end Slirc
