import Mathlib.Tactic.Simps.Basic
import Slirc.Connection.Runs

/-!
# What a step of a connection can do

Every invariant of the runs is proved from these inversions, and none of them unfolds the programs.

* `Teardown`, `TryNext`: what `do_unscheduled_disconnect` and `connect_try_next` can do.
* `Handled`: what a completion handler can do; one constructor for each of its branches.
* `Effect`: what a call can do. `step_effect`: every step that is defined is one of these.
-/

namespace Slirc.Connection

open Program

/-! ## What the programs do to the state -/

/-- What `get_socket` throws if neither member is engaged. -/
def missingTransport : Fault :=
  .logicError ("slirc::module::connection - socket is requested, " ++
    "but neither ssl nor non-ssl is initialized")

/-- What `cancel` throws if the socket is not open. -/
def badDescriptor : Fault := .systemError "cancel: Bad file descriptor"

/-- What `set_endpoint` throws in a build without SSL support. -/
def sslUnsupported : Fault :=
  .logicError ("Attempting to use SSL in libslirc, " ++
    "but libslirc was built without SSL support.")

def errorEvent (errorMessage : String) (errorCode : ErrorCode) : Event where
  originalId := errorId
  idQueue := { queuedIds := [errorId], nextIdIndex := 0 }
  errorInfo := some (errorMessage, errorCode)

def lineEvent (line : List Char) : Event where
  originalId := receivedLine
  idQueue := { queuedIds := [receivedLine], nextIdIndex := 0 }
  receivedData := some line

namespace Impl

@[simps]
def emitting (s : Impl) (events : List Event) : Impl := { s with emitted := s.emitted ++ events }

@[simps]
def starting (s : Impl) (operation : Operation) : Impl :=
  { s with operations := s.operations ++ [⟨s.attempt, operation⟩] }

/-- The buffers after an operation, and the write that it starts. -/
@[simps]
def writing (s : Impl) (r : Buffers × Option WriteRequest) : Impl :=
  { s with
    buffers := r.1
    operations := s.operations ++ r.2.toList.map fun request => ⟨s.attempt, .write request⟩ }

/-- Neither the resolver nor the buffers are in use. -/
@[simps]
def cleared (s : Impl) : Impl :=
  { s with
    resolver := false
    resolveIterator := if s.resolver then [] else s.resolveIterator
    buffers := s.buffers.clear }

/-- What a successful `connect` does before it looks the name up. -/
def attempting (s : Impl) : Impl :=
  { ({ s with attempts := s.attempts + 1 } : Impl).enter .connecting with resolver := true }

/-- The attempt to connect to one of the endpoints. -/
def trying (s : Impl) (sock : Transport) (endpoint : Resolved) (rest : List Resolved) : Impl :=
  { (s.setOpen sock true).starting (.connect endpoint) with resolveIterator := rest }

/-- `recv`: the lines that are complete, and the next read. -/
def reading (s : Impl) : Impl :=
  let r := recvLoop s.buffers.recvBuffer 0
  (({ s with buffers := { s.buffers with recvBuffer := r.2 } } : Impl).emitting
    (r.1.map lineEvent)).starting .read

/-- `connect_success` -/
def established (s : Impl) : Impl := (s.cleared.enter .connected).starting .read

section SetOpen

variable (s : Impl) (sock : Transport) (isOpen : Bool)

@[simp] theorem setOpen_curstate : (s.setOpen sock isOpen).curstate = s.curstate := by
  cases sock <;> rfl

@[simp] theorem setOpen_emitted : (s.setOpen sock isOpen).emitted = s.emitted := by
  cases sock <;> rfl

@[simp] theorem setOpen_operations : (s.setOpen sock isOpen).operations = s.operations := by
  cases sock <;> rfl

@[simp] theorem setOpen_buffers : (s.setOpen sock isOpen).buffers = s.buffers := by
  cases sock <;> rfl

@[simp] theorem setOpen_resolver : (s.setOpen sock isOpen).resolver = s.resolver := by
  cases sock <;> rfl

@[simp] theorem setOpen_resolveIterator :
    (s.setOpen sock isOpen).resolveIterator = s.resolveIterator := by
  cases sock <;> rfl

@[simp] theorem setOpen_attempts : (s.setOpen sock isOpen).attempts = s.attempts := by
  cases sock <;> rfl

@[simp] theorem setOpen_transport : (s.setOpen sock isOpen).transport = s.transport := by
  unfold transport
  cases sock <;> cases hsocket : s.socket <;> cases hssl : s.ssl <;> simp [setOpen, hsocket, hssl]

end SetOpen

end Impl

/-- What a teardown can do, in a state that is not disconnected. -/
inductive Teardown (s : Impl) : Outcome → Impl → Prop where
  | missing : s.transport = none → Teardown s (.threw missingTransport) s
  | closed (sock : Transport) : s.transport = some sock → s.isOpen sock = false →
    Teardown s (.threw badDescriptor) s
  | done (sock : Transport) : s.transport = some sock → s.isOpen sock = true →
    Teardown s .returned ((s.setOpen sock false).cleared.enter .disconnected)

/-- What `connect_try_next` can do. -/
inductive TryNext (s : Impl) : Outcome → Impl → Prop where
  | exhausted {o : Outcome} {s' : Impl} : s.resolveIterator = [] → Teardown s o s' → TryNext s o s'
  | missing {endpoint : Resolved} {rest : List Resolved} : s.resolveIterator = endpoint :: rest →
    s.transport = none → TryNext s (.threw missingTransport) s
  | next {endpoint : Resolved} {rest : List Resolved} (sock : Transport) :
    s.resolveIterator = endpoint :: rest → s.transport = some sock →
    TryNext s .returned (s.trying sock endpoint rest)

/-- What the handler of an operation can do, which is no longer outstanding. -/
inductive Handled (s : Impl) : Operation → Completion → Outcome → Impl → Prop where
  | idle {operation : Operation} {completion : Completion} : s.curstate ≠ operation.expects →
    Handled s operation completion .returned s
  | lookupFailed {hostname service : List Char} {error : ErrorCode} {o : Outcome} {s' : Impl} :
    s.curstate = .connecting →
    Teardown (s.emitting [errorEvent ("Name lookup failed: " ++ error.message) error]) o s' →
    Handled s (.resolve hostname service) (.failed error) o s'
  | resolved {hostname service : List Char} {iterator : List Resolved} {o : Outcome} {s' : Impl} :
    s.curstate = .connecting → TryNext { s with resolveIterator := iterator } o s' →
    Handled s (.resolve hostname service) (.resolved iterator) o s'
  | connectFailed {endpoint : Resolved} {error : ErrorCode} {o : Outcome} {s' : Impl} :
    s.curstate = .connecting →
    TryNext (s.emitting [errorEvent ("Connection failed: " ++ error.message) error]) o s' →
    Handled s (.connect endpoint) (.failed error) o s'
  | handshake {endpoint : Resolved} : s.curstate = .connecting → s.ssl.isSome = true →
    Handled s (.connect endpoint) .succeeded .returned (s.starting .handshake)
  | connected {endpoint : Resolved} : s.curstate = .connecting → s.ssl = none →
    s.transport.isSome = true → Handled s (.connect endpoint) .succeeded .returned s.established
  | handshakeFailed {error : ErrorCode} : s.curstate = .connecting →
    Handled s .handshake (.failed error) .returned
      (s.emitting [errorEvent ("SSL handshake failed: " ++ error.message) error])
  | shaken : s.curstate = .connecting → s.transport.isSome = true →
    Handled s .handshake .succeeded .returned s.established
  | readFailed {error : ErrorCode} {o : Outcome} {s' : Impl} : s.curstate = .connected →
    Teardown (s.emitting [errorEvent ("Connection failed: " ++ error.message) error]) o s' →
    Handled s .read (.failed error) o s'
  | received {bytes : List Char} : s.curstate = .connected → bytes.length ≤ rawBufferSize →
    s.transport.isSome = true → Handled s .read (.received bytes) .returned
      ({ s with
        buffers := { s.buffers with recvBuffer := s.buffers.recvBuffer ++ bytes } } : Impl).reading
  | writeFailed {request : WriteRequest} {error : ErrorCode} {o : Outcome} {s' : Impl} :
    s.curstate = .connected →
    Teardown (s.emitting [errorEvent ("Sending data failed: " ++ error.message) error]) o s' →
    Handled s (.write request) (.failed error) o s'
  | transferred {request : WriteRequest} {num : Nat} : s.curstate = .connected →
    num ≤ request.size → ((s.buffers.advance num).2.isSome = true → s.transport.isSome = true) →
    Handled s (.write request) (.transferred num) .returned (s.writing (s.buffers.advance num))

/-- What a call can do. -/
inductive Effect (s : Impl) : Call → Outcome → Impl → Prop where
  | endpointRefused {newEndpoint : List Char} {newPort : UInt32} : s.curstate ≠ .disconnected →
    Effect s (.setEndpoint newEndpoint newPort) (.threw .alreadyConnected) s
  | setEndpoint {newEndpoint : List Char} {newPort : UInt32} {o : Outcome} (hostname : List Char)
    (port : UInt32) (socket ssl : Option Socket) :
    s.curstate = .disconnected → o = .returned ∨ o = .threw sslUnsupported →
    Effect s (.setEndpoint newEndpoint newPort) o { s with hostname, port, socket, ssl }
  | connectRefused : s.curstate ≠ .disconnected →
    Effect s .connect (.threw .alreadyConnected) s
  | connect : s.curstate = .disconnected →
    Effect s .connect .returned (s.attempting.starting
      (.resolve s.hostname (Nat.toDigits 10 s.port.toNat)))
  | ignored : s.curstate = .disconnecting ∨ s.curstate = .disconnected →
    Effect s .disconnect .returned s
  | disconnect {o : Outcome} {s' : Impl} :
    ¬(s.curstate = .disconnecting ∨ s.curstate = .disconnected) →
    Teardown (s.enter .disconnecting) o s' → Effect s .disconnect o s'
  | sendRaw {data : List Char} :
    ((s.buffers.append data).2.isSome = true → s.transport.isSome = true) →
    Effect s (.sendRaw data) .returned (s.writing (s.buffers.append data))
  | deliver {i : Nat} {completion : Completion} {x : Started} {o : Outcome} {s' : Impl} :
    s.operations[i]? = some x → (x.operation.complete completion).isSome = true →
    Handled (s.without i) x.operation completion o s' → Effect s (.deliver i completion) o s'

/-! ## Teardown -/

theorem getSocket_missing {s : Impl} (h : s.transport = none) :
    getSocket s = .error missingTransport s := by
  rw [getSocket, get_bind]
  unfold Impl.transport at h
  split at h
  · cases h
  split at h
  · cases h
  · rename_i hsocket hssl
    rw [if_neg hsocket, if_neg hssl]
    rfl

theorem cancel_closed {s : Impl} {sock : Transport} (h : s.isOpen sock = false) :
    cancel sock s = .error badDescriptor s := by
  rw [cancel, get_bind, if_pos h]
  rfl

theorem cancel_open {s : Impl} {sock : Transport} (h : s.isOpen sock = true) :
    cancel sock s = .ok () s := by
  have hne : ¬s.isOpen sock = false := by simp [h]
  rw [cancel, get_bind, if_neg hne]
  rfl

theorem clear_eq (s : Impl) :
    (do clearResolver; clearBuffers : Code Unit) s = .ok () s.cleared := by
  show EStateM.Result.ok () _ = _
  unfold Impl.cleared
  congr 1
  split <;> simp [*]

/-- A teardown changes nothing, or ends disconnected. -/
theorem Teardown.left {s s' : Impl} {o : Outcome} (h : Teardown s o s') :
    s' = s ∨ s'.curstate = .disconnected := by
  cases h with
  | missing => exact .inl rfl
  | closed => exact .inl rfl
  | done => exact .inr rfl

/-- What a program does that is defined from the state. -/
theorem outcome_eq_of {P : Outcome → Impl → Prop} {r : EStateM.Result Fault Impl Unit} {o : Outcome}
    {s' : Impl} (hspec : ∃ o s', outcome r = some (o, s') ∧ P o s')
    (h : outcome r = some (o, s')) : P o s' := by
  obtain ⟨o₁, s₁, h₁, hP⟩ := hspec
  rw [h] at h₁
  cases h₁
  exact hP

/-- **A teardown** throws if there is no open socket, and otherwise ends disconnected. -/
theorem doUnscheduledDisconnect_teardown {s : Impl} (hs : s.curstate ≠ .disconnected) :
    ∃ o s', outcome (doUnscheduledDisconnect s) = some (o, s') ∧ Teardown s o s' := by
  cases hsock : s.transport with
  | none =>
    have hrun : doUnscheduledDisconnect s = .error missingTransport s := by
      rw [doUnscheduledDisconnect, bind_error (getSocket_missing hsock)]
    exact ⟨_, _, by rw [hrun]; rfl, .missing hsock⟩
  | some sock =>
    have hget := getSocket_eq hsock
    cases hopen : s.isOpen sock with
    | false =>
      have hrun : doUnscheduledDisconnect s = .error badDescriptor s := by
        rw [doUnscheduledDisconnect, bind_ok hget, bind_error (cancel_closed hopen)]
      exact ⟨_, _, by rw [hrun]; rfl, .closed sock hsock hopen⟩
    | true =>
      have hne : State.disconnected ≠ .changed := by decide
      have hrun : doUnscheduledDisconnect s =
          .ok () ((s.setOpen sock false).cleared.enter .disconnected) := by
        have hseq : doUnscheduledDisconnect = (do
            let sock ← getSocket
            cancel sock
            modify fun s => s.setOpen sock false
            (do clearResolver; clearBuffers)
            emitStateChange .disconnected : Code Unit) := rfl
        have hcur : (s.setOpen sock false).cleared.curstate ≠ .disconnected := by simpa using hs
        rw [hseq, bind_ok hget, bind_ok (cancel_open hopen), modify_bind, bind_ok (clear_eq _),
          emitStateChange_eq _ hne, if_neg hcur]
      exact ⟨_, _, by rw [hrun]; rfl, .done sock hsock hopen⟩

theorem TryNext.left {s s' : Impl} {o : Outcome} (h : TryNext s o s') :
    s'.curstate = s.curstate ∨ s'.curstate = .disconnected := by
  cases h with
  | exhausted _ hdown => exact hdown.left.imp_left fun h => by rw [h]
  | missing => exact .inl rfl
  | next => exact .inl (by simp [Impl.trying])

/-- **`connect_try_next`** goes on with the next endpoint, and tears the connection down if there is
none. -/
theorem connectTryNext_tryNext {s : Impl} (hs : s.curstate ≠ .disconnected) :
    ∃ o s', outcome (connectTryNext s) = some (o, s') ∧ TryNext s o s' := by
  cases hrest : s.resolveIterator with
  | nil =>
    have hrun : connectTryNext s = doUnscheduledDisconnect s := by
      rw [connectTryNext, get_bind, hrest]
    obtain ⟨o, s', hout, hdown⟩ := doUnscheduledDisconnect_teardown hs
    exact ⟨o, s', by rw [hrun, hout], .exhausted hrest hdown⟩
  | cons endpoint rest =>
    cases hsock : s.transport with
    | none =>
      have hrun : connectTryNext s = .error missingTransport s := by
        rw [connectTryNext, get_bind, hrest]
        exact bind_error (getSocket_missing hsock)
      exact ⟨_, _, by rw [hrun]; rfl, .missing hrest hsock⟩
    | some sock =>
      have hrun : connectTryNext s = .ok () (s.trying sock endpoint rest) := by
        rw [connectTryNext, get_bind, hrest]
        exact bind_ok (getSocket_eq hsock)
      exact ⟨_, _, by rw [hrun]; rfl, .next sock hrest hsock⟩

theorem emitError_eq (errorMessage : String) (errorCode : ErrorCode) (s : Impl) :
    emitError errorMessage errorCode s =
      .ok () (s.emitting [errorEvent errorMessage errorCode]) := rfl

/-- What a failure does that ends the session. -/
theorem emitAndDisconnect_teardown (errorMessage : String) (errorCode : ErrorCode) {s : Impl}
    (hs : s.curstate ≠ .disconnected) :
    ∃ o s', outcome ((do emitError errorMessage errorCode; doUnscheduledDisconnect : Code Unit) s) =
      some (o, s') ∧ Teardown (s.emitting [errorEvent errorMessage errorCode]) o s' := by
  rw [bind_ok (emitError_eq errorMessage errorCode s)]
  exact doUnscheduledDisconnect_teardown hs

/-! ## Receiving and sending -/

theorem transport_isSome (s : Impl) :
    s.transport.isSome = true ↔ s.ssl.isSome = true ∨ s.socket.isSome = true := by
  unfold Impl.transport
  cases s.socket <;> cases s.ssl <;> simp

theorem startTransfer_eq {s : Impl} (h : s.transport.isSome = true) (operation : Operation) :
    startTransfer operation s = .ok () (s.starting operation) := by
  rw [startTransfer, get_bind, if_pos ((transport_isSome s).mp h)]
  rfl

theorem startTransfer_outcome {operation : Operation} {s s' : Impl} {o : Outcome}
    (h : outcome (startTransfer operation s) = some (o, s')) :
    s.transport.isSome = true ∧ o = .returned ∧ s' = s.starting operation := by
  by_cases hsock : s.transport.isSome = true
  · rw [startTransfer_eq hsock] at h
    cases h
    exact ⟨hsock, rfl, rfl⟩
  · rw [startTransfer, get_bind, if_neg (mt (transport_isSome s).mpr hsock)] at h
    cases h

theorem emitLines_eq (lines : List (List Char)) (s : Impl) :
    lines.forM emitLine s = .ok () (s.emitting (lines.map lineEvent)) := by
  induction lines generalizing s with
  | nil =>
    show EStateM.Result.ok () s = _
    simp [Impl.emitting]
  | cons line lines ih =>
    have hline : emitLine line s = .ok () (s.emitting [lineEvent line]) := rfl
    have hrest : (line :: lines).forM emitLine s =
        lines.forM emitLine (s.emitting [lineEvent line]) := bind_ok hline
    rw [hrest, ih]
    simp [Impl.emitting]

theorem recv_eq {s : Impl} (h : s.transport.isSome = true) : recv s = .ok () s.reading := by
  rw [recv, get_bind, modify_bind, bind_ok (emitLines_eq _ _)]
  refine startTransfer_eq ?_ .read
  exact h

theorem recv_outcome {s s' : Impl} {o : Outcome} (h : outcome (recv s) = some (o, s')) :
    s.transport.isSome = true ∧ o = .returned ∧ s' = s.reading := by
  rw [recv, get_bind, modify_bind, bind_ok (emitLines_eq _ _)] at h
  exact startTransfer_outcome h

theorem connectSuccess_eq {s : Impl} (hs : s.curstate ≠ .connected) :
    connectSuccess s = recv (s.cleared.enter .connected) := by
  have hne : State.connected ≠ .changed := by decide
  have hchange : emitStateChange .connected s.cleared = .ok () (s.cleared.enter .connected) := by
    rw [emitStateChange_eq _ hne]
    exact congrArg _ (if_neg hs)
  have hseq : connectSuccess =
      (do (do clearResolver; clearBuffers); emitStateChange .connected; recv : Code Unit) := rfl
  rw [hseq, bind_ok (clear_eq s), bind_ok hchange]

theorem connectSuccess_outcome {s s' : Impl} {o : Outcome} (hs : s.curstate ≠ .connected)
    (h : outcome (connectSuccess s) = some (o, s')) :
    s.transport.isSome = true ∧ o = .returned ∧ s' = s.established := by
  rw [connectSuccess_eq hs] at h
  obtain ⟨hsock, ho, hs'⟩ := recv_outcome h
  refine ⟨hsock, ho, hs'.trans ?_⟩
  -- nothing is left in the receive buffer
  have hempty : recvLoop [] 0 = ([], []) := recvLoop_eq [] 0
  have hbuf : (s.cleared.enter .connected).buffers.recvBuffer = [] := rfl
  unfold Impl.reading
  rw [hbuf, hempty]
  simp [Impl.emitting, Impl.established, Impl.cleared, Impl.enter, Buffers.clear]

theorem runBuffers_eq {f : Buffers → Buffers × Option WriteRequest} {s : Impl}
    (h : (f s.buffers).2.isSome = true → s.transport.isSome = true) :
    runBuffers f s = .ok () (s.writing (f s.buffers)) := by
  rw [runBuffers, get_bind, modify_bind]
  cases hf : (f s.buffers).2 with
  | none =>
    show EStateM.Result.ok () _ = _
    simp [Impl.writing, hf]
  | some request =>
    have hsock : ({ s with buffers := (f s.buffers).1 } : Impl).transport.isSome = true :=
      h (by simp [hf])
    dsimp only
    rw [startTransfer_eq hsock]
    simp [Impl.writing, Impl.starting, Impl.attempt, hf]

theorem runBuffers_outcome {f : Buffers → Buffers × Option WriteRequest} {s s' : Impl} {o : Outcome}
    (h : outcome (runBuffers f s) = some (o, s')) :
    ((f s.buffers).2.isSome = true → s.transport.isSome = true) ∧ o = .returned ∧
      s' = s.writing (f s.buffers) := by
  have hsock : (f s.buffers).2.isSome = true → s.transport.isSome = true := by
    intro hsome
    obtain ⟨request, hf⟩ := Option.isSome_iff_exists.mp hsome
    rw [runBuffers, get_bind, modify_bind, hf] at h
    exact (startTransfer_outcome h).1
  rw [runBuffers_eq hsock] at h
  cases h
  exact ⟨hsock, rfl, rfl⟩

/-! ## Handlers and calls -/

/-- What a handler does that passes its test. -/
theorem complete_active {operation : Operation} {completion : Completion} {code : Code Unit}
    {s s' : Impl} {o : Outcome} (h : operation.complete completion = some code)
    (hs : s.curstate = operation.expects) (hout : outcome (code s) = some (o, s')) :
    Handled s operation completion o s' := by
  cases operation with
  | resolve hostname service =>
    replace hs : s.curstate = .connecting := hs
    cases completion with
    | failed error =>
      cases h
      rw [resolveHandler, handler_active hs] at hout
      exact .lookupFailed hs (outcome_eq_of (emitAndDisconnect_teardown _ _ (by simp [hs])) hout)
    | resolved iterator =>
      cases h
      rw [resolveHandler, handler_active hs] at hout
      exact .resolved hs (outcome_eq_of (connectTryNext_tryNext (by simp [hs])) hout)
    | succeeded | received | transferred => cases h
  | connect endpoint =>
    replace hs : s.curstate = .connecting := hs
    cases completion with
    | failed error =>
      cases h
      rw [connectHandler, handler_active hs] at hout
      dsimp only at hout
      rw [bind_ok (emitError_eq _ error s)] at hout
      exact .connectFailed hs
        (outcome_eq_of (connectTryNext_tryNext (by simp [Impl.emitting, hs])) hout)
    | succeeded =>
      cases h
      rw [connectHandler, handler_active hs] at hout
      dsimp only at hout
      rw [connectOptSslHandshake, get_bind] at hout
      split at hout
      · rename_i hssl
        cases hout
        exact .handshake hs hssl
      · rename_i hssl
        obtain ⟨hsock, rfl, rfl⟩ := connectSuccess_outcome (by simp [hs]) hout
        exact .connected hs (by simpa using hssl) hsock
    | resolved | received | transferred => cases h
  | handshake =>
    replace hs : s.curstate = .connecting := hs
    cases completion with
    | failed error =>
      cases h
      rw [handshakeHandler, handler_active hs] at hout
      dsimp only at hout
      rw [emitError_eq] at hout
      cases hout
      exact .handshakeFailed hs
    | succeeded =>
      cases h
      rw [handshakeHandler, handler_active hs] at hout
      obtain ⟨hsock, rfl, rfl⟩ := connectSuccess_outcome (by simp [hs]) hout
      exact .shaken hs hsock
    | resolved | received | transferred => cases h
  | read =>
    replace hs : s.curstate = .connected := hs
    cases completion with
    | failed error =>
      cases h
      rw [recvHandler, handler_active hs] at hout
      exact .readFailed hs (outcome_eq_of (emitAndDisconnect_teardown _ _ (by simp [hs])) hout)
    | received bytes =>
      obtain ⟨hbytes, hcode⟩ := Option.ite_none_right_eq_some.mp h
      cases hcode
      rw [recvHandler, handler_active hs] at hout
      dsimp only at hout
      rw [modify_bind] at hout
      obtain ⟨hsock, rfl, rfl⟩ := recv_outcome hout
      exact .received hs hbytes hsock
    | resolved | succeeded | transferred => cases h
  | write request =>
    replace hs : s.curstate = .connected := hs
    cases completion with
    | failed error =>
      cases h
      rw [sendCallback, handler_active hs] at hout
      exact .writeFailed hs (outcome_eq_of (emitAndDisconnect_teardown _ _ (by simp [hs])) hout)
    | transferred num =>
      obtain ⟨hnum, hcode⟩ := Option.ite_none_right_eq_some.mp h
      cases hcode
      rw [sendCallback_ok hs] at hout
      obtain ⟨hsock, rfl, rfl⟩ := runBuffers_outcome hout
      exact .transferred hs hnum hsock
    | resolved | succeeded | received => cases h

theorem setEndpoint_outcome {sslSupport : Bool} {newEndpoint : List Char} {newPort : UInt32}
    {s s' : Impl} {o : Outcome} (hs : s.curstate = .disconnected)
    (h : outcome (setEndpoint sslSupport newEndpoint newPort s) = some (o, s')) :
    o = .returned ∨ o = .threw sslUnsupported := by
  have hne : ¬s.curstate ≠ .disconnected := not_not.mpr hs
  rw [setEndpoint, setEndpointWith, get_bind, if_neg hne] at h
  split at h
  · cases h
    exact .inl rfl
  · rename_i e _
    obtain ⟨useSsl, hostname, port⟩ := e
    cases useSsl <;> cases sslSupport <;> cases h <;> simp [sslUnsupported]

theorem Impl.eq_of_session {s s' : Impl} (h : s'.session = s.session) :
    s' = { s with
      hostname := s'.hostname, port := s'.port, socket := s'.socket, ssl := s'.ssl } := by
  cases s
  cases s'
  simp_all [Impl.session]

/-- **Every step that is defined is one of these.** -/
theorem step_effect {sslSupport : Bool} {s s' : Impl} {call : Call} {o : Outcome}
    (h : s.step sslSupport call = some (o, s')) : Effect s call o s' := by
  cases call with
  | setEndpoint newEndpoint newPort =>
    by_cases hs : s.curstate = .disconnected
    · have hsession := setEndpoint_session sslSupport newEndpoint newPort s
      rw [outcome_final h] at hsession
      rw [Impl.eq_of_session hsession]
      exact .setEndpoint s'.hostname s'.port s'.socket s'.ssl hs (setEndpoint_outcome hs h)
    · have hrun : setEndpoint sslSupport newEndpoint newPort s = .error .alreadyConnected s := by
        rw [setEndpoint, setEndpointWith, get_bind, if_pos hs]
        rfl
      rw [Impl.step, hrun] at h
      cases h
      exact .endpointRefused hs
  | connect =>
    by_cases hs : s.curstate = .disconnected
    · have hne : State.connecting ≠ .changed := by decide
      have hcur : ¬({ s with attempts := s.attempts + 1 } : Impl).curstate = .connecting := by
        simp [hs]
      rw [Impl.step, connect_eq hs, bind_ok (emitStateChange_eq _ hne), if_neg hcur] at h
      cases h
      exact .connect hs
    · rw [Impl.step, connect_refused hs] at h
      cases h
      exact .connectRefused hs
  | disconnect =>
    by_cases hs : s.curstate = .disconnecting ∨ s.curstate = .disconnected
    · rw [Impl.step, disconnect_idle hs] at h
      cases h
      exact .ignored hs
    · have hne : State.disconnecting ≠ .changed := by decide
      have hcur : s.curstate ≠ .disconnecting := fun hc => hs (.inl hc)
      rw [Impl.step, disconnect_eq hs, doDisconnect, bind_ok (emitStateChange_eq s hne),
        if_neg hcur] at h
      exact .disconnect hs
        (outcome_eq_of (doUnscheduledDisconnect_teardown (by simp [Impl.enter])) h)
  | sendRaw data =>
    obtain ⟨hsock, rfl, rfl⟩ := runBuffers_outcome h
    exact .sendRaw hsock
  | deliver i completion =>
    obtain ⟨x, hx, h⟩ := Option.bind_eq_some_iff.mp h
    obtain ⟨code, hcode, h⟩ := Option.bind_eq_some_iff.mp h
    refine .deliver hx (by rw [hcode]; rfl) ?_
    by_cases hs : (s.without i).curstate = x.operation.expects
    · exact complete_active hcode hs h
    · rw [complete_idle hcode hs] at h
      cases h
      exact .idle hs

end Slirc.Connection
