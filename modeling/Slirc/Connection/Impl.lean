import Mathlib.Tactic.Simps.Basic
import Slirc.Connection.Buffers
import Slirc.Connection.Endpoint
import Slirc.Connection.Recv
import Slirc.Event.Queue
import Slirc.Lib.Program

/-!
# The connection (`impl` in `src/modules/connection.cpp`)

The public functions and the completion handlers of a connection. Each runs under the mutex, so it
is one program on the state (`Code`); it can return, throw, or be undefined.

* `Impl`: the fields of the struct; the events it put on the main queue; the operations it started
  and that have not completed.
* `setEndpoint`, `connect`, `disconnect`, `sendRaw`: the public functions. `network::service()`,
  which `set_endpoint` and `connect` ask for a service, is taken to give one; `setEndpointWith` says
  what happens where it throws.
* `Operation.complete`: the completion handlers, each `handler` applied to the state it tests and to
  what it does on an error and on a result.

A socket is open from the first `async_connect` on until it is closed. `shutdown` and `close` are
called with an error code, which is ignored; `cancel` throws if the socket is not open. Assertions
are off. What an operation reports, and when, is up to its completion.
-/

namespace Slirc.Connection

/-- The event id of a state. -/
def State.id : State → IdType
  | .disconnected => .ofEnum .connectionState 0
  | .connecting => .ofEnum .connectionState 1
  | .connected => .ofEnum .connectionState 2
  | .disconnecting => .ofEnum .connectionState 3
  | .changed => .ofEnum .connectionState 4

/-- `apis::connection::received_line` -/
def receivedLine : IdType := .ofEnum .connectionEvents 0

/-- `modules::connection::events::error` -/
def errorId : IdType := .ofEnum .connectionErrors 0

/-- `boost::system::error_code`, with its message. -/
structure ErrorCode where
  value : Int
  message : String
  deriving DecidableEq, Repr

/-- An event on the main queue, with its `error_info` or its `received_data`. -/
structure Event where
  originalId : IdType
  idQueue : IdQueue
  errorInfo : Option (String × ErrorCode) := none
  receivedData : Option (List Char) := none
  deriving DecidableEq, Repr

/-- What a resolver iterator points to. -/
structure Resolved where
  address : List Char
  port : Nat
  deriving DecidableEq, Repr

/-- The socket, or the lowest layer of the SSL stream. -/
structure Socket where
  isOpen : Bool := false
  deriving DecidableEq, Repr

/-- The asynchronous operations. -/
inductive Operation where
  | resolve (hostname service : List Char)
  | connect (endpoint : Resolved)
  | handshake
  | read
  | write (request : WriteRequest)
  deriving DecidableEq, Repr

/-- What an operation reports when it completes. -/
inductive Completion where
  | failed (error : ErrorCode)
  | resolved (iterator : List Resolved)
  /-- A connect or a handshake. -/
  | succeeded
  | received (bytes : List Char)
  | transferred (num : Nat)
  deriving DecidableEq, Repr

/-- An operation that has not completed, with the connection attempt it was started in. -/
structure Started where
  attempt : Option Nat
  operation : Operation
  deriving DecidableEq, Repr

/-- `impl`. The last three fields are not fields of the struct: the events it put on the main queue,
the operations that have not completed, and the number of successful calls of `connect`. -/
structure Impl where
  hostname : List Char := ['0', '.', '0', '.', '0', '.', '0']
  port : UInt32 := defaultPortNonssl
  curstate : State := .disconnected
  resolver : Bool := false
  resolveIterator : List Resolved := []
  socket : Option Socket := none
  ssl : Option Socket := none
  buffers : Buffers := {}
  emitted : List Event := []
  operations : List Started := []
  attempts : Nat := 0
  deriving DecidableEq, Repr

/-- Code that runs under the mutex. -/
abbrev Code := EStateM Fault Impl

/-- The size of the raw receive buffer. -/
def rawBufferSize : Nat := 640

namespace Impl

/-- The attempt that goes on: it begins with a successful `connect`, and ends when the state becomes
disconnected. -/
def attempt (s : Impl) : Option Nat := if s.curstate = .disconnected then none else some s.attempts

/-- The number of attempts, and of events and operations. -/
def progress (s : Impl) : Nat × Nat := (s.attempts, s.emitted.length + s.operations.length)

end Impl

/-! ## Events and operations -/

def queue (e : Event) : Code Unit := modify fun s => { s with emitted := s.emitted ++ [e] }

def start (operation : Operation) : Code Unit :=
  modify fun s => { s with operations := s.operations ++ [⟨s.attempt, operation⟩] }

/-- `make_event`, for a valid id. -/
def makeEvent (id : IdType) : Code Event :=
  match IdQueue.make id with
  | .ok idQueue => pure { originalId := id, idQueue }
  | .error x => throw x

/-- `e->queue_as(id, at_front)` -/
def queueAsFront (e : Event) (id : IdType) : Code Event :=
  match e.idQueue.queueAs id .discard .atFront 0 with
  | some (_, idQueue) => pure { e with idQueue }
  | none => throw .undefined

def emitError (errorMessage : String) (errorCode : ErrorCode) : Code Unit := do
  let e ← makeEvent errorId
  queue { e with errorInfo := some (errorMessage, errorCode) }

def emitLine (line : List Char) : Code Unit := do
  let e ← makeEvent receivedLine
  queue { e with receivedData := some line }

def emitStateChange (newstate : State) : Code Unit := do
  if (← get).curstate ≠ newstate then
    let e ← makeEvent newstate.id
    let e ← queueAsFront e State.changed.id
    modify fun s => { s with curstate := newstate }
    queue e

/-- The event of a state change: it is handled as `changed` first. -/
def stateEvent (newstate : State) : Event where
  originalId := newstate.id
  idQueue := { queuedIds := [State.changed.id, newstate.id], nextIdIndex := 0 }

/-- The connection enters a state. -/
@[simps]
def Impl.enter (s : Impl) (newstate : State) : Impl :=
  { s with curstate := newstate, emitted := s.emitted ++ [stateEvent newstate] }

theorem emitStateChange_eq (s : Impl) {newstate : State} (h : newstate ≠ .changed) :
    emitStateChange newstate s =
      .ok () (if s.curstate = newstate then s else s.enter newstate) := by
  rw [emitStateChange, Program.get_bind]
  by_cases hc : s.curstate = newstate
  · rw [if_neg (not_not.mpr hc), if_pos hc]
    rfl
  · rw [if_pos hc, if_neg hc]
    cases newstate with
    | changed => exact absurd rfl h
    | _ => rfl

/-! ## The transport -/

/-- The two members that can hold a socket. -/
inductive Transport where
  | socket | ssl
  deriving DecidableEq, Repr

/-- `get_socket` -/
def getSocket : Code Transport := do
  let s ← get
  if s.socket.isSome then pure .socket
  else if s.ssl.isSome then pure .ssl
  else
    throw (.logicError ("slirc::module::connection - socket is requested, " ++
      "but neither ssl nor non-ssl is initialized"))

def Impl.isOpen (s : Impl) : Transport → Bool
  | .socket => s.socket.any (·.isOpen)
  | .ssl => s.ssl.any (·.isOpen)

def Impl.setOpen (s : Impl) (sock : Transport) (isOpen : Bool) : Impl :=
  match sock with
  | .socket => { s with socket := s.socket.map fun _ => { isOpen } }
  | .ssl => { s with ssl := s.ssl.map fun _ => { isOpen } }

/-- `sock.cancel()` -/
def cancel (sock : Transport) : Code Unit := do
  if (← get).isOpen sock = false then throw (.systemError "cancel: Bad file descriptor")

/-- An `async_read_some` or `async_write_some` on `ssl`, if it is there, and on `socket` otherwise,
which is not tested. -/
def startTransfer (operation : Operation) : Code Unit := do
  let s ← get
  if s.ssl.isSome ∨ s.socket.isSome then start operation else throw .undefined

/-- An operation on the buffers, and the write it starts. -/
def runBuffers (f : Buffers → Buffers × Option WriteRequest) : Code Unit := do
  let r := f (← get).buffers
  modify fun s => { s with buffers := r.1 }
  match r.2 with
  | some request => startTransfer (.write request)
  | none => pure ()

/-! ## Disconnecting -/

def clearResolver : Code Unit := modify fun s =>
  if s.resolver then { s with resolver := false, resolveIterator := [] } else s

def clearBuffers : Code Unit := modify fun s => { s with buffers := s.buffers.clear }

def doUnscheduledDisconnect : Code Unit := do
  let sock ← getSocket
  cancel sock
  modify fun s => s.setOpen sock false
  clearResolver
  clearBuffers
  emitStateChange .disconnected

/-- The transport that `get_socket` gives. -/
def Impl.transport (s : Impl) : Option Transport :=
  if s.socket.isSome then some .socket else if s.ssl.isSome then some .ssl else none

theorem getSocket_eq {s : Impl} {sock : Transport} (h : s.transport = some sock) :
    getSocket s = .ok sock s := by
  rw [getSocket, Program.get_bind]
  unfold Impl.transport at h
  split at h
  · rename_i hs
    cases h
    rw [if_pos hs]
    rfl
  split at h
  · rename_i hs hssl
    cases h
    rw [if_neg hs, if_pos hssl]
    rfl
  · cases h

def doDisconnect : Code Unit := do
  emitStateChange .disconnecting
  doUnscheduledDisconnect

/-! ## Receiving -/

def recv : Code Unit := do
  let r := recvLoop (← get).buffers.recvBuffer 0
  modify fun s => { s with buffers := { s.buffers with recvBuffer := r.2 } }
  r.1.forM emitLine
  startTransfer .read

/-! ## Connecting -/

def connectSuccess : Code Unit := do
  clearResolver
  clearBuffers
  emitStateChange .connected
  recv

def connectOptSslHandshake : Code Unit := do
  if (← get).ssl.isSome then start .handshake else connectSuccess

def connectTryNext : Code Unit := do
  match (← get).resolveIterator with
  | [] => doUnscheduledDisconnect
  | endpoint :: rest =>
    let sock ← getSocket
    modify fun s => s.setOpen sock true
    start (.connect endpoint)
    modify fun s => { s with resolveIterator := rest }

def connectResolve : Code Unit := do
  modify fun s => { s with resolver := true }
  let s ← get
  start (.resolve s.hostname (Nat.toDigits 10 s.port.toNat))

/-! ## Completion handlers -/

/-- A completion handler does nothing unless the connection is in the state it tests. -/
def handler {α : Type} (expected : State) (onError : ErrorCode → Code Unit)
    (onResult : α → Code Unit) (result : Except ErrorCode α) : Code Unit := do
  if (← get).curstate = expected then
    match result with
    | .error error => onError error
    | .ok a => onResult a

/-- The handler of `connect_resolve`. -/
def resolveHandler : Except ErrorCode (List Resolved) → Code Unit :=
  handler .connecting
    (fun error => do
      emitError ("Name lookup failed: " ++ error.message) error
      doUnscheduledDisconnect)
    (fun iterator => do
      modify fun s => { s with resolveIterator := iterator }
      connectTryNext)

/-- The handler of `connect_try_next`. -/
def connectHandler : Except ErrorCode Unit → Code Unit :=
  handler .connecting
    (fun error => do
      emitError ("Connection failed: " ++ error.message) error
      connectTryNext)
    (fun _ => connectOptSslHandshake)

/-- The handler of `connect_opt_ssl_handshake`. It does not disconnect on an error. -/
def handshakeHandler : Except ErrorCode Unit → Code Unit :=
  handler .connecting
    (fun error => emitError ("SSL handshake failed: " ++ error.message) error)
    (fun _ => connectSuccess)

/-- `recv_handler` -/
def recvHandler : Except ErrorCode (List Char) → Code Unit :=
  handler .connected
    (fun error => do
      emitError ("Connection failed: " ++ error.message) error
      doUnscheduledDisconnect)
    (fun bytes => do
      modify fun s =>
        { s with buffers := { s.buffers with recvBuffer := s.buffers.recvBuffer ++ bytes } }
      recv)

/-- `send_callback` -/
def sendCallback : Except ErrorCode Nat → Code Unit :=
  handler .connected
    (fun error => do
      emitError ("Sending data failed: " ++ error.message) error
      doUnscheduledDisconnect)
    (fun numTransferred => runBuffers fun b => b.advance numTransferred)

/-- The handler of an operation, for what it can report. -/
def Operation.complete : Operation → Completion → Option (Code Unit)
  | .resolve _ _, .failed error => some (resolveHandler (.error error))
  | .resolve _ _, .resolved iterator => some (resolveHandler (.ok iterator))
  | .connect _, .failed error => some (connectHandler (.error error))
  | .connect _, .succeeded => some (connectHandler (.ok ()))
  | .handshake, .failed error => some (handshakeHandler (.error error))
  | .handshake, .succeeded => some (handshakeHandler (.ok ()))
  | .read, .failed error => some (recvHandler (.error error))
  | .read, .received bytes =>
    if bytes.length ≤ rawBufferSize then some (recvHandler (.ok bytes)) else none
  | .write _, .failed error => some (sendCallback (.error error))
  | .write request, .transferred num =>
    if num ≤ request.size then some (sendCallback (.ok num)) else none
  | _, _ => none

/-! ## Public functions -/

def setInvalid : Code Unit := modify fun s =>
  { s with hostname := ['0', '.', '0', '.', '0', '.', '0'], port := 0, ssl := none }

/-- What the calls throw that `set_endpoint` makes: `network::service()`, and the constructor of the
socket or of the SSL stream. -/
structure EmplaceFaults where
  service : Option Fault := none
  construct : Option Fault := none
  deriving DecidableEq, Repr

/-- `emplace(network::service())` on a member. Its old value is destroyed before the new one is
constructed. -/
def emplace (faults : EmplaceFaults) (assign : Option Socket → Impl → Impl) : Code Unit :=
  match faults.service, faults.construct with
  | some x, _ => throw x
  | none, some x => do
    modify (assign none)
    throw x
  | none, none => modify (assign (some {}))

/-- `set_endpoint`, by what it calls. Without SSL support there is no member `ssl`. -/
def setEndpointWith (faults : EmplaceFaults) (sslSupport : Bool) (newEndpoint : List Char)
    (newPort : UInt32) : Code Unit := do
  if (← get).curstate ≠ .disconnected then throw .alreadyConnected
  match Endpoint.parse newEndpoint newPort with
  | none => setInvalid
  | some e =>
    modify fun s => { s with hostname := e.hostname, port := e.port }
    if e.useSsl then
      if sslSupport then
        emplace faults fun ssl s => { s with ssl }
        modify fun s => { s with socket := none }
      else
        throw (.logicError ("Attempting to use SSL in libslirc, " ++
          "but libslirc was built without SSL support."))
    else
      modify fun s => { s with ssl := none }
      emplace faults fun socket s => { s with socket }

/-- `set_endpoint` where what it calls does not throw. -/
def setEndpoint (sslSupport : Bool) (newEndpoint : List Char) (newPort : UInt32) : Code Unit :=
  setEndpointWith {} sslSupport newEndpoint newPort

/-- All that `set_endpoint` does not set. -/
def Impl.session (s : Impl) : Impl :=
  { s with hostname := [], port := 0, socket := none, ssl := none }

theorem setEndpoint_session (sslSupport : Bool) (newEndpoint : List Char) (newPort : UInt32) :
    Program.Frames Impl.session (setEndpoint sslSupport newEndpoint newPort) := by
  intro s
  rw [setEndpoint, setEndpointWith, Program.get_bind]
  split
  · rfl
  split
  · rfl
  · rename_i e _
    cases e.useSsl <;> cases sslSupport <;> rfl

def connect : Code Unit := do
  if (← get).curstate ≠ .disconnected then throw .alreadyConnected
  modify fun s => { s with attempts := s.attempts + 1 }
  emitStateChange .connecting
  connectResolve

theorem connect_refused {s : Impl} (h : s.curstate ≠ .disconnected) :
    connect s = .error .alreadyConnected s := by
  rw [connect, Program.get_bind, if_pos h]
  rfl

theorem connect_eq {s : Impl} (h : s.curstate = .disconnected) :
    connect s = (do emitStateChange .connecting; connectResolve : Code Unit)
      { s with attempts := s.attempts + 1 } := by
  rw [connect, Program.get_bind,
    if_neg (not_not.mpr h)]
  rfl

def disconnect : Code Unit := do
  let s ← get
  if s.curstate = .disconnecting ∨ s.curstate = .disconnected then pure () else doDisconnect

theorem disconnect_idle {s : Impl} (h : s.curstate = .disconnecting ∨ s.curstate = .disconnected) :
    disconnect s = .ok () s := by
  rw [disconnect, Program.get_bind, if_pos h]
  rfl

theorem disconnect_eq {s : Impl} (h : ¬(s.curstate = .disconnecting ∨ s.curstate = .disconnected)) :
    disconnect s = doDisconnect s := by
  rw [disconnect, Program.get_bind, if_neg h]

/-- `do_send_raw` -/
def sendRaw (data : List Char) : Code Unit := runBuffers fun b => b.append data

end Slirc.Connection
