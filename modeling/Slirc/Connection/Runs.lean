import Slirc.Connection.Impl
import Slirc.Lib.Machine

/-!
# Runs of a connection

Calls of the public functions and deliveries of completion handlers, in any order. An operation
completes once, at any time after it was started, with anything it can report. `network::service()`
gives a service whenever it is asked for one.

* `machine`: the runs. Undefined behaviour ends a run: its last call is not defined.
* `Operation.expects`: the state that a handler tests. `handler_active`, `complete_idle`: what it
  does in this state, and in another.
-/

namespace Slirc.Connection

/-- How a call or a handler ends. -/
inductive Outcome where
  | returned
  | threw (x : Fault)
  deriving DecidableEq, Repr

inductive Call where
  | setEndpoint (newEndpoint : List Char) (newPort : UInt32)
  | connect
  | disconnect
  | sendRaw (data : List Char)
  /-- The handler of the `i`th operation that has not completed. -/
  | deliver (i : Nat) (completion : Completion)
  deriving DecidableEq, Repr

/-- The call takes the mutex of the connection; `do_send_raw` does not. -/
def Call.locks : Call → Bool
  | .sendRaw _ => false
  | .setEndpoint _ _ | .connect | .disconnect | .deliver _ _ => true

/-- The end of a program, unless it is undefined. -/
def outcome : EStateM.Result Fault Impl Unit → Option (Outcome × Impl)
  | .ok () s => some (.returned, s)
  | .error .undefined _ => none
  | .error x s => some (.threw x, s)

theorem outcome_final {r : EStateM.Result Fault Impl Unit} {o : Outcome} {s : Impl}
    (h : outcome r = some (o, s)) : Program.final r = s := by
  unfold outcome at h
  split at h <;> cases h <;> rfl

/-- Only a program that returns has this outcome. -/
theorem outcome_returned {r : EStateM.Result Fault Impl Unit} {s : Impl} :
    outcome r = some (.returned, s) ↔ r = .ok () s := by
  constructor
  · intro h
    unfold outcome at h
    split at h <;> cases h
    rfl
  · rintro rfl
    rfl

namespace Impl

/-- The operation has completed, and nothing else has happened. -/
@[simps]
def without (s : Impl) (i : Nat) : Impl := { s with operations := s.operations.eraseIdx i }

/-- The operation completes, and its handler runs. -/
def deliver (s : Impl) (i : Nat) (completion : Completion) : Option (Outcome × Impl) :=
  s.operations[i]?.bind fun x =>
    (x.operation.complete completion).bind fun handler => outcome (handler (s.without i))

def step (sslSupport : Bool) (s : Impl) : Call → Option (Outcome × Impl)
  | .setEndpoint newEndpoint newPort => outcome (setEndpoint sslSupport newEndpoint newPort s)
  | .connect => outcome (Connection.connect s)
  | .disconnect => outcome (Connection.disconnect s)
  | .sendRaw data => outcome (Connection.sendRaw data s)
  | .deliver i completion => s.deliver i completion

end Impl

def machine (sslSupport : Bool) : Machine Impl Call Outcome := ⟨Impl.step sslSupport⟩

/-- A delivery runs the handler of the operation, which has completed. -/
theorem deliver_eq (sslSupport : Bool) {s : Impl} {i : Nat} {completion : Completion} {x : Started}
    {code : Code Unit} (hx : s.operations[i]? = some x)
    (hcode : x.operation.complete completion = some code) :
    s.step sslSupport (.deliver i completion) = outcome (code (s.without i)) := by
  rw [Impl.step, Impl.deliver, hx, Option.bind_some, hcode, Option.bind_some]

/-- The state that the handler of an operation tests. -/
def Operation.expects : Operation → State
  | .resolve _ _ | .connect _ | .handshake => .connecting
  | .read | .write _ => .connected

/-- A write that transferred nothing, of a connection that has nothing to send. -/
def Operation.Vacuous (b : Buffers) : Operation → Completion → Prop
  | .write _, .transferred num => num = 0 ∧ b.Unused
  | _, _ => False

/-! ## Handlers -/

section Handlers

open Program

/-- A handler that passes its test. -/
theorem handler_active {α : Type} {expected : State} {onError : ErrorCode → Code Unit}
    {onResult : α → Code Unit} {s : Impl} (hs : s.curstate = expected)
    (result : Except ErrorCode α) :
    handler expected onError onResult result s =
      match result with
      | .error error => onError error s
      | .ok a => onResult a s := by
  unfold handler
  rw [get_bind, if_pos hs]
  cases result <;> rfl

/-- A handler that does not pass its test. -/
theorem handler_idle {α : Type} {expected : State} {onError : ErrorCode → Code Unit}
    {onResult : α → Code Unit} {s : Impl} (hs : s.curstate ≠ expected)
    (result : Except ErrorCode α) : handler expected onError onResult result s = .ok () s := by
  unfold handler
  rw [get_bind, if_neg hs]
  rfl

theorem sendCallback_ok {s : Impl} (hs : s.curstate = .connected) (num : Nat) :
    sendCallback (.ok num) s = runBuffers (fun b => b.advance num) s :=
  handler_active hs (.ok num)

/-- A handler does nothing in a state that it does not test for. -/
theorem complete_idle {operation : Operation} {completion : Completion} {code : Code Unit}
    (h : operation.complete completion = some code) {s : Impl}
    (hs : s.curstate ≠ operation.expects) : code s = .ok () s := by
  unfold Operation.complete at h
  split at h
  case h_8 =>
    split at h <;> cases h
    exact handler_idle hs _
  case h_10 =>
    split at h <;> cases h
    exact handler_idle hs _
  case h_11 => cases h
  all_goals
    cases h
    exact handler_idle hs _

end Handlers

end Slirc.Connection
