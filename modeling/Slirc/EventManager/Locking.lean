import Slirc.EventManager.Threads

/-!
# The main queue with its mutexes

`Threads` takes each section for one step. Here the calls are cut where they lock and unlock: a call
is at a point of its code, and goes on by `run` as far as the next lock, the next consumer of the
loop in `try_unqueue`, or the condition variable.

* `queue_mutex` is `Shared.owner`; the mutex of `returning_wait_event_consumer_data` is
  `WaitCall.mutex`. A call that wants a mutex stays where it is until the mutex is free.
* A waiter makes its consumer known while it holds its own mutex, and then gives this mutex up only
  in `condvar.wait`, which may also wake up without a notification (`spurious`) or because of the
  timeout (`expire`).
* A user (`queue`, the flush in `handle`, `wait_event(callback)`) calls consumers under
  `queue_mutex`; the consumer of a waiter locks the mutex of the waiter as well.
* A callback is taken to return, and not to call `queue`, `handle` or `wait_event` itself: it is an
  answer, given in one step under `queue_mutex` (`UserCall.answers`). A callback that called the
  queue would wait for itself, as this mutex is not recursive.

`WaitCall.run_moves`, `UserCall.run_moves` and `LockedThreads.step_effect`: what a step that is
defined can do.
-/

namespace Slirc

variable {ε : Type}

/-- `queue_mutex`, or the mutex in the data of the `w`th waiter. -/
inductive Mutex where
  | queue
  | data (w : Nat)
  deriving DecidableEq, Repr

/-- A thread: in the `w`th returning `wait_event`, or in the `n`th of the other calls. -/
inductive Caller where
  | waiter (w : Nat)
  | user (n : Nat)
  deriving DecidableEq, Repr

/-- Where a returning `wait_event` is. -/
inductive WaitPoint (ε : Type) where
  | lockQueue
  /-- In the first section under `queue_mutex`. -/
  | tryFront
  /-- The data is made. -/
  | lockData
  /-- With its own mutex. -/
  | lockQueueAgain
  /-- In the second section, with both. -/
  | register
  /-- In `condvar.wait`, with its own mutex: the predicate comes next. -/
  | testing
  /-- In `condvar.wait`, without the mutex. -/
  | asleep
  /-- It has left the sleep, and wants its mutex again. -/
  | woken
  /-- As `woken`, because the time is over. -/
  | late
  /-- Behind `condvar.wait`, with its own mutex. -/
  | leaving
  /-- It returns out of the second section, with its own mutex. -/
  | early
  /-- Without mutexes, before the return. -/
  | unlocked
  | returned (result : Option ε)
  deriving DecidableEq, Repr

/-- A call of a returning `wait_event`, with its `returning_wait_event_consumer_data`. -/
structure WaitCall (ε : Type) where
  timed : Bool
  point : WaitPoint ε := .lockQueue
  mutex : Option Caller := none
  awaitsEvent : Bool := false
  /-- `ep`, which `data->event` refers to. -/
  event : Option ε := none
  /-- Every event that was ever given to the call. -/
  received : List ε := []
  deriving DecidableEq, Repr

/-- The weak pointer to the data can be locked. -/
def WaitCall.alive (x : WaitCall ε) : Bool :=
  match x.point with
  | .lockQueue | .tryFront | .returned _ => false
  | _ => true

/-- The waiter gets an event. -/
def WaitCall.give (x : WaitCall ε) (e : ε) : WaitCall ε :=
  { x with event := some e, received := x.received ++ [e] }

/-- `condvar.notify_all()` -/
def WaitPoint.notifyAll : WaitPoint ε → WaitPoint ε
  | .asleep => .woken
  | p => p

/-- What `queue_mutex` protects, its owner, the calls of callbacks with their answers, and all
events that were put on the queue so far. -/
structure Shared (ε : Type) where
  main : MainQueue ε Consumer := {}
  owner : Option Caller := none
  callbacks : Nat := 0
  log : List (Nat × ε × Bool) := []
  put : List ε := []

def Shared.lock (q : Shared ε) (t : Caller) : Option (Shared ε) :=
  if q.owner = none then some { q with owner := some t } else none

def WaitCall.lock (x : WaitCall ε) (t : Caller) : Option (WaitCall ε) :=
  if x.mutex = none then some { x with mutex := some t } else none

/-- The `w`th waiter goes on. -/
def WaitCall.run (w : Nat) (q : Shared ε) (x : WaitCall ε) : Option (Shared ε × WaitCall ε) :=
  match x.point with
  | .lockQueue => (q.lock (.waiter w)).map fun q => (q, { x with point := .tryFront })
  | .tryFront =>
    match q.main.popFront with
    | some (e, main) => some ({ q with main, owner := none }, { x.give e with point := .unlocked })
    | none =>
      -- `prepare_returning_wait_event_data`
      some ({ q with owner := none }, { x with point := .lockData, awaitsEvent := true })
  | .lockData => (x.lock (.waiter w)).map fun x => (q, { x with point := .lockQueueAgain })
  | .lockQueueAgain => (q.lock (.waiter w)).map fun q => (q, { x with point := .register })
  | .register =>
    match q.main.popFront with
    | some (e, main) => some ({ q with main, owner := none }, { x.give e with point := .early })
    | none =>
      some ({ q with main := q.main.register (.returning w), owner := none },
        { x with point := .testing })
  | .testing =>
    if x.awaitsEvent then some (q, { x with mutex := none, point := .asleep })
    else some (q, { x with point := .leaving })
  | .woken => (x.lock (.waiter w)).map fun x => (q, { x with point := .testing })
  | .late => (x.lock (.waiter w)).map fun x => (q, { x with point := .leaving })
  | .leaving =>
    some (q, { x with
      awaitsEvent := if x.timed then false else x.awaitsEvent, mutex := none, point := .unlocked })
  | .early => some (q, { x with mutex := none, point := .unlocked })
  | .unlocked => some (q, { x with point := .returned x.event })
  | .asleep | .returned _ => none

/-- A call that offers events to consumers. -/
inductive Task (ε : Type) where
  | queue (e : ε)
  /-- The last section of `handle`. -/
  | flush (events : List ε)
  /-- `wait_event(callback)` -/
  | waitCallback
  deriving DecidableEq, Repr

/-- Where such a call is. -/
inductive UserPoint (ε : Type) where
  | lockQueue
  /-- In the section. -/
  | body
  /-- At the head of the loop in `try_unqueue`. -/
  | loop
  /-- In the consumer of a waiter, which has locked its weak pointer and wants its mutex. -/
  | lockData (w : Nat) (e : ε)
  /-- In the consumer, with the mutex of the waiter. -/
  | consumer (w : Nat) (e : ε)
  | returned
  deriving DecidableEq, Repr

/-- A call of `queue`, `wait_event(callback)`, or of the last section of `handle`, and what the
callbacks answer that it calls. -/
structure UserCall (ε : Type) where
  task : Task ε
  answers : Nat → ε → Bool
  point : UserPoint ε := .lockQueue

/-- A callback is called with the front, which leaves the deque if it is taken. The callback does
not call the queue. -/
def Shared.callback (q : Shared ε) (answers : Nat → ε → Bool) (n : Nat) (e : ε) : Shared ε :=
  { q with
    main := if answers n e then { q.main with queue := q.main.queue.tail } else q.main
    log := q.log ++ [(n, e, answers n e)] }

/-- `queue_consumer_index++` -/
def Shared.next (q : Shared ε) : Shared ε :=
  { q with main := { q.main with queueConsumerIndex := q.main.queueConsumerIndex + 1 } }

/-- The events that a call puts on the queue. -/
def Task.events : Task ε → List ε
  | .queue e => [e]
  | .flush events => events
  | .waitCallback => []

/-- What `queue` and the flush do before the loop: at the back, or through a front inserter. -/
def Task.enqueue (task : Task ε) (m : MainQueue ε Consumer) : MainQueue ε Consumer :=
  match task with
  | .queue e => { m with queue := m.queue ++ [e] }
  | .flush events => { m with queue := events.reverse.foldl (fun q e => e :: q) m.queue }
  | .waitCallback => m

def Shared.enqueue (q : Shared ε) (task : Task ε) : Shared ε :=
  { q with main := task.enqueue q.main, put := q.put ++ task.events }

/-- The weak pointer of the consumer of the `w`th waiter can be locked. -/
def reachable (ws : List (WaitCall ε)) (w : Nat) : Bool :=
  match ws[w]? with
  | some x => x.alive
  | none => false

/-- The `n`th of the other calls goes on: what it does to the queue and the waiters, and where it is
then. -/
def UserCall.run (n : Nat) (q : Shared ε) (ws : List (WaitCall ε)) (c : UserCall ε) :
    Option (Shared ε × List (WaitCall ε) × UserPoint ε) :=
  match c.point with
  | .lockQueue => (q.lock (.user n)).map fun q => (q, ws, .body)
  | .body =>
    match c.task, q.main.queue with
    | .waitCallback, [] =>
      some ({ q with
        main := q.main.register (.callback q.callbacks), callbacks := q.callbacks + 1
        owner := none }, ws, .returned)
    | .waitCallback, e :: _ =>
      some ({ q.callback c.answers q.callbacks e with
        callbacks := q.callbacks + 1, owner := none }, ws, .returned)
    | task, _ => some (q.enqueue task, ws, .loop)
  | .loop =>
    match q.main.queue, q.main.queueConsumers[q.main.queueConsumerIndex]? with
    | e :: _, some (.callback m) =>
      some (q.next.callback c.answers m e, ws, .loop)
    | e :: _, some (.returning w) =>
      some (q.next, ws, if reachable ws w then .lockData w e else .loop)
    | _, _ => some ({ q with main := q.main.dropCalled, owner := none }, ws, .returned)
  | .lockData w e =>
    ws[w]?.bind fun x => (x.lock (.user n)).map fun x => (q, ws.set w x, .consumer w e)
  | .consumer w e =>
    ws[w]?.map fun x =>
      if x.awaitsEvent then
        ({ q with main := { q.main with queue := q.main.queue.tail } },
          ws.set w { x.give e with
            awaitsEvent := false, mutex := none, point := x.point.notifyAll }, .loop)
      else (q, ws.set w { x with mutex := none }, .loop)
  | .returned => none

/-- The queue and all calls so far. -/
structure LockedThreads (ε : Type) where
  shared : Shared ε := {}
  waiters : List (WaitCall ε) := []
  users : List (UserCall ε) := []

/-- A step of a thread, of the condition variable of a waiter, or the begin of a call. -/
inductive LockStep (ε : Type) where
  | waitEvent (timed : Bool)
  | call (task : Task ε) (answers : Nat → ε → Bool)
  | run (t : Caller)
  /-- A sleep ends without a notification. -/
  | spurious (w : Nat)
  /-- The time of a waiter is over. -/
  | expire (w : Nat)

/-- The waiter `w` becomes `x`. -/
def LockedThreads.setWaiter (s : LockedThreads ε) (w : Nat) (x : WaitCall ε) : LockedThreads ε :=
  { s with waiters := s.waiters.set w x }

def LockedThreads.step (s : LockedThreads ε) : LockStep ε → Option (LockedThreads ε)
  | .waitEvent timed => some { s with waiters := s.waiters ++ [{ timed }] }
  | .call task answers => some { s with users := s.users ++ [{ task, answers }] }
  | .run (.waiter w) =>
    s.waiters[w]?.bind fun x => (x.run w s.shared).map fun r =>
      { s with shared := r.1, waiters := s.waiters.set w r.2 }
  | .run (.user n) =>
    s.users[n]?.bind fun c => (c.run n s.shared s.waiters).map fun r =>
      { shared := r.1, waiters := r.2.1, users := s.users.set n { c with point := r.2.2 } }
  | .spurious w =>
    s.waiters[w]?.bind fun x =>
      match x.point with
      | .asleep => some (s.setWaiter w { x with point := .woken })
      | _ => none
  | .expire w =>
    s.waiters[w]?.bind fun x =>
      match x.point, x.timed with
      | .asleep, true => some (s.setWaiter w { x with point := .late })
      | _, _ => none

/-- The steps of the threads, as a machine without answers. -/
def LockedThreads.machine : Machine (LockedThreads ε) (LockStep ε) Unit :=
  ⟨fun s a => (s.step a).map fun s' => ((), s')⟩

/-! ## What a step can do -/

theorem Shared.lock_eq_some {q q' : Shared ε} {t : Caller} (h : q.lock t = some q') :
    q.owner = none ∧ q' = { q with owner := some t } := by
  unfold Shared.lock at h
  split at h
  · rename_i hfree
    cases h
    exact ⟨hfree, rfl⟩
  · cases h

theorem WaitCall.lock_eq_some {x x' : WaitCall ε} {t : Caller} (h : x.lock t = some x') :
    x.mutex = none ∧ x' = { x with mutex := some t } := by
  unfold WaitCall.lock at h
  split at h
  · rename_i hfree
    cases h
    exact ⟨hfree, rfl⟩
  · cases h

/-- What `WaitCall.run` can do. -/
inductive WaitCall.Moves (w : Nat) (q : Shared ε) (x : WaitCall ε) :
    Shared ε → WaitCall ε → Prop where
  | lockQueue : x.point = .lockQueue → q.owner = none →
    Moves w q x { q with owner := some (.waiter w) } { x with point := .tryFront }
  | front {e : ε} {main : MainQueue ε Consumer} : x.point = .tryFront →
    q.main.popFront = some (e, main) →
    Moves w q x { q with main, owner := none } { x.give e with point := .unlocked }
  | noFront : x.point = .tryFront → q.main.popFront = none →
    Moves w q x { q with owner := none } { x with point := .lockData, awaitsEvent := true }
  | lockData : x.point = .lockData → x.mutex = none →
    Moves w q x q { x with mutex := some (.waiter w), point := .lockQueueAgain }
  | lockQueueAgain : x.point = .lockQueueAgain → q.owner = none →
    Moves w q x { q with owner := some (.waiter w) } { x with point := .register }
  | frontAgain {e : ε} {main : MainQueue ε Consumer} : x.point = .register →
    q.main.popFront = some (e, main) →
    Moves w q x { q with main, owner := none } { x.give e with point := .early }
  | register : x.point = .register → q.main.popFront = none →
    Moves w q x { q with main := q.main.register (.returning w), owner := none }
      { x with point := .testing }
  | sleep : x.point = .testing → x.awaitsEvent = true →
    Moves w q x q { x with mutex := none, point := .asleep }
  | stop : x.point = .testing → x.awaitsEvent = false →
    Moves w q x q { x with point := .leaving }
  | woken : x.point = .woken → x.mutex = none →
    Moves w q x q { x with mutex := some (.waiter w), point := .testing }
  | late : x.point = .late → x.mutex = none →
    Moves w q x q { x with mutex := some (.waiter w), point := .leaving }
  | leave : x.point = .leaving →
    Moves w q x q { x with
      awaitsEvent := if x.timed then false else x.awaitsEvent, mutex := none, point := .unlocked }
  | early : x.point = .early → Moves w q x q { x with mutex := none, point := .unlocked }
  | ret : x.point = .unlocked → Moves w q x q { x with point := .returned x.event }

theorem WaitCall.run_moves {w : Nat} {q q' : Shared ε} {x y : WaitCall ε}
    (h : x.run w q = some (q', y)) : x.Moves w q q' y := by
  unfold WaitCall.run at h
  split at h
  case h_1 hp =>
    obtain ⟨q₁, hlock, he⟩ := Option.map_eq_some_iff.mp h
    obtain ⟨hfree, rfl⟩ := Shared.lock_eq_some hlock
    cases he
    exact .lockQueue hp hfree
  case h_2 hp =>
    split at h
    · rename_i e main hpop
      cases h
      exact .front hp hpop
    · rename_i hpop
      cases h
      exact .noFront hp hpop
  case h_3 hp =>
    obtain ⟨x₁, hlock, he⟩ := Option.map_eq_some_iff.mp h
    obtain ⟨hfree, rfl⟩ := WaitCall.lock_eq_some hlock
    cases he
    exact .lockData hp hfree
  case h_4 hp =>
    obtain ⟨q₁, hlock, he⟩ := Option.map_eq_some_iff.mp h
    obtain ⟨hfree, rfl⟩ := Shared.lock_eq_some hlock
    cases he
    exact .lockQueueAgain hp hfree
  case h_5 hp =>
    split at h
    · rename_i e main hpop
      cases h
      exact .frontAgain hp hpop
    · rename_i hpop
      cases h
      exact .register hp hpop
  case h_6 hp =>
    split at h
    · rename_i hawaits
      cases h
      exact .sleep hp hawaits
    · rename_i hawaits
      cases h
      exact .stop hp (by simpa using hawaits)
  case h_7 hp =>
    obtain ⟨x₁, hlock, he⟩ := Option.map_eq_some_iff.mp h
    obtain ⟨hfree, rfl⟩ := WaitCall.lock_eq_some hlock
    cases he
    exact .woken hp hfree
  case h_8 hp =>
    obtain ⟨x₁, hlock, he⟩ := Option.map_eq_some_iff.mp h
    obtain ⟨hfree, rfl⟩ := WaitCall.lock_eq_some hlock
    cases he
    exact .late hp hfree
  case h_9 hp =>
    cases h
    exact .leave hp
  case h_10 hp =>
    cases h
    exact .early hp
  case h_11 hp =>
    cases h
    exact .ret hp
  case h_12 => cases h
  case h_13 => cases h

/-- What `UserCall.run` can do. -/
inductive UserCall.Moves (n : Nat) (q : Shared ε) (ws : List (WaitCall ε)) (c : UserCall ε) :
    Shared ε → List (WaitCall ε) → UserPoint ε → Prop where
  | lockQueue : c.point = .lockQueue → q.owner = none →
    Moves n q ws c { q with owner := some (.user n) } ws .body
  | registerCallback : c.point = .body → c.task = .waitCallback → q.main.queue = [] →
    Moves n q ws c { q with
      main := q.main.register (.callback q.callbacks), callbacks := q.callbacks + 1
      owner := none } ws .returned
  | callCallback {e : ε} {rest : List ε} : c.point = .body → c.task = .waitCallback →
    q.main.queue = e :: rest →
    Moves n q ws c { q.callback c.answers q.callbacks e with
      callbacks := q.callbacks + 1, owner := none } ws .returned
  | enqueue : c.point = .body → c.task ≠ .waitCallback →
    Moves n q ws c (q.enqueue c.task) ws .loop
  | callback {e : ε} {rest : List ε} {m : Nat} : c.point = .loop → q.main.queue = e :: rest →
    q.main.queueConsumers[q.main.queueConsumerIndex]? = some (.callback m) →
    Moves n q ws c (q.next.callback c.answers m e) ws .loop
  | returning {e : ε} {rest : List ε} {w : Nat} : c.point = .loop → q.main.queue = e :: rest →
    q.main.queueConsumers[q.main.queueConsumerIndex]? = some (.returning w) →
    Moves n q ws c q.next ws (if reachable ws w then .lockData w e else .loop)
  | finish : c.point = .loop → (q.main.queue = [] ∨
      q.main.queueConsumers[q.main.queueConsumerIndex]? = none) →
    Moves n q ws c { q with main := q.main.dropCalled, owner := none } ws .returned
  | lockData {w : Nat} {e : ε} {x : WaitCall ε} : c.point = .lockData w e → ws[w]? = some x →
    x.mutex = none →
    Moves n q ws c q (ws.set w { x with mutex := some (.user n) }) (.consumer w e)
  | take {w : Nat} {e : ε} {x : WaitCall ε} : c.point = .consumer w e → ws[w]? = some x →
    x.awaitsEvent = true →
    Moves n q ws c { q with main := { q.main with queue := q.main.queue.tail } }
      (ws.set w { x.give e with
        awaitsEvent := false, mutex := none, point := x.point.notifyAll }) .loop
  | reject {w : Nat} {e : ε} {x : WaitCall ε} : c.point = .consumer w e → ws[w]? = some x →
    x.awaitsEvent = false → Moves n q ws c q (ws.set w { x with mutex := none }) .loop

theorem UserCall.run_moves {n : Nat} {q q' : Shared ε} {ws ws' : List (WaitCall ε)}
    {c : UserCall ε} {p : UserPoint ε} (h : c.run n q ws = some (q', ws', p)) :
    c.Moves n q ws q' ws' p := by
  unfold UserCall.run at h
  split at h
  case h_1 hp =>
    obtain ⟨q₁, hlock, he⟩ := Option.map_eq_some_iff.mp h
    obtain ⟨hfree, rfl⟩ := Shared.lock_eq_some hlock
    cases he
    exact .lockQueue hp hfree
  case h_2 hp =>
    split at h
    · rename_i htask hq
      cases h
      exact .registerCallback hp htask hq
    · rename_i e rest htask hq
      cases h
      exact .callCallback hp htask hq
    · rename_i hnil hcons
      cases h
      refine .enqueue hp fun htask => ?_
      cases hq : q.main.queue with
      | nil => exact hnil htask hq
      | cons e rest => exact hcons e rest htask hq
  case h_3 hp =>
    split at h
    · rename_i e rest m hq hk
      cases h
      exact .callback hp hq hk
    · rename_i e rest w hq hk
      cases h
      exact .returning hp hq hk
    · rename_i hcallback hreturning
      cases h
      refine .finish hp ?_
      cases hq : q.main.queue with
      | nil => exact .inl rfl
      | cons e rest =>
        right
        cases hk : q.main.queueConsumers[q.main.queueConsumerIndex]? with
        | none => rfl
        | some k =>
          cases k with
          | callback m => exact absurd hk (hcallback e rest m hq)
          | returning w => exact absurd hk (hreturning e rest w hq)
  case h_4 w e hp =>
    obtain ⟨x, hx, h⟩ := Option.bind_eq_some_iff.mp h
    obtain ⟨x₁, hlock, he⟩ := Option.map_eq_some_iff.mp h
    obtain ⟨hfree, rfl⟩ := WaitCall.lock_eq_some hlock
    cases he
    exact .lockData hp hx hfree
  case h_5 w e hp =>
    obtain ⟨x, hx, he⟩ := Option.map_eq_some_iff.mp h
    split at he
    · rename_i hawaits
      cases he
      exact .take hp hx hawaits
    · rename_i hawaits
      cases he
      exact .reject hp hx (by simpa using hawaits)
  case h_6 => cases h

/-- What a step can do. -/
inductive LockedThreads.Effect (s : LockedThreads ε) : LockStep ε → LockedThreads ε → Prop where
  | waitEvent {timed : Bool} :
    Effect s (.waitEvent timed) { s with waiters := s.waiters ++ [{ timed }] }
  | call {task : Task ε} {answers : Nat → ε → Bool} :
    Effect s (.call task answers) { s with users := s.users ++ [{ task, answers }] }
  | waiter {w : Nat} {x y : WaitCall ε} {q : Shared ε} : s.waiters[w]? = some x →
    x.Moves w s.shared q y →
    Effect s (.run (.waiter w)) { s with shared := q, waiters := s.waiters.set w y }
  | user {n : Nat} {c : UserCall ε} {q : Shared ε} {ws : List (WaitCall ε)} {p : UserPoint ε} :
    s.users[n]? = some c → c.Moves n s.shared s.waiters q ws p →
    Effect s (.run (.user n))
      { shared := q, waiters := ws, users := s.users.set n { c with point := p } }
  | spurious {w : Nat} {x : WaitCall ε} : s.waiters[w]? = some x → x.point = .asleep →
    Effect s (.spurious w) (s.setWaiter w { x with point := .woken })
  | expire {w : Nat} {x : WaitCall ε} : s.waiters[w]? = some x → x.point = .asleep →
    x.timed = true → Effect s (.expire w) (s.setWaiter w { x with point := .late })

/-- **Every step that is defined is one of these.** -/
theorem LockedThreads.step_effect {s s' : LockedThreads ε} {a : LockStep ε}
    (h : s.step a = some s') : s.Effect a s' := by
  cases a with
  | waitEvent =>
    cases h
    exact .waitEvent
  | call =>
    cases h
    exact .call
  | run t =>
    cases t with
    | waiter w =>
      obtain ⟨x, hx, h⟩ := Option.bind_eq_some_iff.mp h
      obtain ⟨r, hr, he⟩ := Option.map_eq_some_iff.mp h
      cases he
      exact .waiter hx (WaitCall.run_moves hr)
    | user n =>
      obtain ⟨c, hc, h⟩ := Option.bind_eq_some_iff.mp h
      obtain ⟨r, hr, he⟩ := Option.map_eq_some_iff.mp h
      cases he
      exact .user hc (UserCall.run_moves hr)
  | spurious w =>
    obtain ⟨x, hx, h⟩ := Option.bind_eq_some_iff.mp h
    split at h <;> cases h
    exact .spurious hx ‹_›
  | expire w =>
    obtain ⟨x, hx, h⟩ := Option.bind_eq_some_iff.mp h
    split at h <;> cases h
    exact .expire hx ‹_› ‹_›

end Slirc
