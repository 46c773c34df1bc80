import Slirc.Event.Queue
import Slirc.EventManager.MainQueue
import Slirc.Lib.Program

/-!
# Handling an event (`src/modules/event_manager.cpp`, `src/event.cpp`)

`handle` handles an event as `begin_handling`, as its queued ids, as `finishing_handling` (and as
what was queued meanwhile), as `finished_handling`, and puts its afterwards events on the main
queue. The handlers are a parameter (`signals`): any code on the world that returns or throws.

* `handleAs` sets `current_id` for the time of the handlers.
* `Deed` and `Deed.perform`: what a handler does to the event it handles and to the main queue.
* `drain`, `rounds`, `handle`: the loops, each cut off after a number of passes (`Fault.cutOff`).

The log of the world records the dispatches and the deeds; no code reads it, but handlers that act
differently each time can be written with it.
-/

namespace Slirc

variable {ε κ : Type}

/-- What handling uses of an event. `handleAfterwards` is the component of that name. -/
structure EventObj (ε : Type) where
  idQueue : IdQueue
  currentId : IdType := .invalid
  handleAfterwards : Option (List ε) := none
  deriving DecidableEq, Repr

/-- One record of the log. -/
inductive Entry (ε : Type) where
  /-- The handlers of an id begin, with these ids pending. -/
  | dispatch (e : ε) (id : IdType) (pending : Option (List IdType))
  | queueAs (e : ε) (c : QueueCall)
  | afterwards (e follower : ε)
  | queue (e : ε)
  deriving DecidableEq, Repr

/-- The events, the main queue, and the log. -/
structure World (ε κ : Type) where
  events : ε → EventObj ε
  main : MainQueue ε κ := {}
  log : List (Entry ε) := []

namespace World

def record (w : World ε κ) (r : Entry ε) : World ε κ := { w with log := w.log ++ [r] }

@[simp] theorem record_main (w : World ε κ) (r : Entry ε) : (w.record r).main = w.main := rfl

@[simp] theorem record_log (w : World ε κ) (r : Entry ε) : (w.record r).log = w.log ++ [r] := rfl

@[simp] theorem record_events (w : World ε κ) (r : Entry ε) : (w.record r).events = w.events := rfl

variable [DecidableEq ε]

def set (w : World ε κ) (e : ε) (o : EventObj ε) : World ε κ :=
  { w with events := Function.update w.events e o }

@[simp] theorem set_main (w : World ε κ) (e : ε) (o : EventObj ε) : (w.set e o).main = w.main := rfl

@[simp] theorem set_log (w : World ε κ) (e : ε) (o : EventObj ε) : (w.set e o).log = w.log := rfl

@[simp] theorem set_events_self (w : World ε κ) (e : ε) (o : EventObj ε) :
    (w.set e o).events e = o := by
  simp [set]

theorem set_events_ne (w : World ε κ) {e x : ε} (h : x ≠ e) (o : EventObj ε) :
    (w.set e o).events x = w.events x := by
  simp [set, h]

end World

/-- Code that runs in a thread: it returns or throws, and leaves a world either way. -/
abbrev Exec (ε κ : Type) := EStateM Fault (World ε κ)

namespace Exec

/-- The world that a call leaves, by a return or by an exception. -/
def world {α : Type} : EStateM.Result Fault (World ε κ) α → World ε κ
  | .ok _ w => w
  | .error _ w => w

/-- The run was cut off, and nothing is said about the call. -/
def cutOff {α : Type} : EStateM.Result Fault (World ε κ) α → Bool
  | .error .cutOff _ => true
  | _ => false

/-- A section of the main queue as a part of a thread. -/
def onMain (f : MainQueue ε κ → (ε → EventObj ε) →
    EStateM.Result Fault (MainQueue ε κ × (ε → EventObj ε)) Unit) : Exec ε κ Unit := fun w =>
  match f w.main w.events with
  | .ok () (main, events) => .ok () { w with main, events }
  | .error x (main, events) => .error x { w with main, events }

/-- A section of the main queue dispatches nothing. -/
@[simp] theorem world_onMain_log (f : MainQueue ε κ → (ε → EventObj ε) →
    EStateM.Result Fault (MainQueue ε κ × (ε → EventObj ε)) Unit) (w : World ε κ) :
    (world (onMain f w)).log = w.log := by
  unfold onMain
  split <;> rfl

end Exec

namespace Events

/-- `apis::event_manager::events::begin_handling` -/
def beginHandling : IdType := .ofEnum .eventManagerEvents 0

/-- `apis::event_manager::events::finishing_handling` -/
def finishingHandling : IdType := .ofEnum .eventManagerEvents 1

/-- `apis::event_manager::events::finished_handling` -/
def finishedHandling : IdType := .ofEnum .eventManagerEvents 2

end Events

/-- What a handler of an event does: `queue_as` and `afterwards` on the event, and `queue` on any
event. -/
inductive Deed (ε : Type) where
  | queueAs (c : QueueCall)
  | afterwards (follower : ε)
  | queue (e : ε)
  deriving DecidableEq, Repr

section Code

variable [DecidableEq ε] (consume : κ → ε → EStateM Fault (ε → EventObj ε) Bool)
  (signals : IdType → ε → Exec ε κ Unit)

/-- `event::handle_as` with `event_manager::handle_as`: the handlers run while `current_id` is the
id; `scoped_swap` gives it its old value back when they return or throw. -/
def handleAs (e : ε) (id : IdType) : Exec ε κ Unit := fun w =>
  let o := w.events e
  let w₁ := (w.set e { o with currentId := id }).record (.dispatch e id o.idQueue.pending)
  match signals id e w₁ with
  | .ok () w₂ => .ok () (w₂.set e { w₂.events e with currentId := o.currentId })
  | .error x w₂ => .error x (w₂.set e { w₂.events e with currentId := o.currentId })

/-- `e->pop_next_queued_id()` -/
def popNext (e : ε) : Exec ε κ IdType := fun w =>
  let r := (w.events e).idQueue.popNextQueuedId
  .ok r.1 (w.set e { w.events e with idQueue := r.2 })

/-- The inner loop of `handle`: handles the event as `next`, and as the ids it pops. -/
def drain (e : ε) : Nat → IdType → Exec ε κ Unit
  | n, next =>
    if next.isValid then
      match n with
      | 0 => throw .cutOff
      | n + 1 => do
        handleAs signals e next
        drain e n (← popNext e)
    else pure ()

/-- The outer loop of `handle`. -/
def rounds (e : ε) : Nat → IdType → Exec ε κ Unit
  | 0, _ => throw .cutOff
  | n + 1, next => do
    drain signals e (n + 1) next
    handleAs signals e Events.finishingHandling
    -- possibly `finishing_handling` has queued new ids
    let next ← popNext e
    if next.isValid then rounds e n next

/-- The dispatches of `handle`, with at most `n` passes of each loop. -/
def dispatches (n : Nat) (e : ε) : Exec ε κ Unit := do
  handleAs signals e Events.beginHandling
  rounds signals e n (← popNext e)
  handleAs signals e Events.finishedHandling

/-- The end of `handle`: the afterwards events go in front of the main queue. The component is
removed when the section has returned. -/
def flushAfterwards (e : ε) : Exec ε κ Unit := fun w =>
  match (w.events e).handleAfterwards with
  | none => .ok () w
  | some events =>
    match Exec.onMain (MainQueue.flush consume events) w with
    | .ok () w => .ok () (w.set e { w.events e with handleAfterwards := none })
    | .error x w => .error x w

/-- `event_manager::handle` -/
def handle (n : Nat) (e : ε) : Exec ε κ Unit := do
  dispatches signals n e
  flushAfterwards consume e

/-- One deed of a handler of `e`. -/
def Deed.perform (e : ε) : Deed ε → Exec ε κ Unit
  | .queueAs c => fun w =>
    let o := w.events e
    match o.idQueue.call c with
    | none => .error .undefined w
    | some (_, q) => .ok () ((w.set e { o with idQueue := q }).record (.queueAs e c))
  | .afterwards follower => fun w =>
    let o := w.events e
    -- `at_or_insert(handle_afterwards())`
    let events := o.handleAfterwards.getD []
    .ok () ((w.set e { o with handleAfterwards := some (events ++ [follower]) }).record
      (.afterwards e follower))
  | .queue x => do
    Exec.onMain (MainQueue.pushBack consume x)
    modify fun w => w.record (.queue x)

/-- Handlers that perform the deeds that `deeds` lists for a dispatch, in order. -/
def handlers (deeds : World ε κ → IdType → ε → List (Deed ε)) (id : IdType) (e : ε) :
    Exec ε κ Unit := do
  (deeds (← get) id e).forM (Deed.perform consume e)

end Code

end Slirc
