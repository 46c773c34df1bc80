import Slirc.Client.Delivery
import Slirc.Connection.SetEndpoint
import Slirc.Connection.FirstSession
import Slirc.EventManager.Solo

/-!
# A program with a main loop

The main thread of a program sets an endpoint, connects, and then takes one event after the other
from the main queue and handles it, until the handled event is a last one. The handlers are a
parameter (`Script`): what they do with an event, in order. The threads of the network run the
handlers of the connection meanwhile. Nobody catches what such a handler throws, or `main`: the
process is terminated. `network::service()` is taken to give a service.

* `Loop`: the program. `Loop.main`: the main thread goes on; a call of the connection waits for its
  mutex, apart from `send_raw`.
* `Process`: an exception leaves a handler once the events are on the queue that the handler has put
  there, and only then is the process terminated; until then the other threads go on.
* `Loop.Inv`: how far the main thread has come in the events of the connection.
* `loop_handles`: it handles them in the order in which the connection emitted them, each once.
-/

namespace Slirc

open Connection (Outcome)

/-- What a handler does: it sends data, or something else. -/
inductive Reaction (β : Type) where
  | send (data : List Char)
  | out (b : β)
  deriving DecidableEq, Repr

/-- What the handlers do with an event, and whether the loop ends after it. -/
structure Script (β : Type) where
  reactions : Connection.Event → List (Reaction β)
  last : Connection.Event → Bool

/-- Where the main thread is. -/
inductive LoopPoint (β : Type) where
  | setEndpoint
  | connect
  /-- In `connect`, until its events are on the queue. -/
  | posting
  /-- At the head of the loop. -/
  | head
  /-- In its `w`th call of `wait_event`. -/
  | waiting (w : Nat)
  /-- In `handle`; this is still to be done. -/
  | handling (e : Connection.Event) (todo : List (Reaction β))
  /-- Behind the loop. -/
  | ended
  /-- An exception has left `main`. -/
  | threw
  deriving DecidableEq, Repr

/-- What has become of the process. -/
inductive Process where
  | running
  /-- An exception leaves a handler that a thread of the network runs, when `events` events of the
  connection are on the queue. -/
  | unwinding (events : Nat)
  /-- `std::terminate` was called. -/
  | terminated
  deriving DecidableEq, Repr

/-- A handler has ended; the connection has emitted `events` events. -/
def Process.after (p : Process) (events : Nat) : Outcome → Process
  | .returned => p
  | .threw _ =>
    match p with
    | .running => .unwinding events
    | .unwinding _ | .terminated => p

/-- The program. -/
structure Loop (β : Type) where
  client : Client Empty := {}
  point : LoopPoint β := .setEndpoint
  /-- The number of events that were handled or are being handled. -/
  handled : Nat := 0
  /-- What the handlers have done, in order. -/
  done : List (Reaction β) := []
  /-- The bytes that were reported as written, while the connection was established. -/
  written : List Char := []
  process : Process := .running

inductive LoopStep where
  /-- The main thread goes on. -/
  | main
  /-- A thread of the network runs the handler of the `i`th operation. -/
  | deliver (i : Nat) (completion : Connection.Completion)
  /-- The next event of the connection is put on the queue. -/
  | post
  /-- An exception has left a handler, or `main`. -/
  | terminate

namespace Loop

variable {β : Type}

/-- A step of the main thread at the main queue. -/
def wait (s : Loop β) (a : ThreadStep (Ticket Empty)) : Option (Loop β) :=
  (s.client.onThreads a).map fun c => { s with client := c }

/-- What follows a call. -/
def follow (next : LoopPoint β) : Outcome → LoopPoint β
  | .returned => next
  | .threw _ => .threw

/-- A call of the connection by the main thread. -/
def call (sslSupport : Bool) (s : Loop β) (call : Connection.Call) (next : LoopPoint β)
    (done : List (Reaction β)) : Option (Loop β) :=
  (s.client.call sslSupport call).map fun r =>
    { s with client := r.2, point := follow next r.1, done }

/-- The main thread goes on. -/
def main (sslSupport : Bool) (endpoint : List Char) (port : UInt32) (script : Script β)
    (s : Loop β) : Option (Loop β) :=
  match s.point with
  | .setEndpoint => s.call sslSupport (.setEndpoint endpoint port) .connect s.done
  | .connect => s.call sslSupport .connect .posting s.done
  | .posting => none
  | .head =>
    (s.wait (.waitEvent false)).map fun t =>
      { t with point := .waiting s.client.threads.clients.waiters.length }
  | .waiting w =>
    s.client.threads.clients.waiters[w]?.bind fun x =>
      match x.phase with
      | .start => s.wait (.tryFront w)
      | .empty => s.wait (.register w)
      | .waiting => s.wait (.wake w)
      | .leaving => s.wait (.ret w)
      | .returned none => some { s with point := .ended }
      | .returned (some (.connection k)) =>
        s.client.connection.emitted[k]?.map fun e =>
          { s with point := .handling e (script.reactions e), handled := s.handled + 1 }
      | .returned (some (.other x)) => x.elim
  | .handling e (.send data :: todo) =>
    s.call sslSupport (.sendRaw data) (.handling e todo) (s.done ++ [.send data])
  | .handling e (.out b :: todo) =>
    some { s with point := .handling e todo, done := s.done ++ [.out b] }
  | .handling e [] => some { s with point := if script.last e then .ended else .head }
  | .ended | .threw => none

/-- An exception has left a handler, whose events are on the queue, or `main`. -/
def uncaught (s : Loop β) : Bool :=
  match s.process, s.point with
  | .unwinding events, _ => events ≤ s.client.posted
  | _, .threw => true
  | _, _ => false

def step (sslSupport : Bool) (endpoint : List Char) (port : UInt32) (script : Script β)
    (s : Loop β) (a : LoopStep) : Option (Loop β) :=
  if s.process = .terminated then none
  else match a with
    | .main => s.main sslSupport endpoint port script
    | .deliver i completion =>
      (s.client.call sslSupport (.deliver i completion)).map fun r =>
        { s with
          client := r.2
          written := s.written ++ s.client.connection.reported i completion
          process := s.process.after r.2.connection.emitted.length r.1 }
    | .post =>
      (s.client.step sslSupport (.post fun _ _ => false)).map fun c =>
        { s with
          client := c
          point := match s.point with
            | .posting => if c.posted = c.connection.emitted.length then .head else .posting
            | p => p }
    | .terminate => if s.uncaught then some { s with process := .terminated } else none

/-- What the main thread can do. -/
inductive Goes (sslSupport : Bool) (endpoint : List Char) (port : UInt32) (script : Script β)
    (s : Loop β) : Loop β → Prop where
  | setEndpoint {o : Outcome} {c : Client Empty} : s.point = .setEndpoint →
    s.client.call sslSupport (.setEndpoint endpoint port) = some (o, c) →
    Goes sslSupport endpoint port script s { s with client := c, point := follow .connect o }
  | connect {o : Outcome} {c : Client Empty} : s.point = .connect →
    s.client.call sslSupport .connect = some (o, c) →
    Goes sslSupport endpoint port script s { s with client := c, point := follow .posting o }
  | waitEvent {c : Client Empty} : s.point = .head →
    s.client.onThreads (.waitEvent false) = some c →
    Goes sslSupport endpoint port script s
      { s with client := c, point := .waiting s.client.threads.clients.waiters.length }
  | wait {w : Nat} {a : ThreadStep (Ticket Empty)} {c : Client Empty} : s.point = .waiting w →
    a = .tryFront w ∨ a = .register w ∨ a = .wake w ∨ a = .ret w → s.client.onThreads a = some c →
    Goes sslSupport endpoint port script s { s with client := c }
  | gaveUp {w : Nat} {x : Waiter (Ticket Empty)} : s.point = .waiting w →
    s.client.threads.clients.waiters[w]? = some x → x.phase = .returned none →
    Goes sslSupport endpoint port script s { s with point := .ended }
  | take {w k : Nat} {x : Waiter (Ticket Empty)} {e : Connection.Event} : s.point = .waiting w →
    s.client.threads.clients.waiters[w]? = some x →
    x.phase = .returned (some (.connection k)) → s.client.connection.emitted[k]? = some e →
    Goes sslSupport endpoint port script s
      { s with point := .handling e (script.reactions e), handled := s.handled + 1 }
  | send {e : Connection.Event} {data : List Char} {todo : List (Reaction β)} {o : Outcome}
    {c : Client Empty} : s.point = .handling e (.send data :: todo) →
    s.client.call sslSupport (.sendRaw data) = some (o, c) →
    Goes sslSupport endpoint port script s
      { s with client := c, point := follow (.handling e todo) o, done := s.done ++ [.send data] }
  | out {e : Connection.Event} {b : β} {todo : List (Reaction β)} :
    s.point = .handling e (.out b :: todo) →
    Goes sslSupport endpoint port script s
      { s with point := .handling e todo, done := s.done ++ [.out b] }
  | next {e : Connection.Event} : s.point = .handling e [] →
    Goes sslSupport endpoint port script s
      { s with point := if script.last e then .ended else .head }

theorem main_goes {sslSupport : Bool} {endpoint : List Char} {port : UInt32} {script : Script β}
    {s s' : Loop β} (h : s.main sslSupport endpoint port script = some s') :
    Goes sslSupport endpoint port script s s' := by
  cases hpoint : s.point with
  | posting | ended | threw => simp [Loop.main, hpoint] at h
  | setEndpoint =>
    simp only [Loop.main, hpoint] at h
    obtain ⟨⟨o, c⟩, hcall, rfl⟩ := Option.map_eq_some_iff.mp h
    exact .setEndpoint hpoint hcall
  | connect =>
    simp only [Loop.main, hpoint] at h
    obtain ⟨⟨o, c⟩, hcall, rfl⟩ := Option.map_eq_some_iff.mp h
    exact .connect hpoint hcall
  | head =>
    simp only [Loop.main, hpoint, Loop.wait, Option.map_map] at h
    obtain ⟨c, hc, rfl⟩ := Option.map_eq_some_iff.mp h
    exact .waitEvent hpoint hc
  | waiting w =>
    simp only [Loop.main, hpoint] at h
    obtain ⟨x, hw, h⟩ := Option.bind_eq_some_iff.mp h
    split at h
    · obtain ⟨c, hc, rfl⟩ := Option.map_eq_some_iff.mp h
      exact .wait hpoint (.inl rfl) hc
    · obtain ⟨c, hc, rfl⟩ := Option.map_eq_some_iff.mp h
      exact .wait hpoint (.inr (.inl rfl)) hc
    · obtain ⟨c, hc, rfl⟩ := Option.map_eq_some_iff.mp h
      exact .wait hpoint (.inr (.inr (.inl rfl))) hc
    · obtain ⟨c, hc, rfl⟩ := Option.map_eq_some_iff.mp h
      exact .wait hpoint (.inr (.inr (.inr rfl))) hc
    · rename_i hreturned
      cases h
      exact .gaveUp hpoint hw hreturned
    · rename_i k hreturned
      obtain ⟨e, he, rfl⟩ := Option.map_eq_some_iff.mp h
      exact .take hpoint hw hreturned he
    · rename_i y _
      exact y.elim
  | handling e todo =>
    simp only [Loop.main, hpoint] at h
    match todo with
    | .send data :: todo =>
      obtain ⟨⟨o, c⟩, hcall, rfl⟩ := Option.map_eq_some_iff.mp h
      exact .send hpoint hcall
    | .out b :: todo =>
      cases h
      exact .out hpoint
    | [] =>
      cases h
      exact .next hpoint

/-- The runs of the program. -/
def machine (sslSupport : Bool) (endpoint : List Char) (port : UInt32) (script : Script β) :
    Machine (Loop β) LoopStep Unit :=
  ⟨fun s a => (s.step sslSupport endpoint port script a).map fun s' => ((), s')⟩

end Loop

/-! ## The events that the main thread gets -/

namespace Ticket

/-- Where nothing else is put on the queue, every event has a number. -/
def index : Ticket Empty → Nat
  | .connection k => k
  | .other x => x.elim

theorem filterMap_number (l : List (Ticket Empty)) : l.filterMap Ticket.number = l.map index := by
  rw [← List.filterMap_eq_map]
  refine List.filterMap_congr fun t _ => ?_
  cases t with
  | connection k => rfl
  | other x => exact x.elim

end Ticket

/-- The main thread has got `n` events by its calls of `wait_event` that have returned; the call
`current` has not. -/
structure Client.Served (sslSupport : Bool) (c : Client Empty) (current : Option Nat) (n : Nat) :
    Prop where
  inv : c.Inv sslSupport
  solo : c.threads.clients.Solo
  order : c.taken = c.threads.clients.held
  returned : ∀ v x, c.threads.clients.waiters[v]? = some x → current ≠ some v →
    ∃ r, x.phase = .returned r
  last : ∀ w, current = some w → w + 1 = c.threads.clients.waiters.length
  count : ((c.threads.clients.waiters.take
    (current.getD c.threads.clients.waiters.length)).filterMap (·.event)).length = n

namespace Client.Served

variable {sslSupport : Bool} {c c' : Client Empty} {current : Option Nat} {n : Nat}

/-- All calls but the last have returned. -/
theorem sequential (h : c.Served sslSupport current n) (v : Nat) (x : Waiter (Ticket Empty))
    (hx : c.threads.clients.waiters[v]? = some x)
    (hv : v + 1 < c.threads.clients.waiters.length) : ∃ r, x.phase = .returned r :=
  h.returned v x hx fun hcur => absurd (h.last v hcur) (Nat.ne_of_lt hv)

/-- A call of the connection. -/
theorem call (h : c.Served sslSupport current n) {call : Connection.Call} {o : Outcome}
    (hcall : c.call sslSupport call = some (o, c')) : c'.Served sslSupport current n := by
  have hinv := h.inv.call hcall
  obtain ⟨-, hc', -⟩ := Client.call_eq_some hcall
  rw [hc'] at hinv ⊢
  exact ⟨hinv, h.solo, h.order, h.returned, h.last, h.count⟩

/-- The calls before the current one have returned. -/
theorem before (h : c.Served sslSupport current n) {v : Nat}
    (hv : v < current.getD c.threads.clients.waiters.length) :
    current ≠ some v ∧ ∃ x, c.threads.clients.waiters[v]? = some x := by
  cases current with
  | none => exact ⟨by simp, _, List.getElem?_eq_getElem hv⟩
  | some w =>
    have hw := h.last w rfl
    rw [Option.getD_some] at hv
    exact ⟨by simp; omega, _, List.getElem?_eq_getElem (by omega)⟩

/-- **A step at the main queue** that begins no call. -/
theorem onThreads (h : c.Served sslSupport current n) {a : ThreadStep (Ticket Empty)}
    (ha : a.solo = true) {m : Nat} (hstep : { c with posted := m }.onThreads a = some c')
    (hinv : c'.Inv sslSupport)
    (hlen : c'.threads.clients.waiters.length = c.threads.clients.waiters.length) :
    c'.Served sslSupport current n := by
  obtain ⟨t, ht, rfl⟩ := Option.map_eq_some_iff.mp hstep
  obtain ⟨hsolo, -⟩ := Threads.solo_step h.inv.threads h.solo ha ht
  obtain ⟨-, left, hq, htook⟩ :=
    Threads.step_spec (Threads.inv_reaches h.inv.threads).clients ht
  have hheld := Threads.held_eq htook h.solo.calls hsolo.calls hlen h.sequential
  have hkept : ∀ v x, c.threads.clients.waiters[v]? = some x → current ≠ some v →
      t.clients.waiters[v]? = some x := fun v x hx hv => by
    obtain ⟨r, hr⟩ := h.returned v x hx hv
    exact htook.frozen v x r hx hr
  refine ⟨hinv, hsolo, ?_, fun v x hx hv => ?_, fun w hw => (h.last w hw).trans hlen.symm, ?_⟩
  · dsimp only
    rw [hq, hheld, h.order]
    simp
  · have hlt : v < c.threads.clients.waiters.length :=
      hlen ▸ (List.getElem?_eq_some_iff.mp hx).choose
    have hold := List.getElem?_eq_getElem hlt
    rw [hkept v _ hold hv] at hx
    cases hx
    exact h.returned v _ hold hv
  · have htake : t.clients.waiters.take (current.getD t.clients.waiters.length) =
        c.threads.clients.waiters.take (current.getD c.threads.clients.waiters.length) := by
      rw [hlen]
      refine List.ext_getElem? fun v => ?_
      simp only [List.getElem?_take]
      split
      · rename_i hv
        obtain ⟨hcur, x, hx⟩ := h.before hv
        rw [hx, hkept v x hx hcur]
      · rfl
    rw [htake]
    exact h.count

/-- A step that puts no event of the connection on the queue. -/
theorem inv_thread (h : c.Served sslSupport current n) {a : ThreadStep (Ticket Empty)}
    (ha : a.foreign = true) (hstep : c.onThreads a = some c') : c'.Inv sslSupport :=
  h.inv.step (a := .thread a) (by rw [Client.step, if_pos ha, hstep])

/-- **A call begins** when no other one is going on. -/
theorem waitEvent (h : c.Served sslSupport none n)
    (hstep : c.onThreads (.waitEvent false) = some c') :
    c'.Served sslSupport (some c.threads.clients.waiters.length) n ∧
      c'.connection = c.connection := by
  have hinv := h.inv_thread rfl hstep
  obtain ⟨t, ht, rfl⟩ := Option.map_eq_some_iff.mp hstep
  obtain ⟨hsolo, -⟩ := Threads.solo_step h.inv.threads h.solo rfl ht
  cases Threads.step_effect ht with
  | waitEvent =>
    refine ⟨⟨hinv, hsolo, ?_, fun v x hx hv => ?_, fun w hw => ?_, ?_⟩, rfl⟩
    · simpa [Clients.held, ThreadStep.front, ThreadStep.back] using h.order
    · dsimp only at hx
      rcases Nat.lt_or_ge v c.threads.clients.waiters.length with hlt | hge
      · rw [List.getElem?_append_left hlt] at hx
        exact h.returned v x hx (by simp)
      · have hv' := (List.getElem?_eq_some_iff.mp hx).choose
        simp only [List.length_append, List.length_singleton] at hv'
        exact absurd (congrArg some (by omega)) hv
    · cases hw
      simp
    · simpa using h.count

/-- What the calls have got is what the earlier ones have, and what the current one has. -/
theorem held_eq {w : Nat} (h : c.Served sslSupport (some w) n) {x : Waiter (Ticket Empty)}
    (hw : c.threads.clients.waiters[w]? = some x) :
    ∃ before, before.length = n ∧ c.threads.clients.held = before ++ x.event.toList := by
  have hsplit := List.take_add_one (l := c.threads.clients.waiters) (i := w)
  rw [h.last w rfl, List.take_length, hw] at hsplit
  refine ⟨(c.threads.clients.waiters.take w).filterMap (·.event), h.count, ?_⟩
  have hall := congrArg (List.filterMap (·.event)) hsplit
  rw [List.filterMap_append] at hall
  rw [Clients.held, hall]
  cases hx : x.event <;> simp [hx]

/-- **The current call has returned** with an event, which is the next one. -/
theorem next {w : Nat} (h : c.Served sslSupport (some w) n) {x : Waiter (Ticket Empty)}
    {t : Ticket Empty} (hw : c.threads.clients.waiters[w]? = some x)
    (hx : x.phase = .returned (some t)) :
    c.Served sslSupport none (n + 1) ∧ t.index = n ∧ n < c.posted := by
  have hevent : x.event = some t :=
    ((Threads.inv_reaches h.inv.threads).clients x (List.mem_of_getElem? hw)).result _ hx
  obtain ⟨before, hbefore, hheld⟩ := h.held_eq hw
  rw [hevent, Option.toList_some] at hheld
  refine ⟨⟨h.inv, h.solo, h.order, fun v y hy _ => ?_, by simp, ?_⟩, ?_⟩
  · by_cases hv : v = w
    · subst hv
      cases hw.symm.trans hy
      exact ⟨_, hx⟩
    · exact h.returned v y hy fun hc => hv (Option.some.inj hc).symm
  · rw [Option.getD_none, List.take_length]
    exact (congrArg List.length hheld).trans (by simp [hbefore])
  · have hnth := congrArg (·[n]?) h.inv.order
    simp only [h.order, hheld, Ticket.filterMap_number, List.map_append, List.append_assoc] at hnth
    rw [List.getElem?_append_right (by simp [hbefore])] at hnth
    obtain ⟨hlt, hk⟩ := List.getElem?_eq_some_iff.mp (by simpa [hbefore] using hnth.symm)
    rw [List.getElem_range] at hk
    exact ⟨hk.symm, by simpa using hlt⟩

/-- While the current call sleeps, all events that were put on the queue have been taken. -/
theorem asleep {w : Nat} (h : c.Served sslSupport (some w) n) (hw : c.threads.clients.Asleep w) :
    n = c.posted := by
  obtain ⟨log, hlog⟩ := Threads.consistent_of_reaches h.inv.threads
  have hqueue := hlog.tidy.queue_eq_nil (hlog.asleep w hw)
  obtain ⟨x, hx, -, hawaits⟩ := hw
  have hnone := (((Threads.inv_reaches h.inv.threads).clients x
    (List.mem_of_getElem? hx)).awaits hawaits).2
  obtain ⟨before, hbefore, hheld⟩ := h.held_eq hx
  have horder := congrArg List.length h.inv.order
  rw [h.order, hqueue, hheld, hnone, Ticket.filterMap_number] at horder
  simpa [hbefore] using horder

end Client.Served

/-! ## A connection that connects once -/

namespace Connection

/-- The event announces the end of the connection. -/
def Event.Closes (e : Event) : Prop := e.originalId = State.disconnected.id

instance : DecidablePred Event.Closes := fun e => inferInstanceAs (Decidable (e.originalId = _))

theorem stateEvent_closes {newstate : State} :
    (stateEvent newstate).Closes ↔ newstate = .disconnected := by
  cases newstate <;> decide

/-- The connection has not been closed. -/
structure Impl.Unclosed (s : Impl) : Prop where
  curstate : s.curstate ≠ .disconnected
  emitted : ∀ e ∈ s.emitted, ¬e.Closes

/-- If the connection was closed, this was the last that it told, and it still is closed. -/
structure Impl.Once (s : Impl) : Prop where
  last : ∀ e ∈ s.emitted.dropLast, ¬e.Closes
  unclosed : s.curstate ≠ .disconnected → s.Unclosed

theorem Impl.Unclosed.once {s : Impl} (h : s.Unclosed) : s.Once :=
  ⟨fun e he => h.emitted e (List.dropLast_subset _ he), fun _ => h⟩

theorem Impl.Unclosed.emitting {s : Impl} (h : s.Unclosed) {events : List Event}
    (hevents : ∀ e ∈ events, ¬e.Closes) : (s.emitting events).Unclosed :=
  ⟨h.curstate, fun e he => (List.mem_append.mp he).elim (h.emitted e) (hevents e)⟩

theorem Impl.Unclosed.error {s : Impl} (h : s.Unclosed) (errorMessage : String)
    (errorCode : ErrorCode) : (s.emitting [errorEvent errorMessage errorCode]).Unclosed :=
  h.emitting fun e he => by
    rw [List.mem_singleton.mp he]
    exact (by decide : ¬errorId = State.disconnected.id)

theorem Impl.Unclosed.enter {s : Impl} (h : s.Unclosed) {newstate : State}
    (hnew : newstate ≠ .disconnected) : (s.enter newstate).Unclosed := by
  refine ⟨hnew, fun e he => (List.mem_append.mp he).elim (h.emitted e) fun he => ?_⟩
  rw [List.mem_singleton.mp he, stateEvent_closes]
  exact hnew

variable {s s' : Impl} {o : Outcome}

theorem Teardown.once (h : Teardown s o s') (hs : s.Unclosed) : s'.Once := by
  cases h with
  | missing | closed => exact hs.once
  | done sock =>
    refine ⟨fun e he => hs.emitted e ?_, fun hc => absurd rfl hc⟩
    simpa using he

theorem TryNext.once (h : TryNext s o s') (hs : s.Unclosed) : s'.Once := by
  cases h with
  | exhausted _ hdown => exact hdown.once hs
  | missing => exact hs.once
  | next =>
    exact Impl.Unclosed.once ⟨by simpa [Impl.trying] using hs.curstate, fun e he =>
      hs.emitted e (by simpa [Impl.trying] using he)⟩

theorem Handled.once {operation : Operation} {completion : Completion}
    (h : Handled s operation completion o s') (hs : s.Unclosed) : s'.Once := by
  cases h with
  | idle => exact hs.once
  | lookupFailed _ hdown | readFailed _ hdown | writeFailed _ hdown =>
    exact hdown.once (hs.error _ _)
  | resolved _ hnext => exact hnext.once ⟨hs.curstate, hs.emitted⟩
  | connectFailed _ hnext => exact hnext.once (hs.error _ _)
  | handshake | transferred => exact Impl.Unclosed.once ⟨hs.curstate, hs.emitted⟩
  | handshakeFailed => exact (hs.error _ _).once
  | connected | shaken =>
    have hcleared : s.cleared.Unclosed := ⟨hs.curstate, hs.emitted⟩
    have hentered := hcleared.enter (by decide : State.connected ≠ .disconnected)
    exact Impl.Unclosed.once ⟨hentered.curstate, hentered.emitted⟩
  | received =>
    refine Impl.Unclosed.once ⟨hs.curstate, fun e he => ?_⟩
    rcases List.mem_append.mp he with he | he
    · exact hs.emitted e he
    · obtain ⟨line, -, rfl⟩ := List.mem_map.mp he
      exact (by decide : ¬receivedLine = State.disconnected.id)

/-- **A step** that begins no second connection. -/
theorem step_once {sslSupport : Bool} {call : Call} (h : s.Once)
    (hcall : call = .connect → s.curstate ≠ .disconnected ∨ s.emitted = [])
    (hst : s.step sslSupport call = some (o, s')) : s'.Once := by
  by_cases hcur : s.curstate = .disconnected
  · by_cases hconnect : call = .connect
    · subst hconnect
      have hnone := (hcall rfl).resolve_left (not_not.mpr hcur)
      cases step_effect hst with
      | connectRefused hne => exact absurd hcur hne
      | connect =>
        refine Impl.Unclosed.once ⟨by simp [Impl.attempting], fun e he => ?_⟩
        have he' : e = stateEvent .connecting := by simpa [Impl.attempting, hnone] using he
        rw [he', stateEvent_closes]
        decide
    · have hrests := step_rests (by simp [hcur]) (fun hc => absurd hc hconnect) hst
      obtain ⟨hcur', hemitted⟩ := hrests.disconnected hcur
      exact ⟨hemitted ▸ h.last, fun hne => absurd hcur' hne⟩
  · have hs := h.unclosed hcur
    cases step_effect hst with
    | endpointRefused | connectRefused | ignored => exact h
    | setEndpoint | sendRaw => exact Impl.Unclosed.once ⟨hs.curstate, hs.emitted⟩
    | connect hd => exact absurd hd hcur
    | disconnect _ hdown => exact hdown.once (hs.enter (by decide))
    | deliver _ _ hdone => exact hdone.once ⟨hs.curstate, hs.emitted⟩

theorem setEndpoint_isSome (sslSupport : Bool) (endpoint : List Char) (port : UInt32)
    (h : s.curstate = .disconnected) :
    (s.step sslSupport (.setEndpoint endpoint port)).isSome = true := by
  rw [Impl.step]
  cases hparse : Endpoint.parse endpoint port with
  | none =>
    rw [setEndpoint_invalid sslSupport h hparse]
    rfl
  | some e =>
    by_cases hssl : e.useSsl = true → sslSupport = true
    · rw [setEndpoint_accepted h hparse hssl]
      rfl
    · obtain ⟨huse, hsupport⟩ := Classical.not_imp.mp hssl
      obtain rfl : sslSupport = false := by simpa using hsupport
      obtain ⟨what, heq⟩ := setEndpoint_unsupported h hparse huse
      rw [heq]
      rfl

theorem connect_isSome (sslSupport : Bool) (h : s.curstate = .disconnected) :
    (s.step sslSupport .connect).isSome = true := by
  rw [Impl.step, connect_eq h, Program.bind_ok (emitStateChange_eq _ (by decide))]
  rfl

end Connection

/-! ## What the main thread has done -/

namespace LoopPoint

variable {β : Type}

/-- The call of `wait_event` that has not returned to the loop. -/
def current : LoopPoint β → Option Nat
  | .waiting w => some w
  | _ => none

/-- What the handlers are still to do with the event. -/
def todo : LoopPoint β → List (Reaction β)
  | .handling _ todo => todo
  | _ => []

/-- No connection has been begun. -/
def Early (p : LoopPoint β) : Prop := p = .setEndpoint ∨ p = .connect ∨ p = .threw

/-- What has been handled, or is, when the main thread is at a point: only behind the loop it is a
last event. -/
def Passed (script : Script β) : LoopPoint β → List Connection.Event → Prop
  | .setEndpoint, handled | .connect, handled | .posting, handled | .threw, handled => handled = []
  | .head, handled | .waiting _, handled => ∀ e ∈ handled, script.last e = false
  | .handling e _, handled =>
    handled.getLast? = some e ∧ ∀ e ∈ handled.dropLast, script.last e = false
  | .ended, handled =>
    (∃ e, handled.getLast? = some e ∧ script.last e = true) ∧
      ∀ e ∈ handled.dropLast, script.last e = false

/-- Behind the handlers the loop goes on, or ends. -/
theorem afterwards (last : Bool) :
    (if last then .ended else .head : LoopPoint β).current = none ∧
      (if last then .ended else .head : LoopPoint β).todo = [] ∧
        ¬(if last then .ended else .head : LoopPoint β).Early ∧
          (if last then .ended else .head : LoopPoint β) ≠ .posting := by
  cases last <;> exact ⟨rfl, rfl, by simp [Early], by simp⟩

theorem Passed.afterwards {script : Script β} {e : Connection.Event} {todo : List (Reaction β)}
    {handled : List Connection.Event} (h : (handling e todo).Passed script handled) :
    (if script.last e then .ended else .head : LoopPoint β).Passed script handled := by
  obtain ⟨hlast, hbefore⟩ := h
  split
  · rename_i hends
    exact ⟨⟨e, hlast, hends⟩, hbefore⟩
  · rename_i hgoes
    intro e' he'
    rw [← List.dropLast_append_getLast? e hlast] at he'
    rcases List.mem_append.mp he' with he' | he'
    · exact hbefore e' he'
    · rw [List.mem_singleton.mp he']
      simpa using hgoes

end LoopPoint

namespace Loop

variable {β : Type} {sslSupport : Bool} {endpoint : List Char} {port : UInt32} {script : Script β}
  {s s' : Loop β} {c : Client Empty}

/-- The events that the main thread has taken. -/
def taken (s : Loop β) : List Connection.Event := s.client.connection.emitted.take s.handled

/-- How far the main thread has come in the events of the connection. -/
structure Inv (sslSupport : Bool) (script : Script β) (s : Loop β) : Prop where
  served : s.client.Served sslSupport s.point.current s.handled
  handled_le : s.handled ≤ s.client.connection.emitted.length
  done : s.done ++ s.point.todo = s.taken.flatMap script.reactions
  passed : s.point.Passed script s.taken
  early : s.point.Early → s.client.connection.curstate = .disconnected ∧
    s.client.connection.emitted = []
  begun : ¬s.point.Early → s.client.connection.emitted ≠ []
  /-- `connect` keeps its mutex until its events are on the queue. -/
  posting : s.point = .posting → s.client.posted < s.client.connection.emitted.length
  once : s.client.connection.Once

/-- `send_raw` does not throw. -/
theorem sendRaw_returned {data : List Char} {o : Outcome}
    (hcall : s.client.call sslSupport (.sendRaw data) = some (o, c)) : o = .returned := by
  have hstep := Client.call_step hcall
  generalize c.connection = t at hstep
  cases Connection.step_effect hstep with
  | sendRaw => rfl

theorem inv_init : ({} : Loop β).Inv sslSupport script where
  served := by
    refine ⟨Client.inv_init sslSupport, ⟨rfl, rfl, by simp⟩, rfl, by simp, ?_, rfl⟩
    exact fun w hw => nomatch hw
  handled_le := Nat.le_refl 0
  done := rfl
  passed := rfl
  early _ := ⟨rfl, rfl⟩
  begun h := absurd (.inl rfl) h
  posting h := nomatch h
  once := ⟨by simp, fun h => absurd rfl h⟩

/-- The main thread is at another point, and the events that it has taken are the same. -/
theorem Inv.at (h : s.Inv sslSupport script) {p : LoopPoint β} {d : List (Reaction β)}
    (hserved : c.Served sslSupport p.current s.handled)
    (hconn : c.connection = s.client.connection) (hdone : d ++ p.todo = s.done ++ s.point.todo)
    (hpassed : p.Passed script s.taken) (hearly : p.Early ↔ s.point.Early)
    (hposting : p = .posting → c.posted < c.connection.emitted.length) :
    ({ s with client := c, point := p, done := d } : Loop β).Inv sslSupport script := by
  have htaken : ({ s with client := c, point := p, done := d } : Loop β).taken = s.taken := by
    rw [taken, taken, hconn]
  refine ⟨hserved, ?_, ?_, ?_, fun hp => ?_, fun hp => ?_, hposting, ?_⟩
  · rw [hconn]
    exact h.handled_le
  · rw [htaken, hdone, h.done]
  · rw [htaken]
    exact hpassed
  · rw [hconn]
    exact h.early (hearly.mp hp)
  · rw [hconn]
    exact h.begun fun hs => hp (hearly.mpr hs)
  · rw [hconn]
    exact h.once

/-- A call of the connection, after which the main thread is at some point. -/
theorem Inv.called (h : s.Inv sslSupport script) {call : Connection.Call} {o : Outcome}
    (hcall : s.client.call sslSupport call = some (o, c)) {p : LoopPoint β}
    {d : List (Reaction β)} (hconnect : call = .connect →
      s.client.connection.curstate ≠ .disconnected ∨ s.client.connection.emitted = [])
    (hcurrent : p.current = s.point.current) (hdone : d ++ p.todo = s.done ++ s.point.todo)
    (hpassed : p.Passed script s.taken) (hearly : p.Early → s.point.Early ∧ call ≠ .connect)
    (hbegun : ¬p.Early → s.point.Early →
      s.client.connection.emitted.length < c.connection.emitted.length)
    (hposting : p = .posting → call.locks = true ∧ (s.point = .posting ∨ s.point.Early)) :
    ({ s with client := c, point := p, done := d } : Loop β).Inv sslSupport script := by
  have hserved := h.served.call hcall
  obtain ⟨hposted, hc, -⟩ := Client.call_eq_some hcall
  have hstep := Client.call_step hcall
  have hreach := Machine.observe_reaches h.served.inv.wired
  have hpre := Client.emitted_extends hreach hstep
  have htaken : ({ s with client := c, point := p, done := d } : Loop β).taken = s.taken := by
    obtain ⟨more, hmore⟩ := hpre
    rw [taken, ← hmore, List.take_append_of_le_length h.handled_le]
    rfl
  refine ⟨hcurrent ▸ hserved, h.handled_le.trans hpre.length_le, ?_, ?_, fun hp => ?_,
    fun hp hnone => ?_, fun hp => ?_, Connection.step_once h.once hconnect hstep⟩
  · rw [htaken, hdone, h.done]
  · rw [htaken]
    exact hpassed
  · obtain ⟨hs, hne⟩ := hearly hp
    obtain ⟨hcur, hnone⟩ := h.early hs
    have hrests := Connection.step_rests (by simp [hcur]) (fun hc => absurd hc hne) hstep
    obtain ⟨hcur', hemitted⟩ := hrests.disconnected hcur
    exact ⟨hcur', hemitted.trans hnone⟩
  · by_cases hs : s.point.Early
    · have hmore := hbegun hp hs
      rw [show c.connection.emitted = [] from hnone] at hmore
      exact Nat.not_lt_zero _ hmore
    · exact h.begun hs (List.prefix_nil.mp (hnone ▸ hpre))
  · obtain ⟨hlocks, hs⟩ := hposting hp
    rcases hs with hs | hs
    · exact absurd (hposted hlocks) (Nat.ne_of_lt (h.posting hs))
    · have hsame : c.posted = s.client.posted := by rw [hc]
      have hearly : ¬p.Early := by simp [show p = .posting from hp, LoopPoint.Early]
      exact (hsame.trans (hposted hlocks)).trans_lt (hbegun hearly hs)

/-- **The loop takes the next event.** -/
theorem Inv.take (h : s.Inv sslSupport script) {w k : Nat} {x : Waiter (Ticket Empty)}
    {e : Connection.Event} (hpoint : s.point = .waiting w)
    (hw : s.client.threads.clients.waiters[w]? = some x)
    (hx : x.phase = .returned (some (.connection k)))
    (he : s.client.connection.emitted[k]? = some e) :
    ({ s with point := .handling e (script.reactions e), handled := s.handled + 1 } :
      Loop β).Inv sslSupport script := by
  have hserved := h.served
  rw [hpoint] at hserved
  obtain ⟨hserved', hk, -⟩ := hserved.next hw hx
  obtain rfl : k = s.handled := hk
  have htaken : ({ s with
      point := .handling e (script.reactions e), handled := s.handled + 1 } : Loop β).taken =
        s.taken ++ [e] := by
    rw [taken, List.take_add_one, he]
    rfl
  refine ⟨hserved', (List.getElem?_eq_some_iff.mp he).choose, ?_, ?_, fun hp => ?_,
    fun _ => h.begun (by simp [hpoint, LoopPoint.Early]), by simp, h.once⟩
  · have hdone := h.done
    rw [hpoint] at hdone
    rw [htaken, List.flatMap_append, ← hdone]
    simp [LoopPoint.todo]
  · rw [htaken]
    have hpassed := h.passed
    rw [hpoint] at hpassed
    refine ⟨by simp, ?_⟩
    rw [List.dropLast_concat]
    exact hpassed
  · rcases hp with hp | hp | hp <;> cases hp

/-- A step at the main queue, without a timeout, that begins no call. -/
theorem Inv.wait (h : s.Inv sslSupport script) {a : ThreadStep (Ticket Empty)}
    (ha : a.solo = true) (hforeign : a.foreign = true) (hne : a ≠ .waitEvent false)
    (hst : s.client.onThreads a = some c) :
    ({ s with client := c } : Loop β).Inv sslSupport script := by
  have hserved := h.served.inv_thread hforeign hst
  obtain ⟨t, ht, hc⟩ := Option.map_eq_some_iff.mp hst
  obtain ⟨-, hlen⟩ := Threads.solo_step h.served.inv.threads h.served.solo ha ht
  subst hc
  exact h.at (d := s.done) (h.served.onThreads ha (m := s.client.posted) hst hserved
    (hlen.resolve_right fun hn => hne hn.1)) rfl rfl h.passed .rfl h.posting

/-- The main thread calls `connect` while nothing has been connected. -/
theorem Inv.connects (h : s.Inv sslSupport script) {o : Outcome} (hpoint : s.point = .connect)
    (hcall : s.client.call sslSupport .connect = some (o, c)) :
    o = .returned ∧ s.client.connection.emitted.length < c.connection.emitted.length := by
  obtain ⟨hcur, -⟩ := h.early (.inr (.inl hpoint))
  have hstep := Client.call_step hcall
  generalize c.connection = t at hstep
  cases Connection.step_effect hstep with
  | connectRefused hne => exact absurd hcur hne
  | connect => exact ⟨rfl, by simp [Connection.Impl.attempting]⟩

/-- **The main thread goes on.** -/
theorem Inv.goes (h : s.Inv sslSupport script) (hst : Goes sslSupport endpoint port script s s') :
    s'.Inv sslSupport script := by
  have hpassed := h.passed
  have hserved := h.served
  cases hst with
  | @setEndpoint o c hpoint hcall =>
    rw [hpoint] at hpassed
    refine h.called (d := s.done) hcall (fun hc => nomatch hc) ?_ ?_ ?_
      (fun _ => ⟨.inl hpoint, by simp⟩) ?_ ?_
    · cases o <;> simp [hpoint, follow, LoopPoint.current]
    · cases o <;> simp [hpoint, follow, LoopPoint.todo]
    · cases o <;> exact hpassed
    · cases o <;> simp [follow, LoopPoint.Early]
    · cases o <;> simp [follow]
  | @connect o c hpoint hcall =>
    rw [hpoint] at hpassed
    obtain ⟨-, hnone⟩ := h.early (.inr (.inl hpoint))
    obtain ⟨rfl, hmore⟩ := h.connects hpoint hcall
    exact h.called (d := s.done) hcall (fun _ => .inr hnone)
      (by simp [hpoint, follow, LoopPoint.current]) (by simp [hpoint, follow, LoopPoint.todo])
      hpassed (by simp [follow, LoopPoint.Early]) (fun _ _ => hmore)
      fun _ => ⟨rfl, .inr (.inr (.inl hpoint))⟩
  | waitEvent hpoint hc =>
    rw [hpoint] at hpassed hserved
    obtain ⟨hserved', hconn⟩ := hserved.waitEvent hc
    exact h.at (d := s.done) hserved' hconn (by simp [hpoint, LoopPoint.todo]) hpassed
      (by simp [hpoint, LoopPoint.Early]) (by simp)
  | wait _ ha hc =>
    rcases ha with rfl | rfl | rfl | rfl <;> exact h.wait rfl rfl (by simp) hc
  | gaveUp _ hw hreturned =>
    have hx := hserved.solo.prompt _ (List.mem_of_getElem? hw)
    exact absurd (hx.returned none hreturned) (by simp)
  | take hpoint hw hreturned he => exact h.take hpoint hw hreturned he
  | send hpoint hcall =>
    rw [hpoint] at hpassed
    obtain rfl := sendRaw_returned hcall
    exact h.called hcall (fun hc => nomatch hc) (by simp [hpoint, follow, LoopPoint.current])
      (by simp [hpoint, follow, LoopPoint.todo]) hpassed (by simp [follow, LoopPoint.Early])
      (by simp [hpoint, LoopPoint.Early]) (by simp [follow])
  | out hpoint =>
    rw [hpoint] at hpassed hserved
    exact h.at (c := s.client) hserved rfl (by simp [hpoint, LoopPoint.todo]) hpassed
      (by simp [hpoint, LoopPoint.Early]) (by simp)
  | @next e hpoint =>
    rw [hpoint] at hpassed hserved
    obtain ⟨hcurrent, htodo, hearly, hposting⟩ := LoopPoint.afterwards (β := β) (script.last e)
    refine h.at (c := s.client) (d := s.done) ?_ rfl ?_ hpassed.afterwards
      (iff_of_false hearly (by simp [hpoint, LoopPoint.Early])) fun hp => absurd hp hposting
    · rw [hcurrent]
      exact hserved
    · rw [htodo, hpoint]
      rfl

/-- A step is made while the process has not been terminated. -/
theorem step_eq_some {a : LoopStep} (hst : s.step sslSupport endpoint port script a = some s') :
    s.process ≠ .terminated ∧
    match a with
    | .main => s.main sslSupport endpoint port script = some s'
    | .deliver i completion => ∃ o c,
      s.client.call sslSupport (.deliver i completion) = some (o, c) ∧
        s' = { s with
          client := c
          written := s.written ++ s.client.connection.reported i completion
          process := s.process.after c.connection.emitted.length o }
    | .post => ∃ c, s.client.step sslSupport (.post fun _ _ => false) = some c ∧
        s' = { s with
          client := c
          point := match s.point with
            | .posting => if c.posted = c.connection.emitted.length then .head else .posting
            | p => p }
    | .terminate => s.uncaught = true ∧ s' = { s with process := .terminated } := by
  unfold Loop.step at hst
  split at hst
  · cases hst
  rename_i hprocess
  refine ⟨hprocess, ?_⟩
  cases a with
  | main => exact hst
  | deliver i completion =>
    obtain ⟨⟨o, c⟩, hcall, rfl⟩ := Option.map_eq_some_iff.mp hst
    exact ⟨o, c, hcall, rfl⟩
  | post =>
    obtain ⟨c, hc, rfl⟩ := Option.map_eq_some_iff.mp hst
    exact ⟨c, hc, rfl⟩
  | terminate =>
    obtain ⟨huncaught, heq⟩ := Option.ite_none_right_eq_some.mp hst
    exact ⟨huncaught, (Option.some.inj heq).symm⟩

/-- What is written, and what becomes of the process, does not matter to the main thread. -/
theorem Inv.of_process (h : s.Inv sslSupport script) (written : List Char) (process : Process) :
    ({ s with written, process } : Loop β).Inv sslSupport script :=
  ⟨h.served, h.handled_le, h.done, h.passed, h.early, h.begun, h.posting, h.once⟩

theorem Inv.post (h : s.Inv sslSupport script)
    (hst : s.step sslSupport endpoint port script .post = some s') : s'.Inv sslSupport script := by
  obtain ⟨-, c, hc, rfl⟩ := step_eq_some hst
  have hinv := h.served.inv.step hc
  simp only [Client.step] at hc
  split at hc
  swap
  · cases hc
  obtain ⟨t, ht, rfl⟩ := Option.map_eq_some_iff.mp hc
  obtain ⟨-, hlen⟩ := Threads.solo_step h.served.inv.threads h.served.solo rfl ht
  have hserved := h.served.onThreads rfl (m := s.client.posted + 1) hc hinv
    (hlen.resolve_right fun hn => by cases hn.1)
  have hpassed := h.passed
  dsimp only
  split
  · rename_i hpoint
    rw [hpoint] at hpassed hserved
    split
    · refine h.at (d := s.done) hserved rfl (by simp [hpoint, LoopPoint.todo]) ?_
        (by simp [hpoint, LoopPoint.Early]) (by simp)
      rw [LoopPoint.Passed, show s.taken = [] from hpassed]
      simp
    · rename_i hne
      exact h.at (d := s.done) hserved rfl (by simp [hpoint, LoopPoint.todo]) hpassed
        (by simp [hpoint, LoopPoint.Early]) fun _ => Nat.lt_of_le_of_ne hinv.posted hne
  · rename_i hpoint
    exact h.at (d := s.done) hserved rfl rfl hpassed .rfl fun hp => absurd hp hpoint

theorem Inv.step (h : s.Inv sslSupport script) {a : LoopStep}
    (hst : s.step sslSupport endpoint port script a = some s') : s'.Inv sslSupport script := by
  cases a with
  | main => exact h.goes (main_goes (step_eq_some hst).2)
  | post => exact h.post hst
  | deliver i completion =>
    obtain ⟨-, o, c, hcall, rfl⟩ := step_eq_some hst
    have hs := h.called (p := s.point) (d := s.done) hcall (fun hc => nomatch hc) rfl rfl h.passed
      (fun hp => ⟨hp, by simp⟩) (fun hp hs => absurd hs hp) fun hp => ⟨rfl, .inl hp⟩
    exact hs.of_process _ _
  | terminate =>
    obtain ⟨-, -, rfl⟩ := step_eq_some hst
    exact h.of_process _ _

theorem inv_of_reaches (h : (machine sslSupport endpoint port script).Reaches {} s) :
    s.Inv sslSupport script := by
  refine h.inv (fun s a o s' hs hst => ?_) inv_init
  obtain ⟨t, ht, he⟩ := Option.map_eq_some_iff.mp hst
  cases he
  exact hs.step ht

/-! ## Where the main thread stops -/

/-- A call of the connection that is defined can be made while the mutex is free. -/
theorem call_isSome {call : Connection.Call} (next : LoopPoint β) (d : List (Reaction β))
    (hposted : s.client.posted = s.client.connection.emitted.length)
    (hstep : (s.client.connection.step sslSupport call).isSome = true) :
    (s.call sslSupport call next d).isSome = true := by
  obtain ⟨⟨o, t⟩, ht⟩ := Option.isSome_iff_exists.mp hstep
  have hwired := (Machine.observe_step (f := Connection.Wire.after)
    (M := Connection.machine sslSupport) (t := s.client.wire)).mpr ⟨ht, rfl⟩
  rw [Loop.call, Client.call, if_pos fun _ => hposted, Option.isSome_map, Option.isSome_map]
  exact Option.isSome_iff_exists.mpr ⟨_, hwired⟩

/-- **Where the main thread stops** while no call has the mutex: behind the loop, by an exception
(only `set_endpoint` throws), where it sends data without a socket, or in `wait_event`, after it has
handled all events. -/
theorem Inv.stops (h : s.Inv sslSupport script)
    (hposted : s.client.posted = s.client.connection.emitted.length)
    (hstop : s.main sslSupport endpoint port script = none) :
    s.point = .ended ∨ s.point = .threw ∨
    (s.client.connection.transport = none ∧
      ∃ e data todo, s.point = .handling e (.send data :: todo)) ∨
    (∃ w, s.point = .waiting w) ∧ s.handled = s.client.connection.emitted.length := by
  have hserved := h.served
  cases hpoint : s.point with
  | ended => exact .inl rfl
  | threw => exact .inr (.inl rfl)
  | posting => exact absurd hposted (Nat.ne_of_lt (h.posting hpoint))
  | setEndpoint =>
    obtain ⟨hcur, -⟩ := h.early (.inl hpoint)
    simp only [Loop.main, hpoint] at hstop
    have hsome := s.call_isSome .connect s.done hposted
      (Connection.setEndpoint_isSome sslSupport endpoint port hcur)
    simp [hstop] at hsome
  | connect =>
    obtain ⟨hcur, -⟩ := h.early (.inr (.inl hpoint))
    simp only [Loop.main, hpoint] at hstop
    have hsome := s.call_isSome .posting s.done hposted
      (Connection.connect_isSome sslSupport hcur)
    simp [hstop] at hsome
  | head => simp [Loop.main, hpoint, Loop.wait, Client.onThreads, Threads.step] at hstop
  | handling e todo =>
    match todo with
    | [] | .out _ :: _ => simp [Loop.main, hpoint] at hstop
    | .send data :: todo =>
      refine .inr (.inr (.inl ⟨?_, e, data, todo, rfl⟩))
      by_contra hsock
      have hdefined : s.client.connection.step sslSupport (.sendRaw data) = some (.returned, _) :=
        Connection.step_sendRaw fun _ => Option.isSome_iff_ne_none.mpr hsock
      have hsome := s.call_isSome (.handling e todo) (s.done ++ [.send data]) hposted
        (Option.isSome_iff_exists.mpr ⟨_, hdefined⟩)
      simp only [Loop.main, hpoint] at hstop
      simp [hstop] at hsome
  | waiting w =>
    rw [hpoint] at hserved
    refine .inr (.inr (.inr ⟨⟨w, rfl⟩, ?_⟩))
    have hlt : w < s.client.threads.clients.waiters.length := by
      have hlast := hserved.last w rfl
      omega
    have hw := List.getElem?_eq_getElem hlt
    generalize s.client.threads.clients.waiters[w] = x at hw
    simp only [Loop.main, hpoint, hw, Option.bind_some] at hstop
    cases hphase : x.phase with
    | start | empty | leaving =>
      simp [hphase, Loop.wait, Client.onThreads, Threads.step, hw] at hstop
    | waiting =>
      cases hawaits : x.awaitsEvent with
      | false => simp [hphase, Loop.wait, Client.onThreads, Threads.step, hw, hawaits] at hstop
      | true => exact (hserved.asleep ⟨x, hw, hphase, hawaits⟩).trans hposted
    | returned r =>
      match r with
      | none => simp only [hphase, reduceCtorEq] at hstop
      | some (.other y) => exact y.elim
      | some (.connection k) =>
        obtain ⟨-, rfl, hk⟩ := hserved.next hw hphase
        have hemitted := hk.trans_le h.served.inv.posted
        simp [hphase, List.getElem?_eq_getElem hemitted] at hstop

end Loop

end Slirc
