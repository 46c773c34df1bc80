import Slirc.Connection.Transcript
import Slirc.EventManager.Ledger

/-!
# From the wire to the consumers

A connection puts its events on the main queue, and any number of threads take them from there. The
calls of a connection are made under its mutex, which is held until the events are on the queue: no
call begins before (`ClientStep.call`). Only `send_raw` takes no mutex; it is one step, and a call
of it that overlaps what another section does to the buffers is left out. Meanwhile the other
threads go on, and may put their own events on the queue, also in front of it.

* `Ticket`: an event of the connection is known by its number.
* `Client.taken`: what has left the deque, in order.
* `wire_delivered`: the events of the connection leave the deque in the order in which it emitted
  them, and each goes to one consumer. What has left, what is in the deque and what is not there
  yet is the transcript of the connection, and its lines are those of the streams of all sessions.
-/

namespace Slirc

open Connection (Wire View)

variable {α : Type}

/-- An event on the main queue: the `k`th of the connection, or another one. -/
inductive Ticket (α : Type) where
  | connection (k : Nat)
  | other (x : α)
  deriving DecidableEq, Repr

/-- The number of an event of the connection. -/
def Ticket.number : Ticket α → Option Nat
  | .connection k => some k
  | .other _ => none

/-- The connection with what its operations report, and the threads at the main queue. -/
structure Client (α : Type) where
  connection : Connection.Impl := {}
  wire : Wire := {}
  /-- The number of events of the connection that were put on the queue. -/
  posted : Nat := 0
  threads : Threads (Ticket α) := {}
  /-- What has left the deque, in order. -/
  taken : List (Ticket α) := []

inductive ClientStep (α : Type) where
  /-- A call of the connection, or one of its handlers. -/
  | call (call : Connection.Call)
  /-- The next event of the connection is put on the queue, within its call. -/
  | post (answers : Nat → Ticket α → Bool)
  /-- Another thread at the queue. -/
  | thread (a : ThreadStep (Ticket α))

/-- The step puts no event of the connection on the queue. -/
def ThreadStep.foreign (a : ThreadStep (Ticket α)) : Bool :=
  (a.front ++ a.back).all fun t => t.number.isNone

namespace Client

/-- A step at the queue. What leaves the deque leaves it in front. -/
def onThreads (s : Client α) (a : ThreadStep (Ticket α)) : Option (Client α) :=
  (s.threads.step a).map fun t =>
    { s with
      threads := t
      taken := s.taken ++ (a.front ++ s.threads.main.queue ++ a.back).take
        ((a.front ++ s.threads.main.queue ++ a.back).length - t.main.queue.length) }

/-- A call of the connection, which waits for its mutex if it takes it. -/
def call (sslSupport : Bool) (s : Client α) (call : Connection.Call) :
    Option (Connection.Outcome × Client α) :=
  if call.locks = true → s.posted = s.connection.emitted.length then
    ((Connection.wired sslSupport).step (s.connection, s.wire) call).map fun r =>
      (r.1, { s with connection := r.2.1, wire := r.2.2 })
  else none

def step (sslSupport : Bool) (s : Client α) : ClientStep α → Option (Client α)
  | .call call => (s.call sslSupport call).map (·.2)
  | .post answers =>
    if s.posted < s.connection.emitted.length then
      { s with posted := s.posted + 1 }.onThreads (.queue (.connection s.posted) answers)
    else none
  | .thread a => if a.foreign = true then s.onThreads a else none

def machine (sslSupport : Bool) : Machine (Client α) (ClientStep α) Unit :=
  ⟨fun s a => (s.step sslSupport a).map fun s' => ((), s')⟩

/-- The events of the connection among some events. -/
def events (s : Client α) (l : List (Ticket α)) : List Connection.Event :=
  l.filterMap fun t => t.number.bind fun k => s.connection.emitted[k]?

/-! ## The order of the events -/

/-- The events of the connection that are or were on the queue stand in their order; what has left
the deque went to the consumers. -/
structure Inv (sslSupport : Bool) (s : Client α) : Prop where
  wired : (Connection.wired sslSupport).Reaches ({}, {}) (s.connection, s.wire)
  threads : Threads.machine.Reaches {} s.threads
  posted : s.posted ≤ s.connection.emitted.length
  order : (s.taken ++ s.threads.main.queue).filterMap Ticket.number = List.range s.posted
  ledger : s.taken.Perm s.threads.clients.ledger

/-- What a step at the queue does. -/
theorem onThreads_moves {s s' : Client α} {a : ThreadStep (Ticket α)}
    (hs : Threads.machine.Reaches {} s.threads) (h : s.onThreads a = some s') :
    ∃ left, s' = { s with threads := s'.threads, taken := s.taken ++ left } ∧
      a.front ++ s.threads.main.queue ++ a.back = left ++ s'.threads.main.queue ∧
      s'.threads.clients.ledger.Perm (s.threads.clients.ledger ++ left) ∧
      Threads.machine.Reaches {} s'.threads := by
  obtain ⟨t, ht, rfl⟩ := Option.map_eq_some_iff.mp h
  obtain ⟨-, left, hq, htook⟩ := Threads.step_spec (Threads.inv_reaches hs).clients ht
  have hreach := hs.trans (.single (a := a) (o := ()) (Option.map_eq_some_iff.mpr ⟨t, ht, rfl⟩))
  refine ⟨left, ?_, hq, htook.ledger, hreach⟩
  rw [hq]
  simp

theorem Inv.onThreads {sslSupport : Bool} {s s' : Client α} {a : ThreadStep (Ticket α)}
    (hs : s.Inv sslSupport) {m : Nat} (hposted : m ≤ s.connection.emitted.length)
    (h : { s with posted := m }.onThreads a = some s')
    (hfront : a.front.filterMap Ticket.number = [])
    (hback : List.range s.posted ++ a.back.filterMap Ticket.number = List.range m) :
    s'.Inv sslSupport := by
  obtain ⟨left, hs', hq, hledger, hreach⟩ :=
    onThreads_moves (s := { s with posted := m }) hs.threads h
  rw [hs']
  refine ⟨hs.wired, hreach, hposted, ?_, (hs.ledger.append_right left).trans hledger.symm⟩
  have horder := hs.order
  rw [List.filterMap_append] at horder
  dsimp only
  rw [List.append_assoc, ← hq]
  simp only [List.filterMap_append, hfront, List.nil_append]
  rw [← List.append_assoc, horder, hback]

/-- A connection only adds to its events. -/
theorem emitted_extends {sslSupport : Bool} {s s' : Connection.Impl} {call : Connection.Call}
    {o : Connection.Outcome} (hs : (Connection.machine sslSupport).Reaches {} s)
    (hst : s.step sslSupport call = some (o, s')) : s.emitted <+: s'.emitted := by
  have hne := (Connection.reaches_walked hs).ne_changed (by decide)
  obtain ⟨more, hmore, -⟩ := (Connection.step_effect hst).walked hne
  exact ⟨more, hmore.symm⟩

/-- What a call of the connection does. -/
theorem call_eq_some {sslSupport : Bool} {s s' : Client α} {call : Connection.Call}
    {o : Connection.Outcome} (h : s.call sslSupport call = some (o, s')) :
    (call.locks = true → s.posted = s.connection.emitted.length) ∧
      s' = { s with connection := s'.connection, wire := s'.wire } ∧
      (Connection.wired sslSupport).step (s.connection, s.wire) call =
        some (o, (s'.connection, s'.wire)) := by
  unfold Client.call at h
  split at h
  · rename_i hall
    obtain ⟨⟨o, c, w⟩, hcall, he⟩ := Option.map_eq_some_iff.mp h
    cases he
    exact ⟨hall, rfl, hcall⟩
  · cases h

theorem call_step {sslSupport : Bool} {s s' : Client α} {call : Connection.Call}
    {o : Connection.Outcome} (h : s.call sslSupport call = some (o, s')) :
    s.connection.step sslSupport call = some (o, s'.connection) :=
  (Machine.observe_step.mp (call_eq_some h).2.2).1

theorem Inv.call {sslSupport : Bool} {s s' : Client α} (hs : s.Inv sslSupport)
    {call : Connection.Call} {o : Connection.Outcome}
    (h : s.call sslSupport call = some (o, s')) : s'.Inv sslSupport := by
  obtain ⟨-, hs', hcall⟩ := call_eq_some h
  have hle :=
    (emitted_extends (Machine.observe_reaches hs.wired) (call_step h)).length_le
  rw [hs']
  exact ⟨hs.wired.trans (.single hcall), hs.threads, hs.posted.trans hle, hs.order, hs.ledger⟩

theorem Inv.step {sslSupport : Bool} {s s' : Client α} (hs : s.Inv sslSupport)
    {a : ClientStep α} (hst : s.step sslSupport a = some s') : s'.Inv sslSupport := by
  cases a with
  | call call =>
    obtain ⟨⟨o, c⟩, hcall, rfl⟩ := Option.map_eq_some_iff.mp hst
    exact hs.call hcall
  | post answers =>
    simp only [Client.step] at hst
    split at hst
    · rename_i hlt
      refine hs.onThreads (m := s.posted + 1) hlt hst rfl ?_
      rw [List.range_succ]
      rfl
    · cases hst
  | thread a =>
    simp only [Client.step] at hst
    split at hst
    · rename_i hforeign
      have hnone : ∀ t ∈ a.front ++ a.back, t.number = none := fun t ht =>
        Option.isNone_iff_eq_none.mp (List.all_eq_true.mp hforeign t ht)
      refine hs.onThreads hs.posted hst ?_ ?_
      · exact List.filterMap_eq_nil_iff.mpr fun t ht => hnone t (List.mem_append_left _ ht)
      · rw [List.filterMap_eq_nil_iff.mpr fun t ht => hnone t (List.mem_append_right _ ht),
          List.append_nil]
    · cases hst

theorem inv_init (sslSupport : Bool) : ({} : Client α).Inv sslSupport :=
  ⟨.refl _, .refl _, Nat.le_refl 0, rfl, by simp [Clients.ledger, Clients.held, Clients.accepted]⟩

theorem inv_of_reaches {sslSupport : Bool} {s : Client α}
    (h : (machine sslSupport).Reaches {} s) : s.Inv sslSupport := by
  refine h.inv (fun s a o s' hs hst => ?_) (inv_init sslSupport)
  obtain ⟨t, ht, he⟩ := Option.map_eq_some_iff.mp hst
  cases he
  exact hs.step ht

/-! ## What the consumers get -/

/-- The events of the connection up to a number, by their numbers. -/
theorem filterMap_range {β : Type} (l : List β) {n : Nat} (hn : n ≤ l.length) :
    (List.range n).filterMap (l[·]?) = l.take n := by
  induction n with
  | zero => rfl
  | succ n ih =>
    rw [List.range_succ, List.filterMap_append, ih (Nat.le_of_succ_le hn), List.take_add_one]
    simp [List.getElem?_eq_getElem hn]

/-- **The deque keeps the order**: what has left it, what is in it, and what comes next. -/
theorem Inv.events {sslSupport : Bool} {s : Client α} (hs : s.Inv sslSupport) :
    s.events s.taken ++ s.events s.threads.main.queue ++ s.connection.emitted.drop s.posted =
      s.connection.emitted := by
  have hnumbers : s.events s.taken ++ s.events s.threads.main.queue =
      (List.range s.posted).filterMap (s.connection.emitted[·]?) := by
    rw [← hs.order, List.filterMap_filterMap, List.filterMap_append]
    rfl
  rw [hnumbers, filterMap_range _ hs.posted, List.take_append_drop]

/-- The lines among the events of the connection. -/
def lines (events : List Connection.Event) : List (List Char) :=
  events.filterMap (·.receivedData)

/-- The lines of all events are those of the streams. -/
theorem Inv.lines_emitted {sslSupport : Bool} {s : Client α} (hs : s.Inv sslSupport) :
    lines s.connection.emitted = s.wire.streams.reverse.flatMap ircFraming.lines := by
  have hread : (s.wire.streams.map ircFraming.lines).reverse.flatten = _ :=
    View.foldlM_sessions (v := {}) (fun hc => by cases hc)
      (Connection.told_of_reaches hs.wired).shows.1
  rw [← List.map_reverse, ← List.flatMap_def] at hread
  exact hread.symm

/-- **From the wire to the consumers.** In every run of a connection and any number of threads at
the main queue: the events of the connection leave the deque in the order in which they were
emitted, none is left out or comes twice, and what has left went to exactly one waiter or callback
each. The lines that have left, those in the deque and those not there yet are together the lines of
the streams of all sessions, in order. The consumers together see a part of the transcript that a
client can read; once nothing is on its way, they know the state, the lines of each session, and
what has failed. -/
theorem wire_delivered {sslSupport : Bool} {s : Client α}
    (h : (machine sslSupport).Reaches {} s) :
    (s.taken ++ s.threads.main.queue).filterMap Ticket.number = List.range s.posted ∧
    s.taken.Perm (s.threads.clients.held ++ s.threads.clients.accepted) ∧
    lines (s.events s.taken) ++ lines (s.events s.threads.main.queue) ++
      lines (s.connection.emitted.drop s.posted) =
        s.wire.streams.reverse.flatMap ircFraming.lines ∧
    ∃ v, (s.events s.taken).foldlM View.read {} = some v ∧
      (s.events s.threads.main.queue = [] → s.posted = s.connection.emitted.length →
        v = ⟨s.connection.curstate, s.wire.streams.map ircFraming.lines, s.wire.failures⟩) := by
  have hs := inv_of_reaches h
  have htranscript := (Connection.told_of_reaches hs.wired).shows.1
  refine ⟨hs.order, hs.ledger, ?_, ?_⟩
  · rw [lines, lines, lines, ← List.filterMap_append, ← List.filterMap_append, hs.events]
    exact hs.lines_emitted
  · rw [← hs.events, List.append_assoc, List.foldlM_append] at htranscript
    obtain ⟨v, hv, hrest⟩ := Option.bind_eq_some_iff.mp htranscript
    refine ⟨v, hv, fun hqueue hposted => ?_⟩
    rw [hqueue, hposted, List.drop_length] at hrest
    cases hrest
    rfl

/-- A connection is established and receives two lines. Three waiters take three of its events. -/
def session : List (ClientStep Nat) :=
  [.call (.setEndpoint ['h'] 0), .call .connect, .post fun _ _ => false,
    .call (.deliver 0 (.resolved [⟨['a'], 1⟩])), .call (.deliver 0 .succeeded),
    .post fun _ _ => false, .call (.deliver 0 (.received ['a', '\n', 'b', '\n'])),
    .post fun _ _ => false, .thread (.waitEvent false), .thread (.tryFront 0),
    .thread (.waitEvent false), .thread (.tryFront 1), .thread (.waitEvent false),
    .post fun _ _ => false, .thread (.tryFront 2)]

def delivered : Client Nat := (((machine true).run {} session).getD ([], {})).2

theorem wire_delivered_session :
    delivered.taken = [.connection 0, .connection 1, .connection 2] ∧
      delivered.taken.Perm
        (delivered.threads.clients.held ++ delivered.threads.clients.accepted) ∧
      lines (delivered.events delivered.taken) ++
        lines (delivered.events delivered.threads.main.queue) = [['a'], ['b']] ∧
      ((delivered.events delivered.taken).foldlM View.read {}).isSome = true := by
  have hreach : (machine true).Reaches {} delivered :=
    Machine.reaches_of_isSome (by decide +kernel) _
  obtain ⟨-, hledger, hlines, v, hv, -⟩ := wire_delivered hreach
  have hall : lines (delivered.connection.emitted.drop delivered.posted) = [] := by decide +kernel
  have hstreams : delivered.wire.streams.reverse.flatMap ircFraming.lines = [['a'], ['b']] := by
    decide +kernel
  rw [hall, hstreams, List.append_nil] at hlines
  exact ⟨by decide +kernel, hledger, hlines, Option.isSome_iff_exists.mpr ⟨v, hv⟩⟩

end Client

end Slirc
