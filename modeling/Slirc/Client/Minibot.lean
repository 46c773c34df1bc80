import Slirc.Client.MainLoop
import Slirc.EventManager.Handle
import Mathlib.Data.List.Infix

/-!
# The mini bot (`example/example.minibot.cpp`)

The example connects to a server, gives its name, prints every line that it receives, and answers
each ping. Its handlers are called by `handle`, for the ids of the events (`dispatched`).

* `script`: what the handlers do with an event. `replies`: what is sent for it.
* `Sends`: what the bot has sent, and what the connection has written of it.
* `minibot`: the bot prints the lines that the server sends, all of them before it ends, and answers
  them in order; what is written is what it has sent.

`send_raw` takes no mutex. A call of it that overlaps what a handler does to the buffers is left out
(`Slirc.Client.Delivery`).
-/

namespace Slirc

open Connection (Event State stateEvent lineEvent errorEvent receivedLine errorId View FirstSession)

namespace Minibot

/-- The ids as which `handle` handles an event, while its handlers do nothing to it. -/
def dispatched (idQueue : IdQueue) : List IdType :=
  let w : World Unit Empty := { events := fun _ => { idQueue } }
  (Exec.world
      (handle (fun k => k.elim) (fun _ _ => pure ()) (idQueue.queuedIds.length + 1) () w)).log
    |>.filterMap fun
      | .dispatch _ id _ => some id
      | _ => none

theorem dispatched_stateEvent (newstate : State) : dispatched (stateEvent newstate).idQueue =
    [Events.beginHandling, State.changed.id, newstate.id, Events.finishingHandling,
      Events.finishedHandling] := by
  cases newstate <;> decide

theorem dispatched_errorEvent (errorMessage : String) (errorCode : Connection.ErrorCode) :
    dispatched (errorEvent errorMessage errorCode).idQueue =
      [Events.beginHandling, errorId, Events.finishingHandling, Events.finishedHandling] :=
  (by decide : dispatched { queuedIds := [errorId], nextIdIndex := 0 } = _)

theorem dispatched_lineEvent (line : List Char) : dispatched (lineEvent line).idQueue =
    [Events.beginHandling, receivedLine, Events.finishingHandling, Events.finishedHandling] :=
  (by decide : dispatched { queuedIds := [receivedLine], nextIdIndex := 0 } = _)

/-! ## The handlers -/

def nick : List Char := "NICK slircbot_\r\n".toList

def user : List Char := "USER slircbot_ * * :libslIRC bot\r\n".toList

def join : List Char := "JOIN #php.bottest\r\n".toList

def privmsg : List Char := "PRIVMSG #php.bottest :".toList

/-- The handler of `received_line`: `out` is a line for `cout`. -/
def onLine (data : List Char) : List (Reaction (List Char)) :=
  [.out data] ++
  (if " 001 ".toList <:+: data then [.send join] else []) ++
  if data.take 5 = "PING ".toList then
    let pong := (data ++ "\r\n".toList).set 1 'O'
    [.send pong, .send (privmsg ++ pong)]
  else []

/-- The handlers of an id. Every `received_line` has its data. -/
def handler (e : Event) (id : IdType) : List (Reaction (List Char)) :=
  if id = State.connected.id then [.send nick, .send user]
  else if id = receivedLine then e.receivedData.elim [] onLine
  else []

/-- The loop ends after an event that was made as `disconnected`. -/
def script : Script (List Char) where
  reactions e := (dispatched e.idQueue).flatMap (handler e)
  last e := e.originalId = State.disconnected.id

def endpoint : List Char := "irc://irc.freenode.org:6667".toList

/-- The runs of the bot. -/
def machine (sslSupport : Bool) : Machine (Loop (List Char)) LoopStep Unit :=
  Loop.machine sslSupport endpoint 0 script

/-- The lines on the standard output. -/
def printed (l : List (Reaction (List Char))) : List (List Char) := l.filterMap fun
  | .out line => some line
  | .send _ => none

/-- The data that is sent. -/
def sent (l : List (Reaction (List Char))) : List (List Char) := l.filterMap fun
  | .send data => some data
  | .out _ => none

/-! ## What the bot replies -/

/-- What is sent for a line: a ping is answered, and the channel is told. -/
def answers (line : List Char) : List (List Char) :=
  (if " 001 ".toList <:+: line then [join] else []) ++
  match line with
  | 'P' :: 'I' :: 'N' :: 'G' :: ' ' :: x =>
    let pong := "PONG ".toList ++ x ++ "\r\n".toList
    [pong, privmsg ++ pong]
  | _ => []

/-- What is sent for an event. -/
def replies (e : Event) : List (List Char) :=
  if e = stateEvent .connected then [nick, user] else e.receivedData.elim [] answers

theorem printed_append (l l' : List (Reaction (List Char))) :
    printed (l ++ l') = printed l ++ printed l' := List.filterMap_append

theorem sent_append (l l' : List (Reaction (List Char))) : sent (l ++ l') = sent l ++ sent l' :=
  List.filterMap_append

theorem printed_onLine (line : List Char) : printed (onLine line) = [line] := by
  rw [onLine, printed_append, printed_append]
  split <;> split <;> rfl

theorem sent_onLine (line : List Char) : sent (onLine line) = answers line := by
  have hjoin : sent (if " 001 ".toList <:+: line then [.send join] else []) =
      if " 001 ".toList <:+: line then [join] else [] := by
    split <;> rfl
  rw [onLine, sent_append, sent_append, hjoin]
  unfold answers
  congr 1
  by_cases hping : line.take 5 = "PING ".toList
  · obtain ⟨x, rfl⟩ : ∃ x, line = 'P' :: 'I' :: 'N' :: 'G' :: ' ' :: x := by
      have hsplit := List.take_append_drop 5 line
      rw [hping] at hsplit
      exact ⟨line.drop 5, hsplit.symm⟩
    rfl
  · rw [if_neg hping]
    split
    · exact absurd rfl hping
    · rfl

/-- **What the handlers do with an event** of a connection: they print its line, if it has one, and
send what is replied to it. -/
theorem reactions_of_read {v v' : View} {e : Event} (h : v.read e = some v') :
    printed (script.reactions e) = e.receivedData.toList ∧
      sent (script.reactions e) = replies e := by
  rcases View.read_cases h with ⟨newstate, rfl, -⟩ | ⟨line, rfl, -⟩ | ⟨error, rfl, -⟩
  · have hscript : script.reactions (stateEvent newstate) = _ :=
      congrArg (List.flatMap (handler _)) (dispatched_stateEvent newstate)
    rw [hscript]
    cases newstate <;> decide
  · have hscript : script.reactions (lineEvent line) = _ :=
      congrArg (List.flatMap (handler _)) (dispatched_lineEvent line)
    have hone : [Events.beginHandling, receivedLine, Events.finishingHandling,
        Events.finishedHandling].flatMap (handler (lineEvent line)) = onLine line :=
      List.append_nil (onLine line)
    have hne : lineEvent line ≠ stateEvent .connected := fun heq => by
      cases heq
    rw [hscript, hone, printed_onLine, sent_onLine, replies, if_neg hne]
    exact ⟨rfl, rfl⟩
  · have hscript : script.reactions (errorEvent error.1 error.2) = _ :=
      congrArg (List.flatMap (handler _)) (dispatched_errorEvent error.1 error.2)
    have hnone : [Events.beginHandling, errorId, Events.finishingHandling,
        Events.finishedHandling].flatMap (handler (errorEvent error.1 error.2)) = [] := rfl
    have hne : errorEvent error.1 error.2 ≠ stateEvent .connected := fun heq => by
      cases heq
    rw [hscript, hnone, replies, if_neg hne]
    exact ⟨rfl, rfl⟩

/-! ## The socket of the bot -/

theorem parse_endpoint :
    Connection.Endpoint.parse endpoint 0 = some ⟨false, "irc.freenode.org".toList, 6667⟩ := by
  decide +kernel

theorem step_setEndpoint (sslSupport : Bool) :
    ({} : Connection.Impl).step sslSupport (.setEndpoint endpoint 0) = some (.returned,
      { hostname := "irc.freenode.org".toList, port := 6667, socket := some {} }) := by
  rw [Connection.Impl.step, Connection.setEndpoint_accepted rfl parse_endpoint (by simp)]
  rfl

/-- The endpoint of the bot is accepted, and gives it a plain socket. -/
def Plugged (s : Loop (List Char)) : Prop :=
  s.point = .setEndpoint ∧ s.client.connection = {} ∨
  s.point ≠ .setEndpoint ∧ s.point ≠ .threw ∧ s.client.connection.Plain

section Plugged

variable {sslSupport : Bool} {s s' : Loop (List Char)} {c : Client Empty}

/-- A call of the connection, after which the main thread is at some point. -/
theorem Plugged.called (h : Plugged s) {call : Connection.Call} {o : Connection.Outcome}
    (hs : s.point ≠ .setEndpoint) (hcall : ∀ endpoint port, call ≠ .setEndpoint endpoint port)
    (hst : s.client.call sslSupport call = some (o, c)) {p : LoopPoint (List Char)}
    (hp : p ≠ .setEndpoint ∧ p ≠ .threw) {d : List (Reaction (List Char))} :
    Plugged { s with client := c, point := p, done := d } := by
  obtain ⟨-, -, hplain⟩ := h.resolve_left fun hl => hs hl.1
  have hmembers := Connection.step_members hcall (Client.call_step hst)
  refine .inr ⟨hp.1, hp.2, ?_⟩
  rw [Connection.Impl.plain_iff] at hplain ⊢
  exact hmembers.trans hplain

/-- What is written, and what becomes of the process, does not matter to the socket. -/
theorem Plugged.of_process (h : Plugged s) (written : List Char) (process : Process) :
    Plugged { s with written, process } := h

/-- The main thread goes on without a call of the connection. -/
theorem Plugged.goes (h : Plugged s) {p : LoopPoint (List Char)} (hs : s.point ≠ .setEndpoint)
    (hconn : c.connection = s.client.connection) (hp : p ≠ .setEndpoint ∧ p ≠ .threw)
    {done : List (Reaction (List Char))} {handled : Nat} :
    Plugged { s with client := c, point := p, done, handled } := by
  obtain ⟨-, -, hplain⟩ := h.resolve_left fun hl => hs hl.1
  refine .inr ⟨hp.1, hp.2, ?_⟩
  rw [hconn]
  exact hplain

theorem onThreads_connection {a : ThreadStep (Ticket Empty)} {c c' : Client Empty}
    (h : c.onThreads a = some c') : c'.connection = c.connection := by
  obtain ⟨t, -, rfl⟩ := Option.map_eq_some_iff.mp h
  rfl

theorem Plugged.main (h : Plugged s) (hs : s.Inv sslSupport script)
    (hst : Loop.Goes sslSupport endpoint 0 script s s') : Plugged s' := by
  cases hst with
  | @setEndpoint o c hpoint hcall =>
    obtain ⟨-, hinit⟩ := h.resolve_right fun hr => hr.1 hpoint
    have hstep := Client.call_step hcall
    rw [hinit, step_setEndpoint] at hstep
    obtain ⟨rfl, hconn⟩ := Prod.mk.inj (Option.some.inj hstep)
    exact .inr ⟨by simp [Loop.follow], by simp [Loop.follow], hconn ▸ ⟨rfl, rfl⟩⟩
  | connect hpoint hcall =>
    obtain ⟨rfl, -⟩ := hs.connects hpoint hcall
    exact h.called (by simp [hpoint]) (by simp) hcall (by simp [Loop.follow])
  | waitEvent hpoint hc =>
    exact h.goes (by simp [hpoint]) (onThreads_connection hc) (by simp)
  | wait hpoint _ hc =>
    exact h.goes (by simp [hpoint]) (onThreads_connection hc) (by simp [hpoint])
  | gaveUp hpoint | take hpoint | out hpoint =>
    exact h.goes (by simp [hpoint]) rfl (by simp)
  | send hpoint hcall =>
    obtain rfl := Loop.sendRaw_returned hcall
    exact h.called (by simp [hpoint]) (by simp) hcall (by simp [Loop.follow])
  | @next e hpoint =>
    refine h.goes (by simp [hpoint]) rfl ?_
    cases script.last e <;> simp

theorem step_plugged (h : Plugged s) (hs : s.Inv sslSupport script) {a : LoopStep}
    (hst : s.step sslSupport endpoint 0 script a = some s') : Plugged s' := by
  cases a with
  | main => exact h.main hs (Loop.main_goes (Loop.step_eq_some hst).2)
  | deliver i completion =>
    obtain ⟨-, o, c, hcall, rfl⟩ := Loop.step_eq_some hst
    rcases h with ⟨-, hinit⟩ | h
    · -- nothing has been started
      have hstep := Client.call_step hcall
      rw [hinit] at hstep
      cases hstep
    · have hs' := Plugged.called (.inr h) (d := s.done) h.1 (by simp) hcall ⟨h.1, h.2.1⟩
      exact hs'.of_process _ _
  | post =>
    obtain ⟨-, c, hc, rfl⟩ := Loop.step_eq_some hst
    simp only [Client.step] at hc
    split at hc
    swap
    · cases hc
    rename_i hlt
    have hconn := onThreads_connection hc
    rcases h with ⟨-, hinit⟩ | h
    · simp [hinit] at hlt
    · refine Plugged.goes (.inr h) h.1 hconn ?_
      split
      · split <;> simp
      · exact ⟨h.1, h.2.1⟩
  | terminate =>
    obtain ⟨-, -, rfl⟩ := Loop.step_eq_some hst
    exact h.of_process _ _

end Plugged

/-! ## What the bot does -/

/-- What the handlers do with events that a client can read. -/
theorem reactions_of_foldlM {events : List Event} {v v' : View}
    (h : events.foldlM View.read v = some v') :
    printed (events.flatMap script.reactions) = Client.lines events ∧
      sent (events.flatMap script.reactions) = events.flatMap replies := by
  induction events generalizing v with
  | nil => exact ⟨rfl, rfl⟩
  | cons e events ih =>
    rw [List.foldlM_cons] at h
    obtain ⟨u, hu, hrest⟩ := Option.bind_eq_some_iff.mp h
    obtain ⟨hprinted, hsent⟩ := ih hrest
    obtain ⟨hline, hreplies⟩ := reactions_of_read hu
    rw [List.flatMap_cons, printed_append, sent_append, hline, hreplies, hprinted, hsent]
    refine ⟨?_, rfl⟩
    rw [Client.lines, Client.lines, List.filterMap_cons]
    cases e.receivedData <;> rfl

/-- The lines that the server has sent, in all sessions. -/
def received (s : Loop (List Char)) : List (List Char) :=
  s.client.wire.streams.reverse.flatMap ircFraming.lines

/-- The standard output. -/
def output (s : Loop (List Char)) : List (List Char) :=
  printed s.done ++ if s.point = .ended then ["disconnected".toList] else []

/-- **How far the bot has come**: what it still has to do with the event that it handles. -/
theorem done_todo {sslSupport : Bool} {s : Loop (List Char)} (h : s.Inv sslSupport script) :
    printed s.done ++ printed s.point.todo = Client.lines s.taken ∧
      sent s.done ++ sent s.point.todo = s.taken.flatMap replies := by
  have hread := (Connection.told_of_reaches h.served.inv.wired).shows.1
  rw [← List.take_append_drop s.handled s.client.connection.emitted, List.foldlM_append] at hread
  obtain ⟨v, hv, -⟩ := Option.bind_eq_some_iff.mp hread
  obtain ⟨hprinted, hsent⟩ := reactions_of_foldlM hv
  rw [← printed_append, ← sent_append, h.done]
  exact ⟨hprinted, hsent⟩

/-- When all events have been handled, the bot has printed all lines. -/
theorem done_of_handled {sslSupport : Bool} {s : Loop (List Char)} (h : s.Inv sslSupport script)
    (hall : s.handled = s.client.connection.emitted.length) (htodo : s.point.todo = []) :
    printed s.done = received s ∧ sent s.done = s.client.connection.emitted.flatMap replies := by
  have htaken : s.taken = s.client.connection.emitted := by
    rw [Loop.taken, hall, List.take_length]
  obtain ⟨hprinted, hsent⟩ := done_todo h
  rw [htodo, htaken] at hprinted hsent
  rw [received, ← h.served.inv.lines_emitted, ← hprinted, ← hsent]
  exact ⟨(List.append_nil _).symm, (List.append_nil _).symm⟩

/-- Behind the loop all events have been handled, and the last one has closed the connection. -/
theorem closed_of_over {sslSupport : Bool} {s : Loop (List Char)} (h : s.Inv sslSupport script)
    (hover : s.point = .ended) : s.handled = s.client.connection.emitted.length ∧
      s.client.connection.curstate = .disconnected := by
  have hpassed := h.passed
  rw [hover] at hpassed
  obtain ⟨⟨e, he, hlast⟩, -⟩ := hpassed
  have hcloses : e.Closes := of_decide_eq_true hlast
  have hmem : e ∈ s.taken := List.mem_of_getLast? he
  constructor
  · -- an event that closes the connection is the last one
    refine (Nat.lt_or_eq_of_le h.handled_le).resolve_left fun hlt => h.once.last e ?_ hcloses
    rw [List.dropLast_eq_take]
    exact (List.take_prefix_take_left (Nat.le_sub_one_of_lt hlt)).subset hmem
  · by_contra hcur
    exact (h.once.unclosed hcur).emitted e (List.mem_of_mem_take hmem) hcloses

/-- A connection that has begun, and has told of no end, is not disconnected. -/
theorem state_of_foldlM {events : List Event} {v v' : View}
    (h : events.foldlM View.read v = some v') (hevents : ∀ e ∈ events, ¬e.Closes)
    (hv : v.state ≠ .disconnected ∨ events ≠ []) : v'.state ≠ .disconnected := by
  induction events generalizing v with
  | nil =>
    cases h
    exact hv.resolve_right (by simp)
  | cons e events ih =>
    rw [List.foldlM_cons] at h
    obtain ⟨u, hu, hrest⟩ := Option.bind_eq_some_iff.mp h
    obtain ⟨he, hevents⟩ := List.forall_mem_cons.mp hevents
    refine ih hrest hevents (.inl ?_)
    rcases View.read_cases hu with
      ⟨newstate, rfl, -, rfl⟩ | ⟨line, -, hc, rfl⟩ | ⟨error, -, hc, rfl⟩
    · exact fun hnew => he (Connection.stateEvent_closes.mpr hnew)
    · simp [View.addLines, hc]
    · rcases hc with hc | hc <;> simp [View.addError, hc]

/-! ## What is written -/

theorem replies_eq_nil {e : Event} (h : e.Quiet) : replies e = [] := by
  obtain ⟨hdata, hne⟩ := h
  rw [replies, if_neg hne, hdata]
  rfl

/-- What the bot has sent, and what the connection has written. A handler of the connection throws
only while the connection is being established, and nothing is outstanding then. -/
structure Sends (s : Loop (List Char)) : Prop where
  session : FirstSession s.client.connection (sent s.done).flatten s.written
  thrown : s.process ≠ .running →
    s.client.connection.curstate = .connecting ∧ s.client.connection.operations = []

section Sends

variable {sslSupport : Bool} {s s' : Loop (List Char)} {c : Client Empty}

/-- The bot goes on, and the connection stays as it is. -/
theorem Sends.goes (h : Sends s) (hconn : c.connection = s.client.connection)
    {p : LoopPoint (List Char)} {done : List (Reaction (List Char))}
    (hdone : sent done = sent s.done) {handled : Nat} :
    Sends { s with client := c, point := p, done, handled } := by
  constructor
  · rw [hconn, hdone]
    exact h.session
  · rw [hconn]
    exact h.thrown

/-- The bot sends data only for an event that is answered. -/
theorem loud_of_todo (hs : s.Inv sslSupport script) {e : Event} {data : List Char}
    {todo : List (Reaction (List Char))} (hpoint : s.point = .handling e (.send data :: todo)) :
    ∃ e ∈ s.client.connection.emitted, ¬e.Quiet := by
  obtain ⟨-, hsent⟩ := done_todo hs
  have hmem : data ∈ s.taken.flatMap replies := by
    rw [← hsent, hpoint]
    exact List.mem_append_right _ List.mem_cons_self
  obtain ⟨e, he, hdata⟩ := List.mem_flatMap.mp hmem
  refine ⟨e, List.mem_of_mem_take he, fun hquiet => ?_⟩
  rw [replies_eq_nil hquiet] at hdata
  cases hdata

theorem Sends.main (h : Sends s) (hs : s.Inv sslSupport script) (hplugged : Plugged s)
    (hst : Loop.Goes sslSupport endpoint 0 script s s') : Sends s' := by
  cases hst with
  | @setEndpoint o c hpoint hcall =>
    obtain ⟨hcur, -⟩ := hs.early (.inl hpoint)
    refine ⟨h.session.setEndpoint (Client.call_step hcall), fun hthrown => ?_⟩
    exact absurd (hcur.symm.trans (h.thrown hthrown).1) (by simp)
  | @connect o c hpoint hcall =>
    obtain ⟨hcur, hnone⟩ := hs.early (.inr (.inl hpoint))
    obtain ⟨-, -, hplain⟩ := hplugged.resolve_left fun hl => by simp [hpoint] at hl
    refine ⟨h.session.connect hplain hnone (Client.call_step hcall), fun hthrown => ?_⟩
    exact absurd (hcur.symm.trans (h.thrown hthrown).1) (by simp)
  | waitEvent _ hc | wait _ _ hc => exact h.goes (onThreads_connection hc) rfl
  | gaveUp | take | next => exact h.goes rfl rfl
  | out => exact h.goes rfl (by simp [sent])
  | @send e data todo o c hpoint hcall =>
    have hloud := loud_of_todo hs hpoint
    constructor
    · have hsession := h.session.sendRaw hloud (Client.call_step hcall)
      simpa [sent_append, sent] using hsession
    · intro hthrown
      obtain ⟨e, he, hne⟩ := hloud
      exact absurd (h.session.quiet (h.thrown hthrown).1 e he) hne

theorem step_sends (h : Sends s) (hs : s.Inv sslSupport script) (hplugged : Plugged s)
    {a : LoopStep} (hst : s.step sslSupport endpoint 0 script a = some s') : Sends s' := by
  cases a with
  | main => exact h.main hs hplugged (Loop.main_goes (Loop.step_eq_some hst).2)
  | deliver i completion =>
    obtain ⟨-, o, c, hcall, rfl⟩ := Loop.step_eq_some hst
    have hstep := Client.call_step hcall
    obtain ⟨hsession, ho⟩ := h.session.deliver hstep
    refine ⟨hsession, fun hthrown => ?_⟩
    rcases ho with rfl | ho
    · -- nothing was outstanding, if a handler had thrown before
      obtain ⟨-, hnone⟩ := h.thrown hthrown
      generalize c.connection = t at hstep
      cases Connection.step_effect hstep with
      | deliver hx => simp [hnone] at hx
    · exact ho
  | post =>
    obtain ⟨-, c, hc, rfl⟩ := Loop.step_eq_some hst
    simp only [Client.step] at hc
    split at hc
    · have hconn := onThreads_connection hc
      exact h.goes hconn rfl
    · cases hc
  | terminate =>
    obtain ⟨-, huncaught, rfl⟩ := Loop.step_eq_some hst
    refine ⟨h.session, fun _ => h.thrown fun hrunning => ?_⟩
    -- nothing else is thrown: `main` does not throw
    have hthrew : s.point = .threw := by
      unfold Loop.uncaught at huncaught
      split at huncaught
      · rename_i hunwinding
        cases hrunning.symm.trans hunwinding
      · assumption
      · cases huncaught
    rcases hplugged with ⟨hpoint, -⟩ | ⟨-, hne, -⟩
    · exact absurd (hpoint.symm.trans hthrew) (by simp)
    · exact hne hthrew

end Sends

theorem sends_of_reaches {sslSupport : Bool} {s : Loop (List Char)}
    (h : (machine sslSupport).Reaches {} s) : Plugged s ∧ Sends s := by
  have hall : s.Inv sslSupport script ∧ Plugged s ∧ Sends s := by
    refine h.inv (P := fun s => s.Inv sslSupport script ∧ Plugged s ∧ Sends s)
      (fun s a o s' hs hst => ?_) ⟨Loop.inv_init, .inl ⟨rfl, rfl⟩, ?_⟩
    · obtain ⟨t, ht, he⟩ := Option.map_eq_some_iff.mp hst
      cases he
      exact ⟨hs.1.step ht, step_plugged hs.2.1 hs.1 ht, step_sends hs.2.2 hs.1 hs.2.1 ht⟩
    · exact ⟨.before rfl rfl rfl rfl rfl rfl, fun hne => absurd rfl hne⟩
  exact hall.2

/-! ## The bot -/

theorem eq_nil_of_filtered {l : List (Reaction (List Char))} (hprinted : printed l = [])
    (hsent : sent l = []) : l = [] := by
  cases l with
  | nil => rfl
  | cons r l =>
    cases r with
    | send data => cases hsent
    | out line => cases hprinted

/-- Before anything was told that could be answered, nothing was received. -/
theorem nothing_of_quiet {sslSupport : Bool} {s : Loop (List Char)} (hs : s.Inv sslSupport script)
    (hquiet : ∀ e ∈ s.client.connection.emitted, e.Quiet) :
    received s = [] ∧ s.client.connection.emitted.flatMap replies = [] := by
  rw [received, ← hs.served.inv.lines_emitted]
  exact ⟨List.filterMap_eq_nil_iff.mpr fun e he => (hquiet e he).1,
    List.flatMap_eq_nil_iff.mpr fun e he => replies_eq_nil (hquiet e he)⟩

/-- **Where the main thread cannot go on**: behind the loop, or in `wait_event`, with everything
done that was to be done. -/
theorem stops_of_main {sslSupport : Bool} {s : Loop (List Char)} (hs : s.Inv sslSupport script)
    (hplugged : Plugged s) (hposted : s.client.posted = s.client.connection.emitted.length)
    (hstop : s.main sslSupport endpoint 0 script = none) :
    s.point = .ended ∨
      (∃ w, s.point = .waiting w) ∧ output s = received s ∧
      sent s.done = s.client.connection.emitted.flatMap replies ∧
      s.client.connection.curstate ≠ .disconnected := by
  rcases hs.stops hposted hstop with hover | hthrew | ⟨hsock, e, data, todo, hpoint⟩ |
    ⟨⟨w, hpoint⟩, hall⟩
  · exact .inl hover
  · rcases hplugged with ⟨hpoint, -⟩ | ⟨-, hne, -⟩
    · exact absurd (hpoint.symm.trans hthrew) (by simp)
    · exact absurd hthrew hne
  · rcases hplugged with ⟨hpoint', -⟩ | ⟨-, -, hplain⟩
    · exact absurd (hpoint.symm.trans hpoint') (by simp)
    · exact absurd (hsock.symm.trans hplain.1) (by simp)
  · obtain ⟨hlines, hreplies⟩ := done_of_handled hs hall (by rw [hpoint]; rfl)
    refine .inr ⟨⟨w, hpoint⟩, ?_, hreplies, ?_⟩
    · rw [output, if_neg (by simp [hpoint]), hlines]
      exact List.append_nil _
    · have hpassed := hs.passed
      rw [hpoint, Loop.taken, hall, List.take_length] at hpassed
      have hread := (Connection.told_of_reaches hs.served.inv.wired).shows.1
      refine state_of_foldlM hread (fun e he hcloses => ?_) (.inr (hs.begun ?_))
      · have hlast : script.last e = true := decide_eq_true hcloses
        rw [hpassed e he] at hlast
        cases hlast
      · simp [hpoint, LoopPoint.Early]

/-- **The bot.** In every run, whatever the network does and in whatever order the threads go on:
the bot prints lines that the server has sent, in order, and replies to them in order, and to its
connection. What is written is what it has sent, from the beginning; while it is connected, the rest
is in the buffers, and a write is outstanding if there is a rest. It ends only when it is
disconnected, and then it has printed every line. The process is terminated only by a failure
to connect, before the bot has done anything. Where the bot cannot go on, it was terminated, it has
ended, or it waits for an event, has printed every line that has come, and is not disconnected. -/
theorem minibot {sslSupport : Bool} {s : Loop (List Char)} (h : (machine sslSupport).Reaches {} s) :
    printed s.done <+: received s ∧
    sent s.done <+: s.client.connection.emitted.flatMap replies ∧
    s.written <+: (sent s.done).flatten ∧
    (s.client.connection.curstate = .connected →
      (sent s.done).flatten = s.written ++ s.client.connection.buffers.unsent ∧
      (s.client.connection.core.writes = [] → s.client.connection.buffers.unsent = [])) ∧
    (s.point = .ended → output s = received s ++ ["disconnected".toList] ∧
      sent s.done = s.client.connection.emitted.flatMap replies ∧
      s.client.connection.curstate = .disconnected) ∧
    (s.process ≠ .running → s.client.connection.curstate = .connecting ∧ received s = [] ∧
      s.done = []) ∧
    (s.client.posted = s.client.connection.emitted.length →
      s.step sslSupport endpoint 0 script .main = none →
        s.process = .terminated ∨ s.point = .ended ∨
        (∃ w, s.point = .waiting w) ∧ output s = received s ∧
        sent s.done = s.client.connection.emitted.flatMap replies ∧
        s.client.connection.curstate ≠ .disconnected) := by
  have hs : s.Inv sslSupport script := Loop.inv_of_reaches h
  obtain ⟨hplugged, hsends⟩ := sends_of_reaches h
  obtain ⟨hprinted, hsent⟩ := done_todo hs
  have htaken : s.taken <+: s.client.connection.emitted := List.take_prefix _ _
  have hlines : printed s.done <+: received s := by
    rw [received, ← hs.served.inv.lines_emitted]
    exact (hprinted ▸ List.prefix_append _ _).trans (htaken.filterMap _)
  have hreplies : sent s.done <+: s.client.connection.emitted.flatMap replies := by
    obtain ⟨more, hmore⟩ := htaken
    rw [← hmore, List.flatMap_append, ← hsent, List.append_assoc]
    exact List.prefix_append _ _
  refine ⟨hlines, hreplies, hsends.session.written_prefix, hsends.session.sent, fun hover => ?_,
    fun hthrown => ?_, fun hposted hstop => ?_⟩
  · obtain ⟨hall, hcur⟩ := closed_of_over hs hover
    obtain ⟨hlines, hreplies⟩ := done_of_handled hs hall (by rw [hover]; rfl)
    rw [output, if_pos hover, hlines]
    exact ⟨rfl, hreplies, hcur⟩
  · obtain ⟨hcur, -⟩ := hsends.thrown hthrown
    obtain ⟨hnone, hnothing⟩ := nothing_of_quiet hs (hsends.session.quiet hcur)
    refine ⟨hcur, hnone, eq_nil_of_filtered (List.prefix_nil.mp (hnone ▸ hlines)) ?_⟩
    exact List.prefix_nil.mp (hnothing ▸ hreplies)
  · by_cases hprocess : s.process = .terminated
    · exact .inl hprocess
    rw [Loop.step, if_neg hprocess] at hstop
    exact .inr (stops_of_main hs hplugged hposted hstop)

/-- The bot gives its name, of which the first line is written, and answers a ping. -/
def session : List LoopStep :=
  [.main, .main, .post, .deliver 0 (.resolved [⟨['a'], 1⟩]), .deliver 0 .succeeded, .post] ++
    List.replicate 12 .main ++
  [.deliver 1 (.transferred 16), .deliver 0 (.received "PING x\r\n".toList), .post] ++
    List.replicate 11 .main

def answered : Loop (List Char) := (((machine true).run {} session).getD ([], {})).2

theorem minibot_answered :
    received answered = ["PING x".toList] ∧ output answered = received answered ∧
    sent answered.done = [nick, user, "PONG x\r\n".toList, privmsg ++ "PONG x\r\n".toList] ∧
    answered.written = nick ∧
    (sent answered.done).flatten = answered.written ++ answered.client.connection.buffers.unsent ∧
    answered.client.connection.curstate ≠ .disconnected := by
  have hreach : (machine true).Reaches {} answered :=
    Machine.reaches_of_isSome (by decide +kernel) _
  obtain ⟨-, -, -, hconnected, -, -, hstop⟩ := minibot hreach
  have hrest := (hstop (by decide +kernel) (by decide +kernel)).resolve_left (by decide +kernel)
  obtain ⟨-, hlines, hreplies, hcur⟩ := hrest.resolve_left (by decide +kernel)
  obtain ⟨hsent, -⟩ := hconnected (by decide +kernel)
  exact ⟨by decide +kernel, hlines, hreplies.trans (by decide +kernel), by decide +kernel, hsent,
    hcur⟩

end Minibot

end Slirc
