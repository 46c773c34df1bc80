import Slirc.Connection.Lines
import Slirc.Connection.StateChanges

/-!
# The transcript of a connection

The events on the main queue are all that a client sees of a connection. A client that reads them in
order (`View.read`) finds each of them in its place, and knows the state of the connection, the
lines of every session, and what has failed.

* `Wire`: what the operations report, observed along the run (`wired`): the stream of each session,
  and the failures.
* `Shows`: what a client knows after all events.
* `transcript`: after every run it knows the state, for each session the lines of its stream, and
  the failures.
-/

namespace Slirc.Connection

open Program

/-! ## The client -/

/-- What a client knows: the state, the lines of the sessions (the last one first), the errors. -/
structure View where
  state : State := .disconnected
  sessions : List (List (List Char)) := []
  errors : List (String × ErrorCode) := []
  deriving DecidableEq, Repr

namespace View

def enter (v : View) (newstate : State) : View :=
  { v with
    state := newstate
    sessions := if newstate = .connected then [] :: v.sessions else v.sessions }

/-- More of the last session. -/
def extend {α : Type} (more : List α) : List (List α) → List (List α)
  | [] => []
  | last :: before => (last ++ more) :: before

def addLines (v : View) (lines : List (List Char)) : View :=
  { v with sessions := extend lines v.sessions }

def addError (v : View) (error : String × ErrorCode) : View :=
  { v with errors := v.errors ++ [error] }

/-- The client reads an event. It takes a state that may follow the one before, a line in a session,
and an error in a session or on the way to one; and it looks at the whole event, with the ids that
it will be handled as. -/
def read (v : View) (e : Event) : Option View :=
  match e.newstate, e.receivedData, e.errorInfo with
  | some newstate, none, none =>
    if e = stateEvent newstate ∧ Legal v.state newstate then some (v.enter newstate) else none
  | none, some line, none =>
    if e = lineEvent line ∧ v.state = .connected then some (v.addLines [line]) else none
  | none, none, some error =>
    if e = errorEvent error.1 error.2 ∧ (v.state = .connecting ∨ v.state = .connected) then
      some (v.addError error)
    else none
  | _, _, _ => none

@[simp] theorem extend_nil {α : Type} (sessions : List (List α)) :
    extend [] sessions = sessions := by
  cases sessions <;> simp [extend]

theorem extend_append {α : Type} (l l' : List α) (sessions : List (List α)) :
    extend (l ++ l') sessions = extend l' (extend l sessions) := by
  cases sessions <;> simp [extend]

theorem read_state {v : View} {newstate : State} (h : Legal v.state newstate) :
    v.read (stateEvent newstate) = some (v.enter newstate) := by
  have hnew : (stateEvent newstate).newstate = some newstate := by cases newstate <;> rfl
  unfold read
  rw [hnew]
  exact if_pos ⟨rfl, h⟩

theorem read_error {v : View} (h : v.state = .connecting ∨ v.state = .connected)
    (errorMessage : String) (errorCode : ErrorCode) :
    v.read (errorEvent errorMessage errorCode) = some (v.addError (errorMessage, errorCode)) :=
  if_pos ⟨rfl, h⟩

theorem read_line {v : View} (h : v.state = .connected) (line : List Char) :
    v.read (lineEvent line) = some (v.addLines [line]) :=
  if_pos ⟨rfl, h⟩

theorem read_lines {v : View} (h : v.state = .connected) (lines : List (List Char)) :
    (lines.map lineEvent).foldlM read v = some (v.addLines lines) := by
  induction lines generalizing v with
  | nil => simp [addLines]
  | cons line lines ih =>
    rw [List.map_cons, List.foldlM_cons, read_line h]
    refine (ih (v := v.addLines [line]) h).trans ?_
    simp [addLines, ← extend_append]

/-- What an event is that can be read. -/
theorem read_cases {v v' : View} {e : Event} (h : v.read e = some v') :
    (∃ newstate, e = stateEvent newstate ∧ Legal v.state newstate ∧ v' = v.enter newstate) ∨
    (∃ line, e = lineEvent line ∧ v.state = .connected ∧ v' = v.addLines [line]) ∨
    ∃ error : String × ErrorCode, e = errorEvent error.1 error.2 ∧
      (v.state = .connecting ∨ v.state = .connected) ∧ v' = v.addError error := by
  unfold read at h
  split at h
  · obtain ⟨hread, hv'⟩ := Option.ite_none_right_eq_some.mp h
    exact .inl ⟨_, hread.1, hread.2, (Option.some.inj hv').symm⟩
  · obtain ⟨hread, hv'⟩ := Option.ite_none_right_eq_some.mp h
    exact .inr (.inl ⟨_, hread.1, hread.2, (Option.some.inj hv').symm⟩)
  · obtain ⟨hread, hv'⟩ := Option.ite_none_right_eq_some.mp h
    exact .inr (.inr ⟨_, hread.1, hread.2, (Option.some.inj hv').symm⟩)
  · cases h

/-- A client in a session has begun it. -/
def Begun (v : View) : Prop := v.state = .connected → v.sessions ≠ []

/-- What an event brings to the lines of the sessions. -/
theorem read_sessions {v v' : View} {e : Event} (hv : v.Begun) (h : v.read e = some v') :
    v'.Begun ∧
      v'.sessions.reverse.flatten = v.sessions.reverse.flatten ++ e.receivedData.toList := by
  rcases read_cases h with ⟨newstate, rfl, -, rfl⟩ | ⟨line, rfl, hc, rfl⟩ | ⟨error, rfl, -, rfl⟩
  · refine ⟨fun hc => ?_, ?_⟩
    · have hnew : newstate = .connected := hc
      simp [enter, hnew]
    · simp only [stateEvent, enter]
      split <;> simp
  · obtain ⟨last, before, hsessions⟩ := List.exists_cons_of_ne_nil (hv hc)
    simp [Begun, addLines, extend, lineEvent, hsessions]
  · exact ⟨hv, by simp [addError, errorEvent]⟩

/-- The lines of the sessions are those of the events, in order. -/
theorem foldlM_sessions {events : List Event} {v v' : View} (hv : v.Begun)
    (h : events.foldlM read v = some v') :
    v'.sessions.reverse.flatten =
      v.sessions.reverse.flatten ++ events.filterMap (·.receivedData) := by
  induction events generalizing v with
  | nil =>
    cases h
    simp
  | cons e events ih =>
    obtain ⟨v₁, he, hrest⟩ := Option.bind_eq_some_iff.mp ((List.foldlM_cons ..).symm.trans h)
    obtain ⟨hv₁, hlines⟩ := read_sessions hv he
    rw [ih hv₁ hrest, hlines, List.append_assoc]
    cases hdata : e.receivedData <;> simp [hdata]

end View

/-! ## What is reported -/

/-- What the message of a failure begins with. -/
def Operation.failureText : Operation → String
  | .resolve _ _ => "Name lookup failed: "
  | .connect _ => "Connection failed: "
  | .handshake => "SSL handshake failed: "
  | .read => "Connection failed: "
  | .write _ => "Sending data failed: "

/-- The failure that a call reports to a handler in the state that it tests. -/
def Impl.failure (s : Impl) : Call → List (String × ErrorCode)
  | .deliver i (.failed error) =>
    match s.operations[i]? with
    | some x =>
      if s.curstate = x.operation.expects then
        [(x.operation.failureText ++ error.message, error)]
      else []
    | none => []
  | _ => []

/-- What the operations have reported: the bytes of each session, the last one first, and the
failures. -/
structure Wire where
  streams : List (List Char) := []
  failures : List (String × ErrorCode) := []
  deriving DecidableEq, Repr

def Wire.after (s : Impl) (call : Call) (s' : Impl) (w : Wire) : Wire where
  streams :=
    if s'.curstate = .connected then
      if s.curstate = .connected then View.extend call.bytes w.streams else [] :: w.streams
    else w.streams
  failures := w.failures ++ s.failure call

/-- The runs of a connection, with what the operations report. -/
def wired (sslSupport : Bool) : Machine (Impl × Wire) Call Outcome :=
  (machine sslSupport).observe Wire.after

/-- They are the runs of the connection. -/
theorem wired_run (sslSupport : Bool) (s : Impl) (w : Wire) (calls : List Call) :
    ((wired sslSupport).run (s, w) calls).map (fun r => (r.1, r.2.1)) =
      (machine sslSupport).run s calls :=
  Machine.observe_run ..

/-- No session begins, and none goes on. -/
theorem Wire.after_streams {s s' : Impl} {call : Call} {w : Wire}
    (hs : s'.curstate = .connected → s.curstate = .connected ∧ call.bytes = []) :
    (w.after s call s').streams = w.streams := by
  simp only [Wire.after]
  split
  · rename_i hs'
    obtain ⟨hc, hnil⟩ := hs hs'
    rw [if_pos hc, hnil, View.extend_nil]
  · rfl

/-! ## What a step shows -/

/-- A client that has read all events knows this. -/
def Shows (s : Impl) (v : View) : Prop :=
  s.emitted.foldlM View.read {} = some v ∧ v.state = s.curstate

namespace Shows

variable {s s' : Impl} {v : View}

theorem of_eq (h : Shows s v) (hemitted : s'.emitted = s.emitted)
    (hcur : s'.curstate = s.curstate) : Shows s' v :=
  ⟨by rw [hemitted, h.1], by rw [hcur, h.2]⟩

theorem emitting {v' : View} {events : List Event} (h : Shows s v)
    (hread : events.foldlM View.read v = some v') (hv : v'.state = v.state) :
    Shows (s.emitting events) v' := by
  refine ⟨?_, hv.trans h.2⟩
  rw [Impl.emitting_emitted, List.foldlM_append, h.1]
  exact hread

theorem enter {newstate : State} (h : Shows s v) (hlegal : Legal s.curstate newstate) :
    Shows (s.enter newstate) (v.enter newstate) := by
  refine ⟨?_, rfl⟩
  have hread := View.read_state (v := v) (h.2 ▸ hlegal)
  simp [List.foldlM_append, h.1, hread]

theorem error (h : Shows s v) (hs : s.curstate = .connecting ∨ s.curstate = .connected)
    (errorMessage : String) (errorCode : ErrorCode) :
    Shows (s.emitting [errorEvent errorMessage errorCode])
      (v.addError (errorMessage, errorCode)) := by
  have hread := View.read_error (v := v) (h.2 ▸ hs) errorMessage errorCode
  exact h.emitting (by simp [hread]) rfl

theorem teardown {o : Outcome} (h : Shows s v) (hdown : Teardown s o s')
    (hs : Legal s.curstate .disconnected) : Shows s' { v with state := s'.curstate } := by
  cases hdown with
  | missing | closed =>
    rw [← h.2]
    exact h
  | done sock =>
    have hclear : Shows (s.setOpen sock false).cleared v := h.of_eq (by simp) (by simp)
    exact hclear.enter (by simpa using hs)

theorem tryNext {o : Outcome} (h : Shows s v) (hnext : TryNext s o s')
    (hs : s.curstate = .connecting) : Shows s' { v with state := s'.curstate } := by
  have hlegal : Legal s.curstate .disconnected := by simp [hs, Legal, State.predecessors]
  cases hnext with
  | exhausted _ hdown => exact h.teardown hdown hlegal
  | missing =>
    rw [← h.2]
    exact h
  | @next endpoint rest sock =>
    have hsame : Shows (s.trying sock endpoint rest) v :=
      h.of_eq (by simp [Impl.trying]) (by simp [Impl.trying])
    rw [← hsame.2]
    exact hsame

theorem established (h : Shows s v) (hs : s.curstate = .connecting) :
    Shows s.established (v.enter .connected) := by
  have hclear : Shows s.cleared v := h.of_eq rfl rfl
  have hlegal : Legal s.cleared.curstate .connected := by
    show Legal s.curstate .connected
    rw [hs]
    decide
  exact (hclear.enter hlegal).of_eq rfl rfl

end Shows

/-! ## All runs -/

/-- What a client knows is what was reported, and `recv_buffer` holds the unfinished line of the
session. -/
structure Told (s : Impl) (w : Wire) : Prop where
  shows : Shows s ⟨s.curstate, w.streams.map ircFraming.lines, w.failures⟩
  stream : s.curstate = .connected → ∃ stream before, w.streams = stream :: before ∧
    s.buffers.recvBuffer = ircFraming.rest stream

namespace Told

variable {s s' : Impl} {w : Wire} {call : Call}

/-- A step in which no session begins, and which reports nothing to one. -/
theorem of_shows (h : Told s w)
    (hshows : Shows s' ⟨s'.curstate, w.streams.map ircFraming.lines, w.failures ++ s.failure call⟩)
    (hs : s'.curstate = .connected → s.curstate = .connected ∧ call.bytes = [] ∧
      s'.buffers.recvBuffer = s.buffers.recvBuffer) : Told s' (w.after s call s') := by
  have hstreams := Wire.after_streams (w := w) fun hs' => ⟨(hs hs').1, (hs hs').2.1⟩
  refine ⟨by rw [hstreams]; exact hshows, fun hs' => ?_⟩
  obtain ⟨hc, -, hrecv⟩ := hs hs'
  rw [hrecv, hstreams]
  exact h.stream hc

/-- A step that a client does not see. -/
theorem quiet (h : Told s w) (hfailure : s.failure call = []) (hbytes : call.bytes = [])
    (hemitted : s'.emitted = s.emitted) (hcur : s'.curstate = s.curstate)
    (hrecv : s'.buffers.recvBuffer = s.buffers.recvBuffer) : Told s' (w.after s call s') := by
  refine h.of_shows ?_ fun hs' => ⟨hcur ▸ hs', hbytes, hrecv⟩
  rw [hfailure, List.append_nil, hcur]
  exact h.shows.of_eq hemitted hcur

/-- A session begins. -/
theorem established {t : Impl} (hfailure : s.failure call = []) (hs : s.curstate = .connecting)
    (ht : Shows t ⟨s.curstate, w.streams.map ircFraming.lines, w.failures⟩)
    (htc : t.curstate = .connecting) : Told t.established (w.after s call t.established) := by
  have hnew : (w.after s call t.established).streams = [] :: w.streams := by
    have hc : t.established.curstate = .connected := rfl
    simp [Wire.after, hc, hs]
  refine ⟨?_, fun _ => ⟨[], w.streams, hnew, ?_⟩⟩
  · have hshows := ht.established htc
    rw [hnew]
    have hc : t.established.curstate = .connected := rfl
    simp only [Wire.after, hfailure, List.append_nil, hc]
    simpa [View.enter, Framing.lines] using hshows
  · simp [Impl.established, Impl.cleared, Buffers.clear, Framing.rest]

/-- A read reports bytes to its session. -/
theorem reading (h : Told s w) (hs : s.curstate = .connected) {i : Nat} {bytes : List Char}
    {t : Impl}
    (ht : t = { s.without i with
      buffers := { s.buffers with recvBuffer := s.buffers.recvBuffer ++ bytes } }) :
    Told t.reading (w.after s (.deliver i (.received bytes)) t.reading) := by
  obtain ⟨stream, before, hstreams, hrest⟩ := h.stream hs
  obtain ⟨hlines, hnext⟩ := Framing.frame_append (F := ircFraming) stream bytes
  have hloop : recvLoop t.buffers.recvBuffer 0 =
      (ircFraming.lines (ircFraming.rest stream ++ bytes), ircFraming.rest (stream ++ bytes)) := by
    rw [recvLoop_eq, ht, List.drop_zero, hrest, hnext]
  have hc : t.reading.curstate = .connected := by rw [ht]; exact hs
  have hafter : (w.after s (.deliver i (.received bytes)) t.reading).streams =
      (stream ++ bytes) :: before := by
    simp [Wire.after, hc, hs, hstreams, View.extend, Call.bytes]
  refine ⟨?_, fun _ => ⟨stream ++ bytes, before, hafter, ?_⟩⟩
  · have hstart : Shows t ⟨s.curstate, w.streams.map ircFraming.lines, w.failures⟩ :=
      h.shows.of_eq (by rw [ht]; rfl) (by rw [ht]; rfl)
    have hread := View.read_lines (v := ⟨s.curstate, w.streams.map ircFraming.lines, w.failures⟩) hs
      (recvLoop t.buffers.recvBuffer 0).1
    have hshows : Shows t.reading _ := (hstart.emitting hread rfl).of_eq rfl rfl
    rw [hc, hafter]
    simpa [View.addLines, View.extend, Wire.after, Impl.failure, hs, hstreams, hloop, hlines]
      using hshows
  · show (recvLoop t.buffers.recvBuffer 0).2 = _
    rw [hloop]

/-- A failure that ends the session, or the way to it. -/
theorem failed (h : Told s w) {i : Nat} {x : Started} {error : ErrorCode} {o : Outcome}
    (hx : s.operations[i]? = some x) (hs : s.curstate = x.operation.expects)
    (hlive : s.curstate = .connecting ∨ s.curstate = .connected)
    (hdown : Teardown ((s.without i).emitting
      [errorEvent (x.operation.failureText ++ error.message) error]) o s') :
    Told s' (w.after s (.deliver i (.failed error)) s') := by
  have hlegal : Legal s.curstate .disconnected := by
    rcases hlive with hc | hc <;> simp [hc, Legal, State.predecessors]
  have hstart : Shows (s.without i) ⟨s.curstate, w.streams.map ircFraming.lines, w.failures⟩ :=
    h.shows.of_eq rfl rfl
  have hshows := (hstart.error hlive (x.operation.failureText ++ error.message) error).teardown
    hdown hlegal
  have hfailure : s.failure (.deliver i (.failed error)) =
      [(x.operation.failureText ++ error.message, error)] := by
    simp [Impl.failure, hx, hs]
  refine h.of_shows (by rw [hfailure]; exact hshows) fun hs' => ?_
  rcases hdown.left with rfl | hd
  · exact ⟨hs', rfl, rfl⟩
  · rw [hs'] at hd
    cases hd

/-- The next endpoint of an attempt, if there is one. -/
theorem tryNext (h : Told s w) {t : Impl} {o : Outcome}
    (ht : Shows t ⟨s.curstate, w.streams.map ircFraming.lines, w.failures ++ s.failure call⟩)
    (hs : t.curstate = .connecting) (hnext : TryNext t o s') : Told s' (w.after s call s') := by
  refine h.of_shows (ht.tryNext hnext hs) fun hs' => ?_
  rcases hnext.left with hd | hd
  · rw [hs', hs] at hd
    cases hd
  · rw [hs'] at hd
    cases hd

/-- **A handler.** -/
theorem handled (h : Told s w) {i : Nat} {x : Started} {completion : Completion} {o : Outcome}
    (hx : s.operations[i]? = some x) (hc : (x.operation.complete completion).isSome = true)
    (hdone : Handled (s.without i) x.operation completion o s') :
    Told s' (w.after s (.deliver i completion) s') := by
  have hsame : Shows (s.without i) ⟨s.curstate, w.streams.map ircFraming.lines, w.failures⟩ :=
    h.shows.of_eq rfl rfl
  obtain ⟨attempt, operation⟩ := x
  cases hdone with
  | idle hidle =>
    have hfailure : s.failure (.deliver i completion) = [] := by
      have hne : s.curstate ≠ operation.expects := hidle
      cases completion <;> simp [Impl.failure, hx, hne]
    refine h.of_shows (by rw [hfailure, List.append_nil]; exact hsame) fun hs' => ⟨hs', ?_, rfl⟩
    refine bytes_eq_nil hc ?_ i
    rintro rfl
    exact hidle hs'
  | lookupFailed hs hdown => exact h.failed hx hs (.inl hs) hdown
  | readFailed hs hdown => exact h.failed hx hs (.inr hs) hdown
  | writeFailed hs hdown => exact h.failed hx hs (.inr hs) hdown
  | @resolved hostname service iterator _ _ hs hnext =>
    have hstart : Shows { s.without i with resolveIterator := iterator }
        ⟨s.curstate, w.streams.map ircFraming.lines, w.failures ++ []⟩ := by
      rw [List.append_nil]
      exact hsame.of_eq rfl rfl
    exact h.tryNext hstart hs hnext
  | @connectFailed endpoint error _ _ hs hnext =>
    have hfailure : s.failure (.deliver i (.failed error)) =
        [("Connection failed: " ++ error.message, error)] := by
      have hcur : s.curstate = .connecting := hs
      simp [Impl.failure, hx, hcur, Operation.expects, Operation.failureText]
    refine h.tryNext (t := (s.without i).emitting
      [errorEvent ("Connection failed: " ++ error.message) error]) ?_ hs hnext
    rw [hfailure]
    exact hsame.error (.inl hs) _ _
  | handshake hs => exact h.quiet rfl rfl rfl rfl rfl
  | connected hs => exact established rfl hs hsame hs
  | shaken hs => exact established rfl hs hsame hs
  | @handshakeFailed error hs =>
    have hcur : s.curstate = .connecting := hs
    have hfailure : s.failure (.deliver i (.failed error)) =
        [("SSL handshake failed: " ++ error.message, error)] := by
      simp [Impl.failure, hx, hcur, Operation.expects, Operation.failureText]
    refine h.of_shows ?_ fun hs' => ⟨hs', rfl, rfl⟩
    rw [hfailure]
    exact hsame.error (.inl hs) _ _
  | received hs => exact h.reading hs rfl
  | transferred =>
    exact h.quiet rfl rfl rfl rfl (Buffers.advance_recvBuffer _ _)

/-- **A step.** -/
theorem step (h : Told s w) (hchanged : s.curstate ≠ .changed) {sslSupport : Bool} {o : Outcome}
    (hst : s.step sslSupport call = some (o, s')) : Told s' (w.after s call s') := by
  cases step_effect hst with
  | endpointRefused | setEndpoint | connectRefused | ignored => exact h.quiet rfl rfl rfl rfl rfl
  | sendRaw => exact h.quiet rfl rfl rfl rfl (Buffers.append_recvBuffer _ _)
  | deliver hx hc hdone => exact h.handled hx hc hdone
  | connect hs =>
    have hlegal : Legal s.curstate .connecting := by
      rw [hs]
      decide
    have hshows := h.shows.enter hlegal
    refine h.of_shows ?_ fun hs' => by cases hs'
    rw [show s.failure .connect = [] from rfl, List.append_nil]
    exact hshows.of_eq rfl rfl
  | disconnect hlive hdown =>
    have hlegal : Legal s.curstate .disconnecting := by
      cases hcur : s.curstate <;> simp_all [Legal, State.predecessors]
    have hshows := (h.shows.enter hlegal).teardown hdown (by simp [Legal, State.predecessors])
    refine h.of_shows ?_ fun hs' => ?_
    · rw [show s.failure .disconnect = [] from rfl, List.append_nil]
      exact hshows
    · rcases hdown.left with rfl | hd
      · cases hs'
      · rw [hs'] at hd
        cases hd

end Told

theorem told_init : Told {} {} := ⟨⟨rfl, rfl⟩, fun h => by cases h⟩

theorem told_of_reaches {sslSupport : Bool} {s : Impl} {w : Wire}
    (h : (wired sslSupport).Reaches ({}, {}) (s, w)) : Told s w := by
  have htold := h.inv (P := fun r => Told r.1 r.2 ∧ r.1.curstate ≠ .changed)
    (fun r call o r' hr hst => ?_) ⟨told_init, by decide⟩
  · exact htold.1
  · obtain ⟨s, w⟩ := r
    obtain ⟨t, ht, he⟩ := Option.map_eq_some_iff.mp hst
    cases he
    exact ⟨hr.1.step hr.2 ht, ((step_effect ht).walked hr.2).ne_changed hr.2⟩

/-- **The transcript.** After every run of a connection, late and failing handlers included: a
client that reads the events in the order in which they were put on the main queue accepts each one.
It then knows the state; for every session the lines of the stream that the session received, one
session never mixed with another; and what has failed, each error with the text of its operation. -/
theorem transcript {sslSupport : Bool} {s : Impl} {w : Wire}
    (h : (wired sslSupport).Reaches ({}, {}) (s, w)) :
    s.emitted.foldlM View.read {} =
      some ⟨s.curstate, w.streams.map ircFraming.lines, w.failures⟩ :=
  (told_of_reaches h).shows.1

/-- The first endpoint fails, the second one is reached, and the session ends. -/
def secondEndpoint : List Call :=
  [.setEndpoint ['h'] 0, .connect, .deliver 0 (.resolved [⟨['a'], 1⟩, ⟨['b'], 1⟩]),
    .deliver 0 (.failed ⟨111, "refused"⟩), .deliver 0 .succeeded, .disconnect]

theorem transcript_secondEndpoint :
    [stateEvent .connecting, errorEvent "Connection failed: refused" ⟨111, "refused"⟩,
      stateEvent .connected, stateEvent .disconnecting, stateEvent .disconnected].foldlM View.read
        {} = some ⟨.disconnected, [ircFraming.lines []],
          [("Connection failed: refused", ⟨111, "refused"⟩)]⟩ := by
  have hreach : (wired true).Reaches ({}, {})
      ({ hostname := ['h']
         socket := some {}
         emitted := [stateEvent .connecting,
           errorEvent "Connection failed: refused" ⟨111, "refused"⟩, stateEvent .connected,
           stateEvent .disconnecting, stateEvent .disconnected]
         operations := [⟨some 1, .read⟩]
         attempts := 1 },
        { streams := [[]], failures := [("Connection failed: refused", ⟨111, "refused"⟩)] }) :=
    ⟨secondEndpoint, List.replicate 6 .returned, by decide +kernel⟩
  exact transcript hreach

end Slirc.Connection
