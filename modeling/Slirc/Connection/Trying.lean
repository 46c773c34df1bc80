import Slirc.Connection.Attempts
import Slirc.Connection.Outgoing
import Slirc.Connection.Outstanding
import Slirc.Lib.ListUpdate

/-!
# Trying the endpoints

An attempt of a plain connection looks the name up and tries the endpoints that it gets. Each
`async_connect` is started by the handler of the one before it.

* `Trail`: the endpoints that an attempt has tried, and what they reported. It is observed along the
  run (`trailed`).
* `Impl.Tagged`: no operation belongs to a later attempt. `Impl.pursued`: the operations that the
  attempt waits for.
* `Course`: how far an attempt has come, with the events that it has put on the main queue.
* `Rests`: what a connection does that is not connecting.
* `step_attempt`: a step that does not disturb the attempt (`Impl.Undisturbed`) keeps it on its
  course. `course_of_run`: so does a run of such steps, which goes on until the attempt ends.
-/

namespace Slirc.Connection

open Program

/-- The endpoint of an `async_connect`. -/
def Operation.endpoint : Operation → Option Resolved
  | .connect endpoint => some endpoint
  | _ => none

instance : DecidablePred Operation.Establishes
  | .resolve _ _ | .connect _ | .handshake => isTrue trivial
  | .read | .write _ => isFalse id

/-- What an attempt has done. -/
structure Trail where
  /-- The endpoints that an `async_connect` was started on, in order. -/
  tried : List Resolved := []
  /-- The errors that they reported, in order, and `none` for a success. -/
  reports : List (Option ErrorCode) := []
  deriving DecidableEq, Repr

/-- What a call reports of an `async_connect`. -/
def Impl.report (s : Impl) : Call → Option (Option ErrorCode)
  | .deliver i completion =>
    match s.operations[i]?, completion with
    | some ⟨_, .connect _⟩, .failed error => some (some error)
    | some ⟨_, .connect _⟩, .succeeded => some none
    | _, _ => none
  | _ => none

def Trail.after (s : Impl) (call : Call) (s' : Impl) (t : Trail) : Trail where
  tried := t.tried ++
    (s'.operations.drop (s.remaining call).length).filterMap (·.operation.endpoint)
  reports := t.reports ++ (s.report call).toList

/-- The runs of a connection, with the trail. -/
def trailed (sslSupport : Bool) : Machine (Impl × Trail) Call Outcome :=
  (machine sslSupport).observe Trail.after

/-- They are the runs of the connection. -/
theorem trailed_run (sslSupport : Bool) (s : Impl) (t : Trail) (calls : List Call) :
    ((trailed sslSupport).run (s, t) calls).map (fun r => (r.1, r.2.1)) =
      (machine sslSupport).run s calls :=
  Machine.observe_run ..

/-! ## The attempt of an operation -/

namespace Impl

/-- No operation belongs to a later attempt, and those that establish a connection belong to one. -/
def Tagged (s : Impl) : Prop := ∀ x ∈ s.operations,
  (∀ attempt, x.attempt = some attempt → attempt ≤ s.attempts) ∧
    (x.attempt = none → ¬x.operation.Establishes)

theorem Tagged.of_append {s s' : Impl} (h : s.Tagged) {m : List Started}
    (hops : s'.operations = s.operations ++ m) (hle : s.attempts ≤ s'.attempts)
    (hmore : ∀ x ∈ m, x.attempt = s'.attempt ∧
      (x.operation.Establishes → s'.curstate ≠ .disconnected)) : s'.Tagged := by
  intro x hx
  rw [hops] at hx
  obtain hx | hx := List.mem_append.mp hx
  · exact ⟨fun attempt ha => ((h x hx).1 attempt ha).trans hle, (h x hx).2⟩
  · obtain ⟨htag, hest⟩ := hmore x hx
    rw [htag, attempt]
    split
    · rename_i hcur
      exact ⟨by simp, fun _ hx => absurd hcur (hest hx)⟩
    · exact ⟨fun attempt ha => (Option.some.inj ha).symm.le, by simp⟩

theorem Tagged.of_eq {s s' : Impl} (h : s.Tagged) (hops : s'.operations = s.operations)
    (hle : s.attempts ≤ s'.attempts) : s'.Tagged :=
  h.of_append (m := []) (by rw [hops, List.append_nil]) hle (by simp)

theorem Tagged.without {s : Impl} (h : s.Tagged) (i : Nat) : (s.without i).Tagged :=
  fun x hx => h x (List.mem_of_mem_eraseIdx hx)

end Impl

theorem Teardown.tagged {s s' : Impl} {o : Outcome} (h : Teardown s o s') (hs : s.Tagged) :
    s'.Tagged :=
  hs.of_eq h.operations h.attempts.ge

theorem TryNext.tagged {s s' : Impl} {o : Outcome} (h : TryNext s o s') (hs : s.Tagged)
    (hcur : s.curstate = .connecting) : s'.Tagged := by
  cases h with
  | exhausted _ hdown => exact hdown.tagged hs
  | missing => exact hs
  | @next endpoint _ sock =>
    refine hs.of_append (m := [⟨s.attempt, .connect endpoint⟩]) ?_ ?_ ?_
    · simp [Impl.trying, Impl.attempt]
    · simp [Impl.trying]
    · simp [Impl.trying, Impl.attempt, hcur]

theorem Handled.tagged {s s' : Impl} {operation : Operation} {completion : Completion}
    {o : Outcome} (h : Handled s operation completion o s') (hs : s.Tagged) : s'.Tagged := by
  cases h with
  | idle => exact hs
  | lookupFailed _ hdown | readFailed _ hdown | writeFailed _ hdown => exact hdown.tagged hs
  | resolved hcur hnext | connectFailed hcur hnext => exact hnext.tagged hs hcur
  | handshakeFailed => exact hs
  | handshake hcur =>
    exact hs.of_append rfl le_rfl (by simp [Impl.attempt, hcur])
  | connected | shaken =>
    exact hs.of_append rfl le_rfl (by simp [Impl.established, Impl.attempt])
  | received =>
    exact hs.of_append rfl le_rfl (by simp [Impl.reading, Impl.attempt, Operation.Establishes])
  | transferred =>
    exact hs.of_append rfl le_rfl (by simp [Impl.attempt, Operation.Establishes])

theorem step_tagged {sslSupport : Bool} {s s' : Impl} {call : Call} {o : Outcome}
    (hs : s.Tagged) (h : s.step sslSupport call = some (o, s')) : s'.Tagged := by
  cases step_effect h with
  | endpointRefused | connectRefused | ignored | setEndpoint => exact hs
  | connect =>
    refine hs.of_append rfl (Nat.le_succ _) ?_
    simp [Impl.attempting, Impl.attempt]
  | disconnect _ hdown => exact hdown.tagged hs
  | sendRaw => exact hs.of_append rfl le_rfl (by simp [Impl.attempt, Operation.Establishes])
  | deliver _ _ hdone => exact hdone.tagged (hs.without _)

/-! ## What an attempt waits for -/

/-- The operation, if it is to establish the connection of an attempt. -/
def Started.pursuit (attempt : Nat) (x : Started) : Option Operation :=
  if x.attempt = some attempt ∧ x.operation.Establishes then some x.operation else none

namespace Impl

/-- The operations that are to establish the connection of the present attempt. -/
def pursued (s : Impl) : List Operation := s.operations.filterMap (·.pursuit s.attempts)

/-- Operations that establish nothing, in the same attempt. -/
theorem pursued_append {s s' : Impl} {m : List Started} (hops : s'.operations = s.operations ++ m)
    (hattempts : s'.attempts = s.attempts) (hm : ∀ x ∈ m, ¬x.operation.Establishes) :
    s'.pursued = s.pursued := by
  have hnone : m.filterMap (·.pursuit s.attempts) = [] := by
    refine List.filterMap_eq_nil_iff.mpr fun x hx => ?_
    rw [Started.pursuit, if_neg fun h => hm x hx h.2]
  rw [pursued, pursued, hops, hattempts, List.filterMap_append, hnone, List.append_nil]

/-- The next operation of an attempt that goes on. -/
theorem pursued_starting {s s' : Impl} {operation : Operation}
    (hops : s'.operations = s.operations ++ [⟨some s.attempts, operation⟩])
    (hattempts : s'.attempts = s.attempts) (hest : operation.Establishes) :
    s'.pursued = s.pursued ++ [operation] := by
  have hone : [(⟨some s.attempts, operation⟩ : Started)].filterMap (·.pursuit s.attempts) =
      [operation] := by
    simp [Started.pursuit, hest]
  rw [pursued, pursued, hops, hattempts, List.filterMap_append, hone]

/-- An operation that the attempt does not wait for. -/
theorem pursued_without_idle {s : Impl} {i : Nat} {x : Started} (hx : s.operations[i]? = some x)
    (hidle : ¬x.operation.Establishes) : (s.without i).pursued = s.pursued :=
  ListUpdate.filterMap_eraseIdx_none hx (if_neg fun h => hidle h.2)

/-- The only operation that the attempt waits for. -/
theorem pursued_without {s : Impl} {i : Nat} {x : Started} {operation : Operation}
    (hx : s.operations[i]? = some x) (htag : x.attempt = some s.attempts)
    (hest : x.operation.Establishes) (hone : s.pursued = [operation]) :
    x.operation = operation ∧ (s.without i).pursued = [] := by
  have hpursuit : x.pursuit s.attempts = some x.operation := if_pos ⟨htag, hest⟩
  obtain ⟨k, hk, herase⟩ := ListUpdate.filterMap_eraseIdx_some hx hpursuit
  rw [show s.operations.filterMap (·.pursuit s.attempts) = [operation] from hone] at hk herase
  cases k with
  | zero =>
    cases hk
    exact ⟨rfl, herase⟩
  | succ k => cases hk

/-- What the attempt waits for is outstanding. -/
theorem exists_of_pursued {s : Impl} {operation : Operation} (h : operation ∈ s.pursued) :
    ∃ (i : Nat) (x : Started), s.operations[i]? = some x ∧ x.attempt = some s.attempts ∧
      x.operation = operation := by
  obtain ⟨x, hx, hpursuit⟩ := List.mem_filterMap.mp h
  obtain ⟨⟨htag, -⟩, heq⟩ := Option.ite_none_right_eq_some.mp hpursuit
  obtain ⟨i, hi⟩ := List.mem_iff_getElem?.mp hx
  exact ⟨i, x, hi, htag, Option.some.inj heq⟩

end Impl

/-! ## The course of an attempt -/

/-- The event of a failed endpoint. -/
def connectFailed (error : ErrorCode) : Event :=
  errorEvent ("Connection failed: " ++ error.message) error

/-- The events of an attempt that began in `s₀`: it is connecting, and some endpoints failed. -/
def opening (s₀ : Impl) (errors : List ErrorCode) : List Event :=
  s₀.emitted ++ stateEvent .connecting :: errors.map connectFailed

theorem opening_snoc (s₀ : Impl) (errors : List ErrorCode) (error : ErrorCode) :
    opening s₀ (errors ++ [error]) = opening s₀ errors ++ [connectFailed error] := by
  simp [opening]

/-- How far the attempt has come that began in `s₀` and whose lookup gives `endpoints`. -/
inductive Course (s₀ : Impl) (endpoints : List Resolved) (s : Impl) (t : Trail) : Prop where
  /-- The name is looked up. -/
  | resolving (hostname service : List Char) : s.curstate = .connecting →
    s.pursued = [.resolve hostname service] → t = {} → s.emitted = opening s₀ [] →
    Course s₀ endpoints s t
  /-- The endpoints `done` have failed, and `e` is tried. -/
  | trying {done rest : List Resolved} {e : Resolved} {errors : List ErrorCode} :
    s.curstate = .connecting → endpoints = done ++ e :: rest → errors.length = done.length →
    s.pursued = [.connect e] → s.resolveIterator = rest →
    t = { tried := done ++ [e], reports := errors.map some } → s.emitted = opening s₀ errors →
    Course s₀ endpoints s t
  /-- The endpoints `done` have failed, and `e` has not. `more` is what happened afterwards. -/
  | connected {done rest : List Resolved} {e : Resolved} {errors : List ErrorCode}
    {more : List Event} : s.curstate ≠ .connecting → (more = [] → s.curstate = .connected) →
    endpoints = done ++ e :: rest → errors.length = done.length → s.pursued = [] →
    t = { tried := done ++ [e], reports := errors.map some ++ [none] } →
    s.emitted = opening s₀ errors ++ stateEvent .connected :: more → Course s₀ endpoints s t
  /-- All endpoints have failed. -/
  | exhausted {errors : List ErrorCode} : s.curstate = .disconnected →
    errors.length = endpoints.length → s.pursued = [] →
    t = { tried := endpoints, reports := errors.map some } →
    s.emitted = opening s₀ errors ++ [stateEvent .disconnected] → Course s₀ endpoints s t

/-- Nothing disturbs an attempt: it is not disconnected while it is connecting, no other one is
begun, the handlers are not those of earlier ones, and the lookup gives `endpoints`. -/
def Impl.Undisturbed (endpoints : List Resolved) (s : Impl) : Call → Prop
  | .connect => s.curstate ≠ .disconnected
  | .disconnect => s.curstate ≠ .connecting
  | .deliver i completion => ∀ x, s.operations[i]? = some x →
    (∀ attempt, x.attempt = some attempt → s.attempts ≤ attempt) ∧
    ∀ hostname service, x.operation = .resolve hostname service → completion = .resolved endpoints
  | .setEndpoint _ _ | .sendRaw _ => True

/-- A plain connection: it has a socket, and no SSL stream. -/
def Impl.Plain (s : Impl) : Prop := s.transport = some .socket ∧ s.ssl = none

/-- An attempt of a plain connection, and what its handlers need. -/
structure Attempt (s₀ : Impl) (endpoints : List Resolved) (s : Impl) (t : Trail) : Prop where
  course : Course s₀ endpoints s t
  tagged : s.Tagged
  plain : s.curstate = .connecting → s.Plain
  opened : s.curstate = .connecting → t.tried ≠ [] → s.isOpen .socket = true

/-- What the attempt waits for is outstanding, and can report: its handler returns. -/
def Impl.Awaits (sslSupport : Bool) (endpoints : List Resolved) (s : Impl) : Prop :=
  ∃ (i : Nat) (x : Started), s.operations[i]? = some x ∧ s.pursued = [x.operation] ∧
    ∀ completion, (x.operation.complete completion).isSome = true →
      s.Undisturbed endpoints (.deliver i completion) →
        ∃ s', s.step sslSupport (.deliver i completion) = some (.returned, s')

/-! ## Connections that are not connecting -/

/-- What a connection does that is not connecting, and begins no attempt: it starts nothing that
establishes a connection, and what it does to its state it tells by events. -/
structure Rests (s s' : Impl) : Prop where
  started : ∃ m, s'.operations = s.operations ++ m ∧ ∀ x ∈ m, ¬x.operation.Establishes
  attempts : s'.attempts = s.attempts
  curstate : s'.curstate ≠ .connecting
  emitted : ∃ events, s'.emitted = s.emitted ++ events ∧ (events = [] → s'.curstate = s.curstate)
  disconnected : s.curstate = .disconnected →
    s'.curstate = .disconnected ∧ s'.emitted = s.emitted

section Rests

variable {s s' : Impl} {o : Outcome}

theorem Rests.refl (hcur : s.curstate ≠ .connecting) : Rests s s :=
  ⟨⟨[], by simp, by simp⟩, rfl, hcur, ⟨[], by simp, fun _ => rfl⟩, fun hd => ⟨hd, rfl⟩⟩

/-- Only the operations and the fields that are not shown have changed. -/
theorem Rests.of_append {m : List Started} (hcur : s.curstate ≠ .connecting)
    (hops : s'.operations = s.operations ++ m) (hm : ∀ x ∈ m, ¬x.operation.Establishes)
    (hphase : s'.phase = s.phase) (hemitted : s'.emitted = s.emitted) : Rests s s' := by
  obtain ⟨hcur', hattempts⟩ := Prod.mk.inj hphase
  refine ⟨⟨m, hops, hm⟩, hattempts, ?_, ⟨[], by simp [hemitted], fun _ => hcur'⟩, fun hd => ?_⟩
  · rwa [hcur']
  · exact ⟨hcur'.trans hd, hemitted⟩

/-- A teardown after an event. -/
theorem Teardown.rests {u : Impl} {e : Event} (h : Teardown u o s')
    (hops : u.operations = s.operations) (hattempts : u.attempts = s.attempts)
    (hcur : u.curstate ≠ .connecting) (hemitted : u.emitted = s.emitted ++ [e])
    (hs : s.curstate ≠ .disconnected) : Rests s s' := by
  have hcur' : s'.curstate ≠ .connecting := by
    rcases h.left with rfl | hd
    · exact hcur
    · simp [hd]
  have hevents : ∃ events, s'.emitted = s.emitted ++ e :: events := by
    cases h with
    | missing | closed => exact ⟨[], hemitted⟩
    | done => exact ⟨[stateEvent .disconnected], by simp [hemitted]⟩
  obtain ⟨events, hevents⟩ := hevents
  refine ⟨⟨[], by simp [h.operations, hops], by simp⟩, h.attempts.trans hattempts, hcur',
    ⟨e :: events, hevents, by simp⟩, fun hd => absurd hd hs⟩

theorem Handled.rests {operation : Operation} {completion : Completion}
    (h : Handled s operation completion o s') (hcur : s.curstate ≠ .connecting) : Rests s s' := by
  cases h with
  | idle => exact .refl hcur
  | lookupFailed hc | resolved hc | connectFailed hc | handshake hc | connected hc
  | handshakeFailed hc | shaken hc => exact absurd hc hcur
  | readFailed hc hdown | writeFailed hc hdown =>
    exact hdown.rests rfl rfl hcur rfl (by simp [hc])
  | received hc =>
    refine ⟨⟨[⟨s.attempt, .read⟩], rfl, by simp [Operation.Establishes]⟩, rfl, hcur,
      ⟨_, rfl, fun _ => rfl⟩, fun hd => ?_⟩
    cases hc.symm.trans hd
  | transferred => exact .of_append hcur rfl (by simp [Operation.Establishes]) rfl rfl

/-- **A connection that is not connecting** stays so until it is told to connect. -/
theorem step_rests {sslSupport : Bool} {call : Call} (hcur : s.curstate ≠ .connecting)
    (hcall : call = .connect → s.curstate ≠ .disconnected)
    (h : s.step sslSupport call = some (o, s')) :
    Rests { s with operations := s.remaining call } s' := by
  cases step_effect h with
  | endpointRefused | connectRefused | ignored => exact .refl hcur
  | setEndpoint => exact .of_append (m := []) hcur (List.append_nil _).symm (by simp) rfl rfl
  | connect hd => exact absurd hd (hcall rfl)
  | disconnect hne hdown =>
    exact hdown.rests rfl rfl (by simp) rfl fun hd => hne (.inr hd)
  | sendRaw => exact .of_append hcur rfl (by simp [Operation.Establishes]) rfl rfl
  | deliver _ _ hdone => exact hdone.rests hcur

end Rests

/-! ## Steps of an attempt -/

theorem TryNext.eq_of_cons {s s' : Impl} {o : Outcome} {e : Resolved} {rest : List Resolved}
    (h : TryNext s o s') (hcons : s.resolveIterator = e :: rest)
    (hsock : s.transport = some .socket) : s' = s.trying .socket e rest := by
  cases h with
  | exhausted hnil => cases hnil.symm.trans hcons
  | missing _ hnone => cases hnone.symm.trans hsock
  | next sock hcons' hsock' =>
    cases hcons'.symm.trans hcons
    cases hsock'.symm.trans hsock
    rfl

theorem TryNext.eq_of_nil {s s' : Impl} {o : Outcome} (h : TryNext s o s')
    (hnil : s.resolveIterator = []) (hsock : s.transport = some .socket)
    (hopen : s.isOpen .socket = true) :
    s' = (s.setOpen .socket false).cleared.enter .disconnected := by
  cases h with
  | exhausted _ hdown =>
    cases hdown with
    | missing hnone => cases hnone.symm.trans hsock
    | closed sock hsock' hclosed =>
      cases hsock'.symm.trans hsock
      cases hclosed.symm.trans hopen
    | done sock hsock' =>
      cases hsock'.symm.trans hsock
      rfl
  | missing hcons | next _ hcons => cases hnil.symm.trans hcons

/-- The trail after a step that starts no `async_connect`, and is no report of one. -/
theorem Trail.after_of_append {s s' : Impl} {call : Call} {m : List Started} (t : Trail)
    (hops : s'.operations = s.remaining call ++ m) :
    t.after s call s' = { tried := t.tried ++ m.filterMap (·.operation.endpoint),
                          reports := t.reports ++ (s.report call).toList } := by
  rw [Trail.after, hops, List.drop_left]

/-- Nothing changes in the trail if the step establishes nothing, and is no report. -/
theorem Trail.after_same {s s' : Impl} {call : Call} {m : List Started} (t : Trail)
    (hops : s'.operations = s.remaining call ++ m) (hm : ∀ x ∈ m, ¬x.operation.Establishes)
    (hreport : s.report call = none) : t.after s call s' = t := by
  have hnone : m.filterMap (·.operation.endpoint) = [] := by
    refine List.filterMap_eq_nil_iff.mpr fun x hx => ?_
    have hest := hm x hx
    cases hop : x.operation with
    | connect =>
      rw [hop] at hest
      exact absurd trivial hest
    | resolve | handshake | read | write => rfl
  rw [t.after_of_append hops, hnone, hreport, Option.toList_none, List.append_nil, List.append_nil]

/-- Only an `async_connect` reports. -/
theorem Impl.report_eq_none {s : Impl} {i : Nat} {x : Started} (hx : s.operations[i]? = some x)
    (hop : ∀ e, x.operation ≠ .connect e) (completion : Completion) :
    s.report (.deliver i completion) = none := by
  obtain ⟨attempt, operation⟩ := x
  simp only [report, hx]
  cases operation with
  | connect e => exact absurd rfl (hop e)
  | resolve | handshake | read | write => rfl

section Steps

variable {s₀ s s' : Impl} {endpoints : List Resolved} {t : Trail}

theorem trying_plain {s : Impl} (h : s.Plain) (e : Resolved) (rest : List Resolved) :
    (s.trying .socket e rest).Plain ∧ (s.trying .socket e rest).isOpen .socket = true := by
  obtain ⟨hsock, hssl⟩ := h
  have hsome : s.socket.isSome = true := by
    unfold Impl.transport at hsock
    rw [hssl] at hsock
    split at hsock
    · assumption
    · cases hsock
  obtain ⟨sock, hs⟩ := Option.isSome_iff_exists.mp hsome
  simp [Impl.Plain, Impl.trying, Impl.setOpen, Impl.transport, Impl.isOpen, hs, hssl]

/-- **The next endpoint** is tried when those before it have failed. -/
theorem Attempt.next {u : Impl} {done rest : List Resolved} {e : Resolved}
    {errors : List ErrorCode} (htagged : u.Tagged)
    (hplain : u.Plain) (hcur : u.curstate = .connecting)
    (hends : endpoints = done ++ e :: rest) (hlength : errors.length = done.length)
    (hpursued : u.pursued = []) (hemitted : u.emitted = opening s₀ errors) :
    Attempt s₀ endpoints (u.trying .socket e rest)
      { tried := done ++ [e], reports := errors.map some } := by
  have hops : (u.trying .socket e rest).operations =
      u.operations ++ [⟨some u.attempts, .connect e⟩] := by
    simp [Impl.trying, Impl.attempt, hcur]
  have hattempts : (u.trying .socket e rest).attempts = u.attempts := by simp [Impl.trying]
  obtain ⟨hplain', hopen⟩ := trying_plain hplain e rest
  refine ⟨.trying ?_ hends hlength ?_ rfl rfl ?_, ?_, fun _ => hplain', fun _ _ => hopen⟩
  · simpa [Impl.trying] using hcur
  · rw [Impl.pursued_starting hops hattempts trivial, hpursued, List.nil_append]
  · simpa [Impl.trying] using hemitted
  · refine htagged.of_append hops hattempts.ge ?_
    simp [Impl.attempt, Impl.trying, hcur]

/-- **No endpoint is left**: the connection is torn down. -/
theorem Attempt.fail {u : Impl} {errors : List ErrorCode} (htagged : u.Tagged)
    (hlength : errors.length = endpoints.length) (hpursued : u.pursued = [])
    (hemitted : u.emitted = opening s₀ errors) :
    Attempt s₀ endpoints ((u.setOpen .socket false).cleared.enter .disconnected)
      { tried := endpoints, reports := errors.map some } := by
  have hops : ((u.setOpen .socket false).cleared.enter .disconnected).operations =
      u.operations ++ [] := by
    simp
  have hpursued' := (Impl.pursued_append hops (by simp) (by simp)).trans hpursued
  refine ⟨.exhausted rfl hlength hpursued' rfl ?_, ?_, by simp, by simp⟩
  · simp [hemitted]
  · exact htagged.of_eq (by simp) (by simp)

/-- **An endpoint has not failed**: the connection is established. -/
theorem Attempt.establish {u : Impl} {done rest : List Resolved} {e : Resolved}
    {errors : List ErrorCode} (htagged : u.Tagged) (hends : endpoints = done ++ e :: rest)
    (hlength : errors.length = done.length) (hpursued : u.pursued = [])
    (hemitted : u.emitted = opening s₀ errors) :
    Attempt s₀ endpoints u.established
      { tried := done ++ [e], reports := errors.map some ++ [none] } := by
  have hops : u.established.operations = u.operations ++ [⟨some u.attempts, .read⟩] := by
    simp [Impl.established, Impl.attempt]
  have hread : ∀ x ∈ [(⟨some u.attempts, .read⟩ : Started)], ¬x.operation.Establishes := by
    simp [Operation.Establishes]
  have hpursued' : u.established.pursued = [] :=
    (Impl.pursued_append hops rfl hread).trans hpursued
  have hne : u.established.curstate ≠ .connecting := by simp [Impl.established]
  have hemitted' : u.established.emitted = opening s₀ errors ++ stateEvent .connected :: [] := by
    simp [Impl.established, hemitted]
  refine ⟨.connected hne (fun _ => rfl) hends hlength hpursued' rfl hemitted', ?_,
    fun hc => absurd hc hne, fun hc => absurd hc hne⟩
  exact htagged.of_append hops le_rfl (by simp [Impl.established, Impl.attempt])

/-- The trail when the next endpoint is tried. -/
theorem Trail.after_trying {u : Impl} {call : Call} (t : Trail)
    (hops : u.operations = s.remaining call) (sock : Transport) (e : Resolved)
    (rest : List Resolved) : t.after s call (u.trying sock e rest) =
      { tried := t.tried ++ [e], reports := t.reports ++ (s.report call).toList } := by
  have hops' : (u.trying sock e rest).operations =
      s.remaining call ++ [⟨(u.setOpen sock true).attempt, .connect e⟩] := by
    simp [Impl.trying, hops]
  exact t.after_of_append hops'

/-- What is delivered, and is to establish a connection, belongs to the present attempt. -/
theorem Impl.Undisturbed.attempt {i : Nat} {completion : Completion} {x : Started}
    (h : s.Undisturbed endpoints (.deliver i completion)) (htagged : s.Tagged)
    (hx : s.operations[i]? = some x) (hest : x.operation.Establishes) :
    x.attempt = some s.attempts := by
  obtain ⟨hle, hnone⟩ := htagged x (List.mem_of_getElem? hx)
  cases htag : x.attempt with
  | none => exact absurd hest (hnone htag)
  | some attempt => rw [le_antisymm (hle attempt htag) ((h x hx).1 attempt htag)]

/-- Where the attempt waits for nothing, nothing is reported. -/
theorem Impl.Undisturbed.report {call : Call} (h : s.Undisturbed endpoints call)
    (htagged : s.Tagged) (hpursued : s.pursued = []) : s.report call = none := by
  cases call with
  | setEndpoint | connect | disconnect | sendRaw => rfl
  | deliver i completion =>
    cases hx : s.operations[i]? with
    | none => simp [Impl.report, hx]
    | some x =>
      refine Impl.report_eq_none hx (fun e hop => ?_) completion
      have hest : x.operation.Establishes := hop ▸ trivial
      have hmem : x.operation ∈ s.pursued := List.mem_filterMap.mpr
        ⟨x, List.mem_of_getElem? hx, if_pos ⟨h.attempt htagged hx hest, hest⟩⟩
      rw [hpursued] at hmem
      cases hmem

theorem Course.pursued_eq_nil (h : Course s₀ endpoints s t) (hcur : s.curstate ≠ .connecting) :
    s.pursued = [] := by
  cases h with
  | resolving _ _ hc | trying hc => exact absurd hc hcur
  | connected _ _ _ _ hpursued | exhausted _ _ hpursued => exact hpursued

/-- **An attempt that has connected or failed** tries nothing more. -/
theorem Attempt.over {sslSupport : Bool} {call : Call} {o : Outcome}
    (h : Attempt s₀ endpoints s t) (hcur : s.curstate ≠ .connecting)
    (hund : s.Undisturbed endpoints call) (hst : s.step sslSupport call = some (o, s')) :
    Attempt s₀ endpoints s' (t.after s call s') := by
  have hcall : call = .connect → s.curstate ≠ .disconnected := by
    rintro rfl
    exact hund
  have hrests := step_rests hcur hcall hst
  have hpursued := h.course.pursued_eq_nil hcur
  obtain ⟨m, hops, hm⟩ := hrests.started
  have hsame : t.after s call s' = t := t.after_same hops hm (hund.report h.tagged hpursued)
  have hleft : (s.remaining call).filterMap (·.pursuit s.attempts) = [] := by
    have hsub : (s.remaining call).Sublist s.operations := by
      cases call with
      | deliver i => exact List.eraseIdx_sublist ..
      | setEndpoint | connect | disconnect | sendRaw => exact .refl _
    exact List.sublist_nil.mp (hpursued ▸ hsub.filterMap _)
  have hpursued' : s'.pursued = [] := (Impl.pursued_append hops hrests.attempts hm).trans hleft
  have hne := hrests.curstate
  rw [hsame]
  refine ⟨?_, step_tagged h.tagged hst, fun hc => absurd hc hne, fun hc => absurd hc hne⟩
  cases h.course with
  | resolving _ _ hc | trying hc => exact absurd hc hcur
  | @connected _ _ _ errors more _ hstate hends hlength _ ht hemitted =>
    obtain ⟨events, hevents, hstay⟩ := hrests.emitted
    have hemitted' : s'.emitted =
        opening s₀ errors ++ stateEvent .connected :: (more ++ events) := by
      rw [hevents]
      simp [hemitted]
    refine .connected hne (fun hnil => ?_) hends hlength hpursued' ht hemitted'
    obtain ⟨hmore, hnone⟩ := List.append_eq_nil_iff.mp hnil
    exact (hstay hnone).trans (hstate hmore)
  | exhausted hd hlength _ ht hemitted =>
    obtain ⟨hd', hsame'⟩ := hrests.disconnected hd
    exact .exhausted hd' hlength hpursued' ht (hsame'.trans hemitted)

/-- A step that the attempt does not notice. -/
theorem Attempt.unnoticed (h : Attempt s₀ endpoints s t) (hcur : s.curstate = .connecting)
    {buffers : Buffers} {operations : List Started}
    (htagged : ({ s with buffers, operations } : Impl).Tagged)
    (hpursued : ({ s with buffers, operations } : Impl).pursued = s.pursued) :
    Attempt s₀ endpoints { s with buffers, operations } t := by
  refine ⟨?_, htagged, h.plain, h.opened⟩
  cases h.course with
  | resolving hostname service hc hp ht hemitted =>
    exact .resolving hostname service hc (hpursued.trans hp) ht hemitted
  | trying hc hends hlength hp hiter ht hemitted =>
    exact .trying hc hends hlength (hpursued.trans hp) hiter ht hemitted
  | connected hne => exact absurd hcur hne
  | exhausted hd => cases hd.symm.trans hcur

/-- The handler of a read or write tests for another state. -/
theorem Handled.of_connecting {operation : Operation} {completion : Completion} {o : Outcome}
    (h : Handled s operation completion o s') (hcur : s.curstate = .connecting)
    (hest : ¬operation.Establishes) : s' = s := by
  cases h with
  | idle => rfl
  | lookupFailed | resolved | connectFailed | handshake | connected | handshakeFailed | shaken =>
    exact absurd trivial hest
  | readFailed hc | received hc | writeFailed hc | transferred hc => cases hc.symm.trans hcur

/-- **The lookup** is done: the first endpoint is tried. -/
theorem Attempt.resolved {i : Nat} {x : Started} {completion : Completion} {o : Outcome}
    {hostname service : List Char} (h : Attempt s₀ endpoints s t) (hends : endpoints ≠ [])
    (hcur : s.curstate = .connecting) (hund : s.Undisturbed endpoints (.deliver i completion))
    (hx : s.operations[i]? = some x) (hop : x.operation = .resolve hostname service)
    (hnone : (s.without i).pursued = []) (ht : t = {}) (hemitted : s.emitted = opening s₀ [])
    (hdone : Handled (s.without i) x.operation completion o s') :
    Attempt s₀ endpoints s' (t.after s (.deliver i completion) s') := by
  obtain rfl := (hund x hx).2 hostname service hop
  have hreport : s.report (.deliver i (.resolved endpoints)) = none :=
    Impl.report_eq_none hx (by simp [hop]) _
  rw [hop] at hdone
  cases hdone with
  | idle hne => exact absurd hcur hne
  | resolved _ hnext =>
    obtain ⟨e, rest, rfl⟩ := List.exists_cons_of_ne_nil hends
    obtain rfl := hnext.eq_of_cons rfl (h.plain hcur).1
    have hsplit : e :: rest = [] ++ e :: rest := rfl
    rw [t.after_trying rfl, hreport, ht]
    exact .next (h.tagged.without i) (h.plain hcur) hcur hsplit rfl hnone hemitted

/-- **An endpoint reports**: if it fails, the next one is tried, or the attempt fails. -/
theorem Attempt.reported {i : Nat} {x : Started} {completion : Completion} {o : Outcome}
    {done rest : List Resolved} {e : Resolved} {errors : List ErrorCode}
    (h : Attempt s₀ endpoints s t) (hcur : s.curstate = .connecting)
    (hx : s.operations[i]? = some x) (hop : x.operation = .connect e)
    (hnone : (s.without i).pursued = []) (hends : endpoints = done ++ e :: rest)
    (hlength : errors.length = done.length) (hiter : s.resolveIterator = rest)
    (ht : t = { tried := done ++ [e], reports := errors.map some })
    (hemitted : s.emitted = opening s₀ errors)
    (hdone : Handled (s.without i) x.operation completion o s') :
    Attempt s₀ endpoints s' (t.after s (.deliver i completion) s') := by
  have hplain := h.plain hcur
  have htagged := h.tagged.without i
  obtain ⟨attempt, operation⟩ := x
  obtain rfl : operation = .connect e := hop
  cases hdone with
  | idle hne => exact absurd hcur hne
  | @connectFailed _ error _ _ _ hnext =>
    have hreport : s.report (.deliver i (.failed error)) = some (some error) := by
      simp [Impl.report, hx]
    have hemitted' : ((s.without i).emitting [connectFailed error]).emitted =
        opening s₀ (errors ++ [error]) := by
      rw [opening_snoc, ← hemitted]
      rfl
    have hlength' : (errors ++ [error]).length = (done ++ [e]).length := by simp [hlength]
    have hreports : errors.map some ++ [some error] = (errors ++ [error]).map some := by simp
    cases rest with
    | nil =>
      have hopen : s.isOpen .socket = true := h.opened hcur (by simp [ht])
      obtain rfl := hnext.eq_of_nil hiter hplain.1 hopen
      have hops : ((((s.without i).emitting [connectFailed error]).setOpen .socket
          false).cleared.enter .disconnected).operations = (s.without i).operations ++ [] := by
        simp
      rw [t.after_of_append hops, hreport, ht, Option.toList_some, hreports, List.filterMap_nil,
        List.append_nil, ← hends]
      exact .fail htagged (hends ▸ hlength') hnone hemitted'
    | cons e' rest =>
      obtain rfl := hnext.eq_of_cons hiter hplain.1
      have hends' : endpoints = (done ++ [e]) ++ e' :: rest := by simp [hends]
      rw [t.after_trying rfl, hreport, ht, Option.toList_some, hreports]
      exact .next htagged hplain hcur hends' hlength' hnone hemitted'
  | handshake _ hssl => simp [hplain.2] at hssl
  | connected =>
    have hreport : s.report (.deliver i .succeeded) = some none := by simp [Impl.report, hx]
    have htrail : t.after s (.deliver i .succeeded) (s.without i).established =
        { tried := done ++ [e], reports := errors.map some ++ [none] } := by
      rw [t.after_of_append rfl, hreport, ht]
      simp [Operation.endpoint]
    rw [htrail]
    exact .establish htagged hends hlength hnone hemitted

/-- **A step of an attempt** that nothing disturbs. -/
theorem step_attempt {sslSupport : Bool} {call : Call} {o : Outcome}
    (h : Attempt s₀ endpoints s t) (hends : endpoints ≠ []) (hund : s.Undisturbed endpoints call)
    (hst : s.step sslSupport call = some (o, s')) :
    Attempt s₀ endpoints s' (t.after s call s') := by
  by_cases hcur : s.curstate = .connecting
  swap
  · exact h.over hcur hund hst
  have htagged := step_tagged h.tagged hst
  cases step_effect hst with
  | endpointRefused | connectRefused =>
    rw [t.after_same (m := []) (List.append_nil _).symm (by simp) rfl]
    exact h
  | setEndpoint _ _ _ _ hd | connect hd => cases hd.symm.trans hcur
  | ignored hidle => simp [hcur] at hidle
  | disconnect => exact absurd hcur hund
  | sendRaw =>
    rw [t.after_same rfl (by simp [Operation.Establishes]) rfl]
    exact h.unnoticed hcur htagged (Impl.pursued_append rfl rfl (by simp [Operation.Establishes]))
  | @deliver i completion x _ _ hx _ hdone =>
    by_cases hest : x.operation.Establishes
    · have htag := hund.attempt h.tagged hx hest
      cases h.course with
      | resolving _ _ _ hp ht hemitted =>
        obtain ⟨hop, hnone⟩ := Impl.pursued_without hx htag hest hp
        exact h.resolved hends hcur hund hx hop hnone ht hemitted hdone
      | trying _ hsplit hlength hp hiter ht hemitted =>
        obtain ⟨hop, hnone⟩ := Impl.pursued_without hx htag hest hp
        exact h.reported hcur hx hop hnone hsplit hlength hiter ht hemitted hdone
      | connected hne => exact absurd hcur hne
      | exhausted hd => cases hd.symm.trans hcur
    · obtain rfl := hdone.of_connecting hcur hest
      have hreport : s.report (.deliver i completion) = none :=
        Impl.report_eq_none hx (fun e hop => hest (hop ▸ trivial)) _
      rw [t.after_same (m := []) (List.append_nil _).symm (by simp) hreport]
      exact h.unnoticed hcur htagged (Impl.pursued_without_idle hx hest)

/-- **An attempt begins** with the lookup. -/
theorem attempt_begins {sslSupport : Bool} (hreach : (machine sslSupport).Reaches {} s₀)
    (hplain : s₀.Plain) (hst : s₀.step sslSupport .connect = some (.returned, s)) :
    Attempt s₀ endpoints s {} := by
  have htagged : s₀.Tagged :=
    hreach.inv (P := Impl.Tagged) (fun _ _ _ _ hs hst => step_tagged hs hst) (by simp [Impl.Tagged])
  have htagged' := step_tagged htagged hst
  cases step_effect hst with
  | connect hd =>
    refine ⟨.resolving s₀.hostname (Nat.toDigits 10 s₀.port.toNat) rfl ?_ rfl ?_, htagged',
      fun _ => hplain, fun _ hne => absurd rfl hne⟩
    · have hold : s₀.attempting.pursued = [] := by
        refine List.filterMap_eq_nil_iff.mpr fun x hx => if_neg fun hpursuit => ?_
        exact absurd ((htagged x hx).1 _ hpursuit.1) (Nat.not_succ_le_self _)
      have hlookup : ∀ operation, operation.Establishes →
          (s₀.attempting.starting operation).pursued = s₀.attempting.pursued ++ [operation] :=
        fun _ hest => Impl.pursued_starting rfl rfl hest
      rw [hlookup, hold, List.nil_append]
      exact trivial
    · simp [opening, Impl.attempting]

/-! ## Progress -/

theorem TryNext.returned {o : Outcome} (h : TryNext s o s') (hsock : s.transport = some .socket)
    (hopen : s.resolveIterator = [] → s.isOpen .socket = true) : o = .returned := by
  cases h with
  | exhausted hnil hdown => exact hdown.returned_iff.mpr ⟨.socket, hsock, hopen hnil⟩
  | missing _ hnone => cases hnone.symm.trans hsock
  | next => rfl

theorem connectTryNext_returned (hcur : s.curstate = .connecting)
    (hsock : s.transport = some .socket)
    (hopen : s.resolveIterator = [] → s.isOpen .socket = true) :
    ∃ s', outcome (connectTryNext s) = some (.returned, s') := by
  obtain ⟨o, s', hout, hnext⟩ := connectTryNext_tryNext (s := s) (by simp [hcur])
  obtain rfl := hnext.returned hsock hopen
  exact ⟨s', hout⟩

/-- **The handler of an endpoint** returns. -/
theorem Attempt.connect_returned (sslSupport : Bool) {i : Nat} {x : Started}
    {completion : Completion} {e : Resolved} (h : Attempt s₀ endpoints s t)
    (hcur : s.curstate = .connecting) (hne : t.tried ≠ [])
    (hx : s.operations[i]? = some x) (hop : x.operation = .connect e)
    (hc : (x.operation.complete completion).isSome = true) :
    ∃ s', s.step sslSupport (.deliver i completion) = some (.returned, s') := by
  have hcur' : (s.without i).curstate = .connecting := hcur
  obtain ⟨hsock, hssl⟩ := h.plain hcur
  have hopen : s.isOpen .socket = true := h.opened hcur hne
  obtain ⟨attempt, operation⟩ := x
  obtain rfl : operation = .connect e := hop
  cases completion with
  | failed error =>
    rw [deliver_eq sslSupport hx rfl, connectHandler, handler_active hcur']
    dsimp only
    rw [bind_ok (emitError_eq _ error _)]
    exact connectTryNext_returned hcur' hsock fun _ => hopen
  | succeeded =>
    have hconnected : (s.without i).curstate ≠ .connected := by simp [hcur]
    have hsock' : ((s.without i).cleared.enter .connected).transport.isSome = true := by
      show s.transport.isSome = true
      simp [hsock]
    rw [deliver_eq sslSupport hx rfl, connectHandler, handler_active hcur']
    dsimp only
    rw [connectOptSslHandshake, get_bind, if_neg (by simp [hssl]), connectSuccess_eq hconnected,
      recv_eq hsock']
    exact ⟨_, rfl⟩
  | resolved | received | transferred => cases hc

/-- **An attempt that is connecting** waits for what is outstanding. -/
theorem Attempt.awaits (sslSupport : Bool) (h : Attempt s₀ endpoints s t) (hends : endpoints ≠ [])
    (hcur : s.curstate = .connecting) : s.Awaits sslSupport endpoints := by
  cases h.course with
  | resolving hostname service _ hp =>
    obtain ⟨i, x, hx, -, hop⟩ := Impl.exists_of_pursued (hp ▸ List.mem_singleton.mpr rfl)
    refine ⟨i, x, hx, hop ▸ hp, fun completion _ hund => ?_⟩
    obtain rfl := (hund x hx).2 hostname service hop
    have hcur' : (s.without i).curstate = .connecting := hcur
    have hcode : x.operation.complete (.resolved endpoints) =
        some (resolveHandler (.ok endpoints)) := by
      rw [hop]
      rfl
    rw [deliver_eq sslSupport hx hcode, resolveHandler, handler_active hcur']
    exact connectTryNext_returned (s := { s.without i with resolveIterator := endpoints }) hcur
      (h.plain hcur).1 fun hnil => absurd hnil hends
  | trying _ _ _ hp _ ht =>
    obtain ⟨i, x, hx, -, hop⟩ := Impl.exists_of_pursued (hp ▸ List.mem_singleton.mpr rfl)
    refine ⟨i, x, hx, hop ▸ hp, fun completion hc _ => ?_⟩
    exact h.connect_returned sslSupport hcur (by simp [ht]) hx hop hc
  | connected hne => exact absurd hcur hne
  | exhausted hd => cases hd.symm.trans hcur

end Steps

/-! ## Runs -/

/-- **The course of an attempt.** A plain connection begins an attempt, whose lookup gives some
endpoints. Whatever they report, and whatever else happens that does not disturb the attempt, it
tries them in order, each after the one before it has failed, with one event for each that failed;
it is connected by the first that does not fail, and tries no other one; and it ends disconnected
when all have failed. As long as it is connecting, it waits for one operation, whose handler
returns. -/
theorem course_of_run (sslSupport : Bool) {s₀ s₁ s : Impl} {t : Trail} {endpoints : List Resolved}
    {calls : List Call} {answers : List Outcome} (hreach : (machine sslSupport).Reaches {} s₀)
    (hplain : s₀.Plain) (hconnect : s₀.step sslSupport .connect = some (.returned, s₁))
    (hends : endpoints ≠ [])
    (hund : (trailed sslSupport).AllCalls (fun g => g.1.Undisturbed endpoints) (s₁, {}) calls)
    (hrun : (trailed sslSupport).run (s₁, {}) calls = some (answers, (s, t))) :
    Course s₀ endpoints s t ∧ (s.curstate = .connecting → s.Awaits sslSupport endpoints) := by
  have hbegin : Attempt s₀ endpoints s₁ {} := attempt_begins hreach hplain hconnect
  have hall := hund.allStates (P := fun g => Attempt s₀ endpoints g.1 g.2)
    (fun g call o g' hg hone hst => by
      obtain ⟨hstep, htrail⟩ := Machine.observe_step.mp hst
      rw [htrail]
      exact step_attempt hg hends hone hstep) hbegin
  have h : Attempt s₀ endpoints s t := hall.last hrun
  exact ⟨h.course, h.awaits sslSupport hends⟩

/-- Two endpoints fail; data is sent in between. -/
def refusedTwice : List Call :=
  [.deliver 0 (.resolved [⟨['a'], 1⟩, ⟨['b'], 2⟩]), .sendRaw [],
    .deliver 0 (.failed ⟨111, "refused"⟩), .deliver 0 (.failed ⟨110, "timed out"⟩)]

theorem course_of_run_refusedTwice : ∃ s₀ s : Impl, s.curstate = .disconnected ∧
    Course s₀ [⟨['a'], 1⟩, ⟨['b'], 2⟩] s
      { tried := [⟨['a'], 1⟩, ⟨['b'], 2⟩]
        reports := [some ⟨111, "refused"⟩, some ⟨110, "timed out"⟩] } := by
  let s₀ : Impl := { hostname := ['h'], socket := some {} }
  let s₁ : Impl :=
    { s₀ with
      curstate := .connecting
      resolver := true
      emitted := [stateEvent .connecting]
      operations := [⟨some 1, .resolve ['h'] ['6', '6', '6', '7']⟩]
      attempts := 1 }
  let s₂ : Impl :=
    { s₁ with
      resolveIterator := [⟨['b'], 2⟩]
      socket := some { isOpen := true }
      operations := [⟨some 1, .connect ⟨['a'], 1⟩⟩] }
  let s₃ : Impl :=
    { s₂ with
      resolveIterator := []
      emitted := [stateEvent .connecting, connectFailed ⟨111, "refused"⟩]
      operations := [⟨some 1, .connect ⟨['b'], 2⟩⟩] }
  let s₄ : Impl :=
    { s₀ with
      emitted := [stateEvent .connecting, connectFailed ⟨111, "refused"⟩,
        connectFailed ⟨110, "timed out"⟩, stateEvent .disconnected]
      attempts := 1 }
  let t₂ : Trail := { tried := [⟨['a'], 1⟩] }
  let t₃ : Trail := { tried := [⟨['a'], 1⟩, ⟨['b'], 2⟩], reports := [some ⟨111, "refused"⟩] }
  have hreach : (machine true).Reaches {} s₀ := ⟨[.setEndpoint ['h'] 0], [.returned], by decide⟩
  have hconnect : s₀.step true .connect = some (.returned, s₁) := by decide
  have hresolved : (trailed true).step (s₁, {})
      (.deliver 0 (.resolved [⟨['a'], 1⟩, ⟨['b'], 2⟩])) = some (.returned, (s₂, t₂)) := by decide
  have hsent : (trailed true).step (s₂, t₂) (.sendRaw []) = some (.returned, (s₂, t₂)) := by decide
  have hfailed : (trailed true).step (s₂, t₂) (.deliver 0 (.failed ⟨111, "refused"⟩)) =
      some (.returned, (s₃, t₃)) := by decide
  have hund : (trailed true).AllCalls (fun g => g.1.Undisturbed [⟨['a'], 1⟩, ⟨['b'], 2⟩])
      (s₁, {}) refusedTwice := by
    refine .cons hresolved ?_ (.cons hsent trivial (.cons hfailed ?_ ⟨?_, fun _ _ _ => trivial⟩))
    all_goals
      intro x hx
      cases hx
      simp [s₁, s₂, s₃]
  have hrun : (trailed true).run (s₁, {}) refusedTwice = some (List.replicate 4 .returned,
      (s₄, ⟨[⟨['a'], 1⟩, ⟨['b'], 2⟩], [some ⟨111, "refused"⟩, some ⟨110, "timed out"⟩]⟩)) := by
    decide
  exact ⟨s₀, s₄, rfl, (course_of_run true hreach ⟨rfl, rfl⟩ hconnect (by simp) hund hrun).1⟩

end Slirc.Connection
