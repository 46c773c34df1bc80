import Slirc.Connection.Sessions
import Slirc.Connection.Trying

/-!
# The first session of a connection

A plain connection is told to connect once, and data is sent only when it has told that it is
connected. Then the send job runs in one session, which begins with fresh buffers.

* `Impl.members`: which of the sockets a connection has. Only `set_endpoint` changes that.
* `Impl.reported`: the bytes that a completion reports as written.
* `FirstSession`: the course of the connection, with the data that was given to `send_raw` and the
  bytes that were reported. `FirstSession.sent`: while it is connected, the data is what was written
  and what is still in the buffers.
-/

namespace Slirc.Connection

variable {s s' : Impl} {o : Outcome}

/-! ## The sockets of a connection -/

/-- Whether `socket` and `ssl` are engaged. -/
def Impl.members (s : Impl) : Bool × Bool := (s.socket.isSome, s.ssl.isSome)

theorem Impl.plain_iff : s.Plain ↔ s.members = (true, false) := by
  unfold Plain members transport
  cases s.socket <;> cases s.ssl <;> simp

theorem setOpen_members (s : Impl) (sock : Transport) (isOpen : Bool) :
    (s.setOpen sock isOpen).members = s.members := by
  unfold Impl.members
  cases sock <;> simp [Impl.setOpen]

theorem Teardown.members (h : Teardown s o s') : s'.members = s.members := by
  cases h with
  | missing | closed => rfl
  | done sock => exact setOpen_members s sock false

theorem TryNext.members (h : TryNext s o s') : s'.members = s.members := by
  cases h with
  | exhausted _ hdown => exact hdown.members
  | missing => rfl
  | next sock => exact setOpen_members s sock true

theorem Handled.members {operation : Operation} {completion : Completion}
    (h : Handled s operation completion o s') : s'.members = s.members := by
  cases h with
  | lookupFailed _ hdown | readFailed _ hdown | writeFailed _ hdown => exact hdown.members
  | resolved _ hnext | connectFailed _ hnext => exact hnext.members
  | idle | handshake | connected | handshakeFailed | shaken | received | transferred => rfl

/-- Only `set_endpoint` chooses a transport. -/
theorem step_members {sslSupport : Bool} {call : Call}
    (hcall : ∀ endpoint port, call ≠ .setEndpoint endpoint port)
    (hst : s.step sslSupport call = some (o, s')) : s'.members = s.members := by
  cases step_effect hst with
  | setEndpoint => exact absurd rfl (hcall _ _)
  | endpointRefused | connectRefused | connect | ignored | sendRaw => rfl
  | disconnect _ hdown => exact hdown.members
  | deliver _ _ hdone => exact hdone.members

/-! ## The course of the connection -/

/-- The bytes that the completion of a write reports as written, while the connection is
established. -/
def Impl.reported (s : Impl) (i : Nat) (completion : Completion) : List Char :=
  match s.operations[i]?.bind (·.operation.writeRequest), completion with
  | some request, .transferred num =>
    if s.curstate = .connected then (s.buffers.sendBuffer.drop request.offset).take num else []
  | _, _ => []

theorem Impl.reported_of_curstate (h : s.curstate ≠ .connected) (i : Nat)
    (completion : Completion) : s.reported i completion = [] := by
  unfold reported
  split
  · rw [if_neg h]
  · rfl

theorem Impl.reported_of_none {i : Nat} {x : Started} (hx : s.operations[i]? = some x)
    (hnone : x.operation.writeRequest = none) (completion : Completion) :
    s.reported i completion = [] := by
  unfold reported
  rw [hx, Option.bind_some, hnone]

theorem Impl.reported_failed (s : Impl) (i : Nat) (error : ErrorCode) :
    s.reported i (.failed error) = [] := by
  unfold reported
  split
  · rename_i heq
    cases heq
  · rfl

/-- The event neither has a line, nor tells that the connection is established. -/
def Event.Quiet (e : Event) : Prop := e.receivedData = none ∧ e ≠ stateEvent .connected

/-- What is outstanding while the connection is being established. -/
inductive Impl.Opens (s : Impl) : Prop where
  | nothing : s.operations = [] → Opens s
  | lookup {attempt : Option Nat} {hostname service : List Char} :
    s.operations = [⟨attempt, .resolve hostname service⟩] → Opens s
  | trying {attempt : Option Nat} {endpoint : Resolved} :
    s.operations = [⟨attempt, .connect endpoint⟩] → s.isOpen .socket = true → Opens s

/-- The send job of a connection in its first session. -/
def Impl.sendJob (s : Impl) (appended written : List Char) : SendJob where
  curstate := s.curstate
  buffers := s.buffers
  writes := s.core.writes.map (⟨0, ·⟩)
  appended := appended
  written := written

/-- Where a plain connection is that connects once: with the data that was sent, and the bytes that
were reported as written. -/
inductive FirstSession (s : Impl) (appended written : List Char) : Prop where
  | before : s.curstate = .disconnected → s.operations = [] → s.buffers = {} → s.emitted = [] →
    appended = [] → written = [] → FirstSession s appended written
  | opening : s.curstate = .connecting → s.Plain → s.Opens → s.buffers = {} →
    (∀ e ∈ s.emitted, e.Quiet) → appended = [] → written = [] → FirstSession s appended written
  | established : s.curstate = .connected → s.Plain → s.isOpen .socket = true →
    (s.sendJob appended written).Inv → FirstSession s appended written
  | ended : s.curstate = .disconnected → s.emitted ≠ [] → written <+: appended →
    FirstSession s appended written

namespace FirstSession

variable {appended written : List Char}

/-- What was written is what was sent, from the beginning. -/
theorem written_prefix (h : FirstSession s appended written) : written <+: appended := by
  cases h with
  | before _ _ _ _ _ hw | opening _ _ _ _ _ _ hw => exact hw ▸ List.nil_prefix
  | established _ _ _ hinv => exact ⟨_, hinv.bytes.symm⟩
  | ended _ _ hpre => exact hpre

/-- **What was sent while the connection is established** is what was written and what is still in
the buffers, where nothing is left if no write is outstanding. -/
theorem sent (h : FirstSession s appended written) (hcur : s.curstate = .connected) :
    appended = written ++ s.buffers.unsent ∧ (s.core.writes = [] → s.buffers.unsent = []) := by
  cases h with
  | before hc | opening hc | ended hc => exact absurd (hc.symm.trans hcur) (by simp)
  | established _ _ _ hinv =>
    refine ⟨hinv.bytes, fun hnone => ?_⟩
    rcases hinv.outstanding with ⟨-, -, hnil⟩ | ⟨x, hone, -⟩
    · exact hnil
    · simp [Impl.sendJob, hnone] at hone

/-- While it is being established, nothing is told that could be answered. -/
theorem quiet (h : FirstSession s appended written) (hcur : s.curstate = .connecting) :
    ∀ e ∈ s.emitted, e.Quiet := by
  cases h with
  | opening _ _ _ _ hquiet => exact hquiet
  | before hc | established hc | ended hc => exact absurd (hc.symm.trans hcur) (by simp)

/-! ## The calls -/

theorem setEndpoint (h : FirstSession s appended written) {sslSupport : Bool}
    {endpoint : List Char} {port : UInt32}
    (hst : s.step sslSupport (.setEndpoint endpoint port) = some (o, s')) :
    FirstSession s' appended written := by
  cases step_effect hst with
  | endpointRefused => exact h
  | setEndpoint _ _ _ _ hd =>
    cases h with
    | before hc hops hbuf hnone ha hw => exact .before hc hops hbuf hnone ha hw
    | ended hc hne hpre => exact .ended hc hne hpre
    | opening hc | established hc => exact absurd (hc.symm.trans hd) (by simp)

theorem connect (h : FirstSession s appended written) {sslSupport : Bool} (hplain : s.Plain)
    (hnone : s.emitted = []) (hst : s.step sslSupport .connect = some (o, s')) :
    FirstSession s' appended written := by
  cases step_effect hst with
  | connectRefused => exact h
  | connect hd =>
    cases h with
    | before _ hops hbuf _ ha hw =>
      let lookup : Operation := .resolve s.hostname (Nat.toDigits 10 s.port.toNat)
      have hops' : (s.attempting.starting lookup).operations =
          [⟨some (s.attempts + 1), lookup⟩] := by
        simp [Impl.attempting, Impl.attempt, hops]
      refine .opening rfl hplain (.lookup hops') hbuf (fun e he => ?_) ha hw
      have he' : e = stateEvent .connecting := by simpa [Impl.attempting, hnone] using he
      rw [he']
      exact ⟨rfl, by decide⟩
    | ended _ hne => exact absurd hnone hne
    | opening hc | established hc => exact absurd (hc.symm.trans hd) (by simp)

/-- Data is sent when something was told. -/
theorem sendRaw (h : FirstSession s appended written) {sslSupport : Bool} {data : List Char}
    (hloud : ∃ e ∈ s.emitted, ¬e.Quiet)
    (hst : s.step sslSupport (.sendRaw data) = some (o, s')) :
    FirstSession s' (appended ++ data) written := by
  obtain ⟨e, he, hloud⟩ := hloud
  cases step_effect hst with
  | sendRaw =>
    cases h with
    | before _ _ _ hnone => rw [hnone] at he; cases he
    | opening _ _ _ _ hquiet => exact absurd (hquiet e he) hloud
    | ended hc hne hpre => exact .ended hc hne (hpre.trans (List.prefix_append _ _))
    | established hc hplain hopen hinv =>
      refine .established hc hplain hopen ?_
      have happended := SendJob.append_inv hinv data
      rw [Impl.sendJob, writing_core]
      simpa [Impl.sendJob, SendJob.start, Function.comp_def] using happended

/-! ## The handlers -/

/-- A teardown before the connection was established. -/
theorem teardown (hcur : s.curstate = .connecting) (hplain : s.Plain) (hops : s.operations = [])
    (hbuf : s.buffers = {}) (hquiet : ∀ e ∈ s.emitted, e.Quiet) (h : Teardown s o s') :
    FirstSession s' [] [] ∧ (o = .returned ∨ s'.curstate = .connecting ∧ s'.operations = []) := by
  cases h with
  | missing hnone => exact absurd (hnone.symm.trans hplain.1) (by simp)
  | closed => exact ⟨.opening hcur hplain (.nothing hops) hbuf hquiet rfl rfl, .inr ⟨hcur, hops⟩⟩
  | done => exact ⟨.ended rfl (by simp) (List.prefix_refl _), .inl rfl⟩

theorem tryNext (hcur : s.curstate = .connecting) (hplain : s.Plain) (hops : s.operations = [])
    (hbuf : s.buffers = {}) (hquiet : ∀ e ∈ s.emitted, e.Quiet) (h : TryNext s o s') :
    FirstSession s' [] [] ∧ (o = .returned ∨ s'.curstate = .connecting ∧ s'.operations = []) := by
  cases h with
  | exhausted _ hdown => exact teardown hcur hplain hops hbuf hquiet hdown
  | missing _ hnone => exact absurd (hnone.symm.trans hplain.1) (by simp)
  | @next endpoint rest sock _ hsock =>
    obtain rfl : sock = .socket := Option.some.inj (hsock.symm.trans hplain.1)
    obtain ⟨hplain', hopen⟩ := trying_plain hplain endpoint rest
    have hops' : (s.trying .socket endpoint rest).operations =
        [⟨some s.attempts, .connect endpoint⟩] := by
      simp [Impl.trying, Impl.attempt, hops, hcur]
    refine ⟨.opening ?_ hplain' (.trying hops' hopen) ?_ ?_ rfl rfl, .inl rfl⟩
    · simpa [Impl.trying] using hcur
    · simpa [Impl.trying] using hbuf
    · simpa [Impl.trying] using hquiet

theorem errorEvent_quiet (errorMessage : String) (errorCode : ErrorCode) :
    (errorEvent errorMessage errorCode).Quiet :=
  ⟨rfl, fun heq => by cases heq⟩

/-- The handler of the only operation of a connection that is being established. -/
theorem opened {x : Started} {completion : Completion} (hcur : s.curstate = .connecting)
    (hplain : s.Plain) (hops : s.operations = []) (hbuf : s.buffers = {})
    (hquiet : ∀ e ∈ s.emitted, e.Quiet)
    (hx : (∃ hostname service, x.operation = .resolve hostname service) ∨
      (∃ endpoint, x.operation = .connect endpoint) ∧ s.isOpen .socket = true)
    (h : Handled s x.operation completion o s') :
    FirstSession s' [] [] ∧ (o = .returned ∨ s'.curstate = .connecting ∧ s'.operations = []) := by
  have herror : ∀ message error, ∀ e ∈ (s.emitting [errorEvent message error]).emitted,
      e.Quiet := by
    intro message error e he
    rcases List.mem_append.mp he with he | he
    · exact hquiet e he
    · rw [List.mem_singleton.mp he]
      exact errorEvent_quiet message error
  obtain ⟨attempt, operation⟩ := x
  obtain ⟨hostname, service, rfl⟩ | ⟨⟨endpoint, rfl⟩, hopen⟩ := hx
  · cases h with
    | idle hne => exact absurd hcur hne
    | lookupFailed _ hdown =>
      exact teardown (s := s.emitting _) hcur hplain hops hbuf (herror _ _) hdown
    | @resolved _ _ iterator _ _ _ hnext =>
      exact tryNext (s := { s with resolveIterator := iterator }) hcur hplain hops hbuf hquiet hnext
  · cases h with
    | idle hne => exact absurd hcur hne
    | connectFailed _ hnext =>
      exact tryNext (s := s.emitting _) hcur hplain hops hbuf (herror _ _) hnext
    | handshake _ hssl => simp [hplain.2] at hssl
    | connected =>
      refine ⟨.established rfl hplain hopen ⟨rfl, ?_, .inl ⟨?_, rfl, ?_⟩, ?_⟩, .inl rfl⟩
      · simp [Impl.sendJob, Impl.established, hbuf, Buffers.InRange, Buffers.clear]
      · rw [Impl.sendJob, established_core]
        simp [Impl.core, hops]
      · simp [Impl.sendJob, Impl.established, hbuf, Buffers.unsent, Buffers.clear]
      · simp [Impl.sendJob, Impl.established, hbuf, Buffers.unsent, Buffers.clear]

/-- The end of a session, by an error. -/
theorem torn {e : Event} (hplain : s.Plain) (hopen : s.isOpen .socket = true)
    (hpre : written <+: appended) (h : Teardown (s.emitting [e]) o s') :
    FirstSession s' appended written ∧ o = .returned := by
  cases h with
  | missing hnone => exact absurd (hnone.symm.trans hplain.1) (by simp)
  | closed sock hsock hclosed =>
    obtain rfl : sock = .socket := Option.some.inj (hsock.symm.trans hplain.1)
    exact absurd (hclosed.symm.trans hopen) (by simp)
  | done => exact ⟨.ended rfl (by simp) hpre, rfl⟩

/-- **A write reports its bytes**, and the send job goes on. -/
theorem transferred {i num : Nat} {attempt : Option Nat} {request : WriteRequest}
    (hcur : s.curstate = .connected) (hinv : (s.sendJob appended written).Inv)
    (hx : s.operations[i]? = some ⟨attempt, .write request⟩) (hnum : num ≤ request.size) :
    (((s.without i).writing ((s.without i).buffers.advance num)).sendJob appended
      (written ++ s.reported i (.transferred num))).Inv := by
  obtain ⟨-, hsome⟩ := Impl.without_core hx
  obtain ⟨k, hk, hcore⟩ := hsome request rfl
  have hreported : s.reported i (.transferred num) =
      (s.buffers.sendBuffer.drop request.offset).take num := by
    unfold Impl.reported
    rw [hx]
    exact if_pos hcur
  have hk' : (s.sendJob appended written).writes[k]? = some ⟨0, request⟩ := by
    simp only [Impl.sendJob, List.getElem?_map, hk, Option.map_some]
  have hcomplete := SendJob.complete_inv hinv hk' hnum
  rw [hreported, Impl.sendJob, writing_core, hcore]
  simpa [Impl.sendJob, SendJob.start, SendJob.consume, List.eraseIdx_map, Function.comp_def]
    using hcomplete

/-- A handler of a session. -/
theorem handled {i : Nat} {x : Started} {completion : Completion} (hcur : s.curstate = .connected)
    (hplain : s.Plain) (hopen : s.isOpen .socket = true) (hinv : (s.sendJob appended written).Inv)
    (hx : s.operations[i]? = some x)
    (h : Handled (s.without i) x.operation completion o s') :
    FirstSession s' appended (written ++ s.reported i completion) ∧ o = .returned := by
  obtain ⟨hnone, -⟩ := Impl.without_core hx
  have hpre : written <+: appended := ⟨_, hinv.bytes.symm⟩
  -- a handler that is not one of a write leaves the send job as it is
  have hother : x.operation.writeRequest = none →
      s.reported i completion = [] ∧ ((s.without i).sendJob appended written).Inv := by
    intro hwrite
    refine ⟨Impl.reported_of_none hx hwrite completion, ?_⟩
    have hsame : (s.without i).sendJob appended written = s.sendJob appended written := by
      unfold Impl.sendJob
      rw [hnone hwrite]
      rfl
    rwa [hsame]
  obtain ⟨attempt, operation⟩ := x
  dsimp only at h hother
  cases h with
  | idle hne =>
    have hwrite : operation.writeRequest = none := by
      cases operation with
      | write => exact absurd hcur hne
      | _ => rfl
    obtain ⟨hreported, hinv'⟩ := hother hwrite
    rw [hreported, List.append_nil]
    exact ⟨.established hcur hplain hopen hinv', rfl⟩
  | lookupFailed hc | resolved hc | connectFailed hc | handshake hc | connected hc
  | handshakeFailed hc | shaken hc => exact absurd (hc.symm.trans hcur) (by simp)
  | readFailed _ hdown =>
    rw [(hother rfl).1, List.append_nil]
    exact torn (s := s.without i) hplain hopen hpre hdown
  | writeFailed _ hdown =>
    rw [s.reported_failed, List.append_nil]
    exact torn (s := s.without i) hplain hopen hpre hdown
  | received =>
    obtain ⟨hreported, hinv'⟩ := hother rfl
    rw [hreported, List.append_nil]
    refine ⟨.established hcur hplain hopen ?_, rfl⟩
    rw [Impl.sendJob, reading_core]
    exact ⟨hcur, hinv'.range, hinv'.outstanding, hinv'.bytes⟩
  | transferred _ hnum =>
    exact ⟨.established hcur hplain hopen (transferred hcur hinv hx hnum), rfl⟩

/-- **A handler keeps the course**: it reports the next bytes of what was sent. It throws only if
the connection is being established, and then nothing is outstanding any more. -/
theorem deliver (h : FirstSession s appended written) {sslSupport : Bool} {i : Nat}
    {completion : Completion} (hst : s.step sslSupport (.deliver i completion) = some (o, s')) :
    FirstSession s' appended (written ++ s.reported i completion) ∧
      (o = .returned ∨ s'.curstate = .connecting ∧ s'.operations = []) := by
  cases step_effect hst with
  | @deliver _ _ x _ _ hx _ hdone =>
    cases h with
    | before _ hops => rw [hops] at hx; cases hx
    | opening hcur hplain hopens hbuf hquiet ha hw =>
      rw [Impl.reported_of_curstate (by simp [hcur]), ha, hw]
      cases hopens with
      | nothing hops => rw [hops] at hx; cases hx
      | lookup hops =>
        rw [hops, List.getElem?_singleton] at hx
        obtain ⟨rfl, heq⟩ := Option.ite_none_right_eq_some.mp hx
        cases heq
        exact opened (s := s.without 0) hcur hplain (by simp [Impl.without, hops]) hbuf hquiet
          (.inl ⟨_, _, rfl⟩) hdone
      | trying hops hopen =>
        rw [hops, List.getElem?_singleton] at hx
        obtain ⟨rfl, heq⟩ := Option.ite_none_right_eq_some.mp hx
        cases heq
        exact opened (s := s.without 0) hcur hplain (by simp [Impl.without, hops]) hbuf hquiet
          (.inr ⟨⟨_, rfl⟩, hopen⟩) hdone
    | established hcur hplain hopen hinv =>
      obtain ⟨hs', ho⟩ := handled hcur hplain hopen hinv hx hdone
      exact ⟨hs', .inl ho⟩
    | ended hcur hne hpre =>
      rw [Impl.reported_of_curstate (by simp [hcur]), List.append_nil]
      obtain ⟨attempt, operation⟩ := x
      dsimp only at hdone
      cases hdone with
      | idle => exact ⟨.ended hcur hne hpre, .inl rfl⟩
      | lookupFailed hc | resolved hc | connectFailed hc | handshake hc | connected hc
      | handshakeFailed hc | shaken hc | readFailed hc | received hc | writeFailed hc
      | transferred hc => exact absurd (hc.symm.trans hcur) (by simp)

end FirstSession

end Slirc.Connection
