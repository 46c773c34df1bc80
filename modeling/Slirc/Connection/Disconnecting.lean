import Slirc.Connection.StateChanges

/-!
# Disconnecting

A teardown cancels the operations of its socket, and `cancel` throws if the socket is not open. It
is open from the first `async_connect` on, so a teardown in the resolve stage throws.

* `ends_disconnected_iff`: all teardowns of a run end disconnected if and only if each of them finds
  an open socket.
* `disconnect_while_resolving`: one that does not; the connection stays disconnecting.
-/

namespace Slirc.Connection

open Program

namespace Impl

/-- The socket that a teardown closes is there and open. -/
def Closable (s : Impl) : Prop := ∃ sock, s.transport = some sock ∧ s.isOpen sock = true

/-- A failure of the operation is meant to tear the connection down. -/
def Fatal (s : Impl) : Operation → Prop
  | .resolve _ _ => s.curstate = .connecting
  | .connect _ => s.curstate = .connecting ∧ s.resolveIterator = []
  | .handshake => False
  | .read | .write _ => s.curstate = .connected

/-- The call is meant to tear the connection down: a disconnect, a failed lookup, a failed last
endpoint, a failed read or a failed write. -/
def TearsDown (s : Impl) : Call → Prop
  | .disconnect => s.curstate = .connecting ∨ s.curstate = .connected
  | .deliver i (.failed _) => ∃ x, s.operations[i]? = some x ∧ s.Fatal x.operation
  | _ => False

/-- A call that is meant to tear the connection down returns and does so, and a call of `connect` is
accepted afterwards. -/
def EndsDisconnected (sslSupport : Bool) (s : Impl) (call : Call) : Prop :=
  s.TearsDown call → ∃ s', s.step sslSupport call = some (.returned, s') ∧
    s'.curstate = .disconnected ∧ s'.resolver = false ∧ s'.resolveIterator = [] ∧
    s'.buffers = s.buffers.clear ∧ ∃ s'', s'.step sslSupport .connect = some (.returned, s'')

/-- The resolver is there while a connection is being made, and its iterator only then. -/
structure Settled (s : Impl) : Prop where
  ne_changed : s.curstate ≠ .changed
  resolving : s.curstate = .connecting → s.resolver = true
  unresolved : s.resolver = false → s.resolveIterator = []

/-- What a teardown reads of a connection. -/
@[simps]
def link (s : Impl) : Impl := { s with curstate := .disconnecting, emitted := [], operations := [] }

theorem Closable.of_link {s s' : Impl} (h : s'.link = s.link) : s'.Closable ↔ s.Closable := by
  show s'.link.Closable ↔ s.link.Closable
  rw [h]

end Impl

/-! ## The invariant -/

theorem Impl.cleared_settled {s : Impl} (hs : s.Settled) {newstate : State}
    (hnew : newstate = .connected ∨ newstate = .disconnected) :
    (s.cleared.enter newstate).Settled where
  ne_changed := by rcases hnew with rfl | rfl <;> simp
  resolving := by rcases hnew with rfl | rfl <;> simp
  unresolved _ := by
    show (if s.resolver then [] else s.resolveIterator) = []
    split
    · rfl
    · exact hs.unresolved (by simpa using ‹¬s.resolver = true›)

theorem Teardown.settled {s s' : Impl} {o : Outcome} (h : Teardown s o s') (hs : s.Settled) :
    s'.Settled := by
  cases h with
  | missing => exact hs
  | closed => exact hs
  | done sock =>
    have hopen : (s.setOpen sock false).Settled :=
      ⟨by simpa using hs.ne_changed, by simpa using hs.resolving, by simpa using hs.unresolved⟩
    exact Impl.cleared_settled hopen (.inr rfl)

theorem TryNext.settled {s s' : Impl} {o : Outcome} (h : TryNext s o s') (hs : s.Settled)
    (hcur : s.curstate = .connecting) : s'.Settled := by
  cases h with
  | exhausted _ hdown => exact hdown.settled hs
  | missing => exact hs
  | next sock =>
    have hres := hs.resolving hcur
    exact ⟨by simp [Impl.trying, hcur], by simp [Impl.trying, hres], by simp [Impl.trying, hres]⟩

theorem Handled.settled {s s' : Impl} {operation : Operation} {completion : Completion}
    {o : Outcome} (h : Handled s operation completion o s') (hs : s.Settled) : s'.Settled := by
  have herror : ∀ errorMessage errorCode,
      (s.emitting [errorEvent errorMessage errorCode]).Settled :=
    fun _ _ => ⟨hs.ne_changed, hs.resolving, hs.unresolved⟩
  cases h with
  | idle => exact hs
  | lookupFailed _ hdown | readFailed _ hdown | writeFailed _ hdown =>
    exact hdown.settled (herror _ _)
  | resolved hcur hnext =>
    have hres := hs.resolving hcur
    exact hnext.settled ⟨hs.ne_changed, hs.resolving, by simp [hres]⟩ hcur
  | connectFailed hcur hnext => exact hnext.settled (herror _ _) hcur
  | handshake => exact ⟨hs.ne_changed, hs.resolving, hs.unresolved⟩
  | connected | shaken =>
    have hdone := Impl.cleared_settled hs (.inl rfl)
    exact ⟨hdone.ne_changed, hdone.resolving, hdone.unresolved⟩
  | handshakeFailed => exact herror _ _
  | received => exact ⟨hs.ne_changed, hs.resolving, hs.unresolved⟩
  | transferred => exact ⟨hs.ne_changed, hs.resolving, hs.unresolved⟩

theorem step_settled {sslSupport : Bool} {s s' : Impl} {call : Call} {o : Outcome}
    (hs : s.Settled) (h : s.step sslSupport call = some (o, s')) : s'.Settled := by
  cases step_effect h with
  | endpointRefused | connectRefused | ignored => exact hs
  | setEndpoint => exact ⟨hs.ne_changed, hs.resolving, hs.unresolved⟩
  | connect => exact ⟨by simp [Impl.attempting], fun _ => rfl, by simp [Impl.attempting]⟩
  | disconnect _ hdown => exact hdown.settled ⟨by simp, by simp, hs.unresolved⟩
  | sendRaw => exact ⟨hs.ne_changed, hs.resolving, hs.unresolved⟩
  | deliver _ _ hdone => exact hdone.settled ⟨hs.ne_changed, hs.resolving, hs.unresolved⟩

/-! ## Calls that tear down -/

/-- The handler of a failure that tears the connection down is defined. -/
theorem fatal_defined {s : Impl} {i : Nat} {x : Started} (sslSupport : Bool) (error : ErrorCode)
    (hx : s.operations[i]? = some x) (h : s.Fatal x.operation) :
    ∃ o s', s.step sslSupport (.deliver i (.failed error)) = some (o, s') := by
  obtain ⟨attempt, operation⟩ := x
  have hdown : ∀ {expected : State} (errorMessage : String),
      (s.without i).curstate = expected → expected ≠ .disconnected →
        ∃ o s', outcome ((do emitError errorMessage error; doUnscheduledDisconnect : Code Unit)
          (s.without i)) = some (o, s') := by
    intro expected errorMessage hcur hne
    obtain ⟨o, s', hout, -⟩ := emitAndDisconnect_teardown errorMessage error (hcur ▸ hne)
    exact ⟨o, s', hout⟩
  cases operation with
  | resolve =>
    have hcur : (s.without i).curstate = .connecting := h
    rw [deliver_eq sslSupport hx rfl, resolveHandler, handler_active hcur]
    exact hdown _ hcur (by decide)
  | connect =>
    have hcur : (s.without i).curstate = .connecting := h.1
    have hne : ∀ events, ((s.without i).emitting events).curstate ≠ .disconnected :=
      fun events => by simp [h.1]
    rw [deliver_eq sslSupport hx rfl, connectHandler, handler_active hcur]
    dsimp only
    rw [bind_ok (emitError_eq _ error _)]
    obtain ⟨o, s', hout, -⟩ := connectTryNext_tryNext (hne _)
    exact ⟨o, s', hout⟩
  | handshake => cases h
  | read =>
    have hcur : (s.without i).curstate = .connected := h
    rw [deliver_eq sslSupport hx rfl, recvHandler, handler_active hcur]
    exact hdown _ hcur (by decide)
  | write =>
    have hcur : (s.without i).curstate = .connected := h
    rw [deliver_eq sslSupport hx rfl, sendCallback, handler_active hcur]
    exact hdown _ hcur (by decide)

/-- **Each of these calls is defined**, and is a teardown of the same link. -/
theorem tearsDown_teardown {s : Impl} {call : Call} (sslSupport : Bool) (h : s.TearsDown call) :
    ∃ s₁ o s', s.step sslSupport call = some (o, s') ∧ Teardown s₁ o s' ∧ s₁.link = s.link := by
  cases call with
  | setEndpoint | connect | sendRaw => cases h
  | disconnect =>
    have hidle : ¬(s.curstate = .disconnecting ∨ s.curstate = .disconnected) := by
      rcases h with h | h <;> simp [h]
    have hne : State.disconnecting ≠ .changed := by decide
    have hrun : disconnect s = doUnscheduledDisconnect (s.enter .disconnecting) := by
      rw [disconnect_eq hidle, doDisconnect, bind_ok (emitStateChange_eq s hne),
        if_neg fun hc => hidle (.inl hc)]
    obtain ⟨o, s', hout, hdown⟩ :=
      doUnscheduledDisconnect_teardown (s := s.enter .disconnecting) (by simp)
    exact ⟨s.enter .disconnecting, o, s', by rw [Impl.step, hrun, hout], hdown, rfl⟩
  | deliver i completion =>
    cases completion with
    | resolved | succeeded | received | transferred => cases h
    | failed error =>
      obtain ⟨x, hx, hfatal⟩ := h
      obtain ⟨o, s', hst⟩ := fatal_defined sslSupport error hx hfatal
      cases step_effect hst with
      | @deliver _ _ y _ _ hy _ hdone =>
        obtain rfl : x = y := Option.some.inj (hx.symm.trans hy)
        obtain ⟨attempt, operation⟩ := x
        cases hdone with
        | lookupFailed _ hdown | readFailed _ hdown | writeFailed _ hdown =>
          exact ⟨_, o, s', hst, hdown, rfl⟩
        | connectFailed _ hnext =>
          cases hnext with
          | exhausted _ hdown => exact ⟨_, o, s', hst, hdown, rfl⟩
          | missing hrest | next _ hrest =>
            simp [hfatal.2] at hrest
        | handshakeFailed => cases hfatal
        | idle hidle =>
          cases operation with
          | resolve | read | write => exact absurd hfatal hidle
          | connect => exact absurd hfatal.1 hidle
          | handshake => cases hfatal

/-! ## When they end disconnected -/

theorem connect_accepted {s : Impl} (sslSupport : Bool) (hs : s.curstate = .disconnected) :
    ∃ s', s.step sslSupport .connect = some (.returned, s') := by
  have hne : State.connecting ≠ .changed := by decide
  rw [Impl.step, connect_eq hs, bind_ok (emitStateChange_eq _ hne)]
  exact ⟨_, rfl⟩

/-- **A teardown returns** exactly if it finds an open socket. -/
theorem Teardown.returned_iff {s s' : Impl} {o : Outcome} (h : Teardown s o s') :
    o = .returned ↔ s.Closable := by
  cases h with
  | missing hnone =>
    refine iff_of_false (by simp) ?_
    rintro ⟨sock, hsock, -⟩
    simp [hnone] at hsock
  | closed sock hsock hclosed =>
    refine iff_of_false (by simp) ?_
    rintro ⟨sock', hsock', hopen⟩
    cases hsock.symm.trans hsock'
    simp [hclosed] at hopen
  | done sock hsock hopen => exact iff_of_true rfl ⟨sock, hsock, hopen⟩

theorem Teardown.closable {s s' : Impl} {o : Outcome} (h : Teardown s o s') :
    s.Closable ∧ s'.curstate = .disconnected ∨ ¬s.Closable ∧ s' = s := by
  have hreturned := h.returned_iff
  cases h with
  | missing | closed => exact .inr ⟨fun hc => absurd (hreturned.mpr hc) (by simp), rfl⟩
  | done => exact .inl ⟨hreturned.mp rfl, rfl⟩

/-- Such a teardown ends disconnected, with the resolver and the buffers cleared. -/
theorem Teardown.ended {s s' : Impl} (h : Teardown s .returned s')
    (hs : s.resolver = false → s.resolveIterator = []) :
    s'.curstate = .disconnected ∧ s'.resolver = false ∧ s'.resolveIterator = [] ∧
      s'.buffers = s.buffers.clear := by
  cases h with
  | done sock =>
    refine ⟨rfl, rfl, ?_, by simp⟩
    simp only [Impl.enter_resolveIterator, Impl.cleared_resolveIterator, Impl.setOpen_resolver,
      Impl.setOpen_resolveIterator]
    split
    · rfl
    · exact hs (by simpa using ‹¬s.resolver = true›)

/-- A call that is meant to tear the connection down ends disconnected exactly if it finds an open
socket. -/
theorem ends_iff (sslSupport : Bool) {s : Impl} (hs : s.Settled) (call : Call) :
    s.EndsDisconnected sslSupport call ↔ (s.TearsDown call → s.Closable) := by
  refine forall_congr' fun h => ?_
  obtain ⟨s₁, o, s', hst, hdown, hlink⟩ := tearsDown_teardown sslSupport h
  rw [← Impl.Closable.of_link hlink, ← hdown.returned_iff]
  constructor
  · rintro ⟨t, ht, -⟩
    rw [hst] at ht
    cases ht
    rfl
  · rintro rfl
    have hresolver : s₁.resolver = s.resolver := by simpa using congrArg Impl.resolver hlink
    have hiterator : s₁.resolveIterator = s.resolveIterator := by
      simpa using congrArg Impl.resolveIterator hlink
    have hbuffers : s₁.buffers = s.buffers := by simpa using congrArg Impl.buffers hlink
    have hunresolved := hs.unresolved
    rw [← hresolver, ← hiterator] at hunresolved
    obtain ⟨hcur, hres, hiter, hbuf⟩ := hdown.ended hunresolved
    exact ⟨s', hst, hcur, hres, hiter, hbuffers ▸ hbuf, connect_accepted sslSupport hcur⟩

theorem Teardown.ne_disconnecting {s s' : Impl} {o : Outcome} (h : Teardown s o s')
    (hs : s.curstate ≠ .disconnecting) : s'.curstate ≠ .disconnecting := by
  rcases h.left with rfl | hd
  · exact hs
  · simp [hd]

theorem TryNext.ne_disconnecting {s s' : Impl} {o : Outcome} (h : TryNext s o s')
    (hs : s.curstate ≠ .disconnecting) : s'.curstate ≠ .disconnecting := by
  rcases h.left with hcur | hd
  · rwa [hcur]
  · simp [hd]

/-- Handlers do not enter the state disconnecting. -/
theorem Handled.ne_disconnecting {s s' : Impl} {operation : Operation} {completion : Completion}
    {o : Outcome} (h : Handled s operation completion o s') (hs : s.curstate ≠ .disconnecting) :
    s'.curstate ≠ .disconnecting := by
  cases h with
  | idle | handshake | handshakeFailed | received | transferred => exact hs
  | lookupFailed _ hdown | readFailed _ hdown | writeFailed _ hdown =>
    exact hdown.ne_disconnecting hs
  | resolved _ hnext | connectFailed _ hnext => exact hnext.ne_disconnecting hs
  | connected | shaken => simp [Impl.established]

/-- A connection stays disconnecting only after a disconnect that finds no open socket. -/
theorem step_ne_disconnecting {sslSupport : Bool} {s s' : Impl} {call : Call} {o : Outcome}
    (hs : s.Settled) (hcur : s.curstate ≠ .disconnecting) (hc : s.TearsDown call → s.Closable)
    (h : s.step sslSupport call = some (o, s')) : s'.curstate ≠ .disconnecting := by
  cases step_effect h with
  | endpointRefused | setEndpoint | connectRefused | ignored | sendRaw => exact hcur
  | connect => simp [Impl.attempting]
  | disconnect hlive hdown =>
    have hdowns : s.TearsDown .disconnect := by
      have hne := hs.ne_changed
      cases hstate : s.curstate <;> simp_all [Impl.TearsDown]
    obtain ⟨sock, hsock, hopen⟩ := hc hdowns
    cases hdown with
    | missing hnone => exact absurd (hsock.symm.trans hnone) (by simp)
    | closed sock' hsock' hclosed =>
      cases hsock.symm.trans hsock'
      exact absurd (hopen.symm.trans hclosed) (by simp)
    | done => simp
  | deliver _ _ hdone => exact hdone.ne_disconnecting hcur

/-- **When disconnecting ends disconnected.** In any run, every call that is meant to tear the
connection down returns and leaves it disconnected and cleared, and the connection is never
disconnecting between two calls, if and only if each such call finds an open socket. -/
theorem ends_disconnected_iff (sslSupport : Bool) (calls : List Call) :
    ((machine sslSupport).AllCalls (Impl.EndsDisconnected sslSupport) {} calls ∧
      (machine sslSupport).AllStates (fun s => s.curstate ≠ .disconnecting) {} calls) ↔
    (machine sslSupport).AllCalls (fun s call => s.TearsDown call → s.Closable) {} calls := by
  have hinit : Impl.Settled {} := ⟨by decide, by decide, fun _ => rfl⟩
  have hcalls := Machine.AllCalls.congr (M := machine sslSupport) (P := Impl.Settled)
    (fun s call o s' hs hst => step_settled hs hst)
    (fun s call hs => ends_iff sslSupport hs call) hinit calls
  refine ⟨fun h => hcalls.mp h.1, fun h => ⟨hcalls.mpr h, ?_⟩⟩
  have hstates := Machine.AllCalls.allStates (M := machine sslSupport)
    (P := fun s => s.Settled ∧ s.curstate ≠ .disconnecting)
    (fun s call o s' hs hc hst => ⟨step_settled hs.1 hst, ?_⟩) ⟨hinit, by decide⟩ h
  · exact hstates.imp fun s hs => hs.2
  · exact step_ne_disconnecting hs.1 hs.2 hc hst

/-- A disconnect while the name is looked up. -/
def resolving : List Call := [.setEndpoint ['h'] 0, .connect, .disconnect]

theorem disconnect_while_resolving :
    ¬(machine true).AllCalls (Impl.EndsDisconnected true) {} resolving ∧
      ¬(machine true).AllStates (fun s => s.curstate ≠ .disconnecting) {} resolving := by
  let s : Impl :=
    { hostname := ['h']
      curstate := .connecting
      resolver := true
      socket := some {}
      emitted := [stateEvent .connecting]
      operations := [⟨some 1, .resolve ['h'] ['6', '6', '6', '7']⟩]
      attempts := 1 }
  have hrun : (machine true).run {} (resolving.take 2) = some ([.returned, .returned], s) := by
    decide
  have hthrow : s.step true .disconnect =
      some (.threw badDescriptor, s.enter .disconnecting) := by decide
  constructor
  · intro h
    obtain ⟨s', hst, -⟩ :=
      Machine.allCalls_iff.mp h (resolving.take 2) .disconnect [] _ s rfl hrun (.inl rfl)
    rw [hthrow] at hst
    cases hst
  · intro h
    have hend : (machine true).run {} resolving =
        some ([.returned, .returned, .threw badDescriptor], s.enter .disconnecting) := by decide
    exact h.last hend rfl

end Slirc.Connection
