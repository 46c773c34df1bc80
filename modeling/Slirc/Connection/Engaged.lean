import Slirc.Connection.Disconnecting

/-!
# The transport of a connection

`connect` does not test whether an endpoint was set: it starts an attempt also if neither `socket`
nor `ssl` is engaged, which `get_socket` asserts later on.

* `engaged_iff`: a run has a transport whenever it needs one, and the module can be destroyed after
  it, if and only if each accepted `connect` finds a transport and the destructor has nothing to
  close or finds an open socket.
* `connect_without_endpoint`: an attempt that has no transport.
-/

namespace Slirc.Connection

open Program

/-- `~connection` -/
def destroy : Code Unit := disconnect

namespace Impl

/-- A connection that is not disconnected has a transport. -/
def Engaged (s : Impl) : Prop := s.curstate ≠ .disconnected → s.transport.isSome = true

/-- A call of `connect` that is accepted finds a transport. -/
def ConnectsEngaged (s : Impl) : Call → Prop
  | .connect => s.curstate = .disconnected → s.transport.isSome = true
  | _ => True

/-- The module can be destroyed. -/
def Destructible (s : Impl) : Prop := ∃ s', destroy s = .ok () s'

end Impl

/-! ## Steps -/

theorem Teardown.engaged {s s' : Impl} {o : Outcome} (h : Teardown s o s')
    (hs : s.transport.isSome = true) :
    s'.transport.isSome = true ∧ o ≠ .threw missingTransport := by
  cases h with
  | missing hnone => simp [hnone] at hs
  | closed => exact ⟨hs, by decide⟩
  | done sock =>
    refine ⟨?_, by decide⟩
    show (s.setOpen sock false).transport.isSome = true
    rw [Impl.setOpen_transport]
    exact hs

theorem TryNext.engaged {s s' : Impl} {o : Outcome} (h : TryNext s o s')
    (hs : s.transport.isSome = true) :
    s'.transport.isSome = true ∧ o ≠ .threw missingTransport := by
  cases h with
  | exhausted _ hdown => exact hdown.engaged hs
  | missing _ hnone => simp [hnone] at hs
  | next sock =>
    refine ⟨?_, by decide⟩
    show (s.setOpen sock true).transport.isSome = true
    rw [Impl.setOpen_transport]
    exact hs

theorem Handled.engaged {s s' : Impl} {operation : Operation} {completion : Completion}
    {o : Outcome} (h : Handled s operation completion o s') (hs : s.Engaged) :
    s'.Engaged ∧ o ≠ .threw missingTransport := by
  have hsome : ∀ {expected : State}, s.curstate = expected → expected ≠ .disconnected →
      s.transport.isSome = true := fun hcur hne => hs (hcur ▸ hne)
  cases h with
  | idle => exact ⟨hs, by decide⟩
  | lookupFailed hcur hdown | readFailed hcur hdown | writeFailed hcur hdown =>
    obtain ⟨hsock, ho⟩ := hdown.engaged (hsome hcur (by decide))
    exact ⟨fun _ => hsock, ho⟩
  | resolved hcur hnext | connectFailed hcur hnext =>
    obtain ⟨hsock, ho⟩ := hnext.engaged (hsome hcur (by decide))
    exact ⟨fun _ => hsock, ho⟩
  | handshake hcur | connected hcur | handshakeFailed hcur | shaken hcur | received hcur
  | transferred hcur => exact ⟨fun _ => hsome hcur (by decide), by decide⟩

/-- **A step keeps a transport that is needed**, unless it is a `connect` that finds none. -/
theorem step_engaged {sslSupport : Bool} {s s' : Impl} {call : Call} {o : Outcome}
    (hs : s.Engaged) (h : s.step sslSupport call = some (o, s')) :
    (s'.Engaged ↔ s.ConnectsEngaged call) ∧ o ≠ .threw missingTransport := by
  cases step_effect h with
  | endpointRefused => exact ⟨by simp [Impl.ConnectsEngaged, hs], by decide⟩
  | setEndpoint _ _ _ _ hd ho =>
    refine ⟨by simp [Impl.ConnectsEngaged, Impl.Engaged, hd], ?_⟩
    rcases ho with rfl | rfl <;> decide
  | connectRefused hcur => exact ⟨by simp [Impl.ConnectsEngaged, hs, hcur], by decide⟩
  | connect hd =>
    refine ⟨?_, by decide⟩
    show (State.connecting ≠ .disconnected → s.transport.isSome = true) ↔ _
    simp [Impl.ConnectsEngaged, hd]
  | ignored => exact ⟨by simp [Impl.ConnectsEngaged, hs], by decide⟩
  | disconnect hlive hdown =>
    have hsome : s.transport.isSome = true := hs fun hd => hlive (.inr hd)
    obtain ⟨hsock, ho⟩ := Teardown.engaged (s := s.enter .disconnecting) hdown hsome
    exact ⟨iff_of_true (fun _ => hsock) trivial, ho⟩
  | sendRaw => exact ⟨iff_of_true hs trivial, by decide⟩
  | @deliver i _ _ _ _ _ _ hdone =>
    have hwithout : (s.without i).Engaged := hs
    obtain ⟨hs', ho⟩ := hdone.engaged hwithout
    exact ⟨iff_of_true hs' trivial, ho⟩

/-! ## Runs -/

theorem destructible_iff {s : Impl} (hs : s.curstate ≠ .changed) :
    s.Destructible ↔ s.curstate = .disconnected ∨ s.curstate = .disconnecting ∨ s.Closable := by
  by_cases hidle : s.curstate = .disconnecting ∨ s.curstate = .disconnected
  · refine iff_of_true ⟨s, disconnect_idle hidle⟩ ?_
    rcases hidle with h | h
    · exact .inr (.inl h)
    · exact .inl h
  · have hdowns : s.TearsDown .disconnect := by
      cases hcur : s.curstate <;> simp_all [Impl.TearsDown]
    obtain ⟨s₁, o, s', hst, hdown, hlink⟩ := tearsDown_teardown true hdowns
    have hclosable := (hdown.returned_iff).trans (Impl.Closable.of_link hlink)
    have hreturned : s.Destructible ↔ o = .returned := by
      constructor
      · rintro ⟨t, ht⟩
        have hout : outcome (disconnect s) = some (.returned, t) := outcome_returned.mpr ht
        rw [Impl.step, hout] at hst
        cases hst
        rfl
      · rintro rfl
        exact ⟨s', outcome_returned.mp hst⟩
    rw [hreturned, hclosable]
    refine ⟨fun h => .inr (.inr h), ?_⟩
    rintro (h | h | h)
    · exact absurd (.inr h) hidle
    · exact absurd (.inl h) hidle
    · exact h

/-- No step of a run whose states have the transport they need throws for lack of it. -/
theorem run_engaged {sslSupport : Bool} {s s' : Impl} {calls : List Call} {os : List Outcome}
    (h : (machine sslSupport).AllStates Impl.Engaged s calls)
    (hrun : (machine sslSupport).run s calls = some (os, s')) :
    .threw missingTransport ∉ os := by
  induction calls generalizing s os with
  | nil =>
    cases hrun
    exact List.not_mem_nil
  | cons call calls ih =>
    obtain ⟨o, t, os', hst, hr, rfl⟩ := Machine.run_cons_inv hrun
    rw [List.mem_cons, not_or]
    exact ⟨(step_engaged h.1 hst).2.symm, ih (h.2 o t hst) hr⟩

/-- **When a transport exists whenever it is needed.** After any run, the connection has had a
transport whenever it was not disconnected, no call threw for lack of one, and the module can be
destroyed, if and only if each `connect` that was accepted found a transport, and the destructor has
nothing to close or finds an open socket. -/
theorem engaged_iff {sslSupport : Bool} {calls : List Call} {os : List Outcome} {s : Impl}
    (hrun : (machine sslSupport).run {} calls = some (os, s)) :
    ((machine sslSupport).AllStates Impl.Engaged {} calls ∧ .threw missingTransport ∉ os ∧
      s.Destructible) ↔
    (machine sslSupport).AllSteps Impl.ConnectsEngaged {} calls ∧
      (s.curstate = .disconnected ∨ s.curstate = .disconnecting ∨ s.Closable) := by
  have hinit : Impl.Engaged {} := fun h => absurd rfl h
  have hstates := Machine.allStates_iff_allSteps (M := machine sslSupport) (P := Impl.Engaged)
    (Q := Impl.Engaged) (fun _ hs => hs) (fun s call o s' hs hst => (step_engaged hs hst).1)
    (fun _ _ _ _ _ _ hs' => hs') hinit calls
  have hne : s.curstate ≠ .changed := (reaches_walked ⟨calls, os, hrun⟩).ne_changed (by decide)
  rw [hstates, destructible_iff hne]
  refine ⟨fun h => ⟨h.1, h.2.2⟩, fun h => ⟨h.1, ?_, h.2⟩⟩
  exact run_engaged (hstates.mpr h.1) hrun

/-- The connection after an attempt that was abandoned. -/
def afterAbandoned : Impl where
  hostname := ['h']
  socket := some {}
  emitted := [stateEvent .connecting, stateEvent .disconnecting, stateEvent .disconnected]
  operations := [⟨some 1, .connect ⟨['a'], 1⟩⟩]
  attempts := 1

theorem engaged_iff_abandoned :
    (machine true).AllStates Impl.Engaged {} abandoned ∧
      Outcome.threw missingTransport ∉ List.replicate 4 Outcome.returned ∧
      afterAbandoned.Destructible := by
  have hrun : (machine true).run {} abandoned =
      some (List.replicate 4 .returned, afterAbandoned) := by decide
  have hfirst : (machine true).step {} (.setEndpoint ['h'] 0) =
      some (.returned, { hostname := ['h'], socket := some {} }) := by decide
  refine (engaged_iff hrun).mpr ⟨fun o t hst => ⟨trivial, fun _ _ _ => ⟨fun _ => ?_, ?_⟩⟩,
    .inl rfl⟩
  · rw [hfirst] at hst
    cases hst
    rfl
  · exact fun _ _ _ => ⟨trivial, fun _ _ _ => ⟨trivial, trivial⟩⟩

/-- An attempt that begins without an endpoint, and the handler of its lookup. -/
def withoutEndpoint : List Call := [.connect, .deliver 0 (.resolved [⟨['a'], 1⟩])]

/-- Nothing that holds of a connection with a transport holds after it. -/
theorem connect_without_endpoint : ∃ os s, (machine true).run {} withoutEndpoint = some (os, s) ∧
    ¬s.Engaged ∧ .threw missingTransport ∈ os ∧ ¬s.Destructible := by
  refine ⟨[.returned, .threw missingTransport],
    { curstate := .connecting
      resolver := true
      resolveIterator := [⟨['a'], 1⟩]
      emitted := [stateEvent .connecting]
      attempts := 1 }, by decide, fun h => absurd (h (by decide)) (by decide), by decide, ?_⟩
  rw [destructible_iff (by decide)]
  simp [Impl.Closable, Impl.transport]

end Slirc.Connection
