import Slirc.Connection.Steps

/-!
# Connection attempts

An attempt goes on from a successful `connect` until the state becomes disconnected. A completion
handler cannot see which attempt its operation was started in: it tests the state only.

* `ended_forever`: an attempt that has ended is never taken up again.
* `isolated_iff`: the handlers of past attempts have no effect in a run if and only if none of them
  is delivered in the state that it tests, unless it is vacuous.
* `late_handler_acts`: a handler that is delivered to a later attempt.
-/

namespace Slirc.Connection

open Program

namespace Impl

/-- The attempt has ended: a later one has begun, or the connection is disconnected. -/
def Ended (s : Impl) (attempt : Nat) : Prop :=
  attempt < s.attempts ∨ attempt = s.attempts ∧ s.curstate = .disconnected

/-- The operation was started in an attempt that has ended. -/
def Late (s : Impl) (x : Started) : Prop := ∃ attempt, x.attempt = some attempt ∧ s.Ended attempt

/-- A handler of a past attempt has no effect if it is delivered: its operation has completed, and
nothing else has changed. -/
def Isolated (s : Impl) : Call → Prop
  | .deliver i completion => ∀ x, s.operations[i]? = some x → s.Late x →
    (x.operation.complete completion).isSome = true →
      s.deliver i completion = some (.returned, s.without i)
  | _ => True

/-- No handler of a past attempt is delivered in the state that it tests, unless it is vacuous. -/
def InAnotherState (s : Impl) : Call → Prop
  | .deliver i completion => ∀ x, s.operations[i]? = some x → s.Late x →
    (x.operation.complete completion).isSome = true →
      s.curstate ≠ x.operation.expects ∨ x.operation.Vacuous s.buffers completion
  | _ => True

theorem Ended.of_le {s s' : Impl} {attempt : Nat} (h : s.Ended attempt)
    (hle : s.attempts ≤ s'.attempts)
    (hs : s.curstate = .disconnected → s'.curstate = .disconnected ∨ s.attempts < s'.attempts) :
    s'.Ended attempt := by
  rcases h with hlt | ⟨rfl, hd⟩
  · exact .inl (Nat.lt_of_lt_of_le hlt hle)
  · rcases hs hd with hd' | hlt
    · rcases Nat.lt_or_eq_of_le hle with hlt | heq
      · exact .inl hlt
      · exact .inr ⟨heq, hd'⟩
    · exact .inl hlt

end Impl

/-- The state and the number of attempts. -/
def Impl.phase (s : Impl) : State × Nat := (s.curstate, s.attempts)

theorem Impl.Ended.of_phase {s s' : Impl} {attempt : Nat} (h : s.Ended attempt)
    (hs : s'.phase = s.phase) : s'.Ended attempt := by
  obtain ⟨hcur, hatt⟩ := Prod.mk.inj hs
  exact h.of_le (Nat.le_of_eq hatt.symm) fun hd => .inl (hcur.trans hd)

theorem Teardown.attempts {s s' : Impl} {o : Outcome} (h : Teardown s o s') :
    s'.attempts = s.attempts := by
  cases h with
  | missing | closed => rfl
  | done => simp

theorem TryNext.attempts {s s' : Impl} {o : Outcome} (h : TryNext s o s') :
    s'.attempts = s.attempts := by
  cases h with
  | exhausted _ hdown => exact hdown.attempts
  | missing => rfl
  | next => simp [Impl.trying]

theorem Handled.attempts {s s' : Impl} {operation : Operation} {completion : Completion}
    {o : Outcome} (h : Handled s operation completion o s') : s'.attempts = s.attempts := by
  cases h with
  | idle | handshake | handshakeFailed | connected | shaken | received | transferred => rfl
  | lookupFailed _ hdown | readFailed _ hdown | writeFailed _ hdown => exact hdown.attempts
  | resolved _ hnext | connectFailed _ hnext => exact hnext.attempts

/-- No handler tests for the state disconnected. -/
theorem Handled.of_disconnected {s s' : Impl} {operation : Operation} {completion : Completion}
    {o : Outcome} (h : Handled s operation completion o s') (hs : s.curstate = .disconnected) :
    s' = s := by
  cases h with
  | idle => rfl
  | lookupFailed hcur | resolved hcur | connectFailed hcur | handshake hcur | connected hcur
  | handshakeFailed hcur | shaken hcur | readFailed hcur | received hcur | writeFailed hcur
  | transferred hcur => cases hs.symm.trans hcur

/-- **An attempt that has ended stays ended.** Only `connect` leaves the state disconnected, and it
begins a new attempt. -/
theorem step_ended {sslSupport : Bool} {s s' : Impl} {call : Call} {o : Outcome} {attempt : Nat}
    (h : s.Ended attempt) (hst : s.step sslSupport call = some (o, s')) : s'.Ended attempt := by
  cases step_effect hst with
  | endpointRefused | connectRefused | ignored => exact h
  | setEndpoint => exact h.of_phase rfl
  | connect => exact h.of_le (Nat.le_succ _) fun _ => .inr (Nat.lt_succ_self _)
  | disconnect hne hdown =>
    exact h.of_le (Nat.le_of_eq hdown.attempts.symm) fun hd => absurd (.inr hd) hne
  | sendRaw => exact h.of_phase rfl
  | deliver _ _ hdone =>
    refine h.of_le (Nat.le_of_eq hdone.attempts.symm) fun hd => .inl ?_
    rw [hdone.of_disconnected hd]
    exact hd

/-- An attempt that has ended is never taken up again. -/
theorem ended_forever {sslSupport : Bool} {s s' : Impl} {attempt : Nat} (h : s.Ended attempt)
    (hr : (machine sslSupport).Reaches s s') : s'.Ended attempt :=
  hr.inv (P := fun s => s.Ended attempt) (fun _ _ _ _ hs hst => step_ended hs hst) h

/-! ## What a handler leaves -/

theorem Teardown.progress {s s' : Impl} (h : Teardown s .returned s') :
    s.progress < s'.progress := by
  cases h with
  | done => simp [Impl.progress]

theorem TryNext.progress {s s' : Impl} (h : TryNext s .returned s') :
    s.progress < s'.progress := by
  cases h with
  | exhausted _ hdown => exact hdown.progress
  | next => simp [Impl.progress, Impl.trying]

/-- **A handler that passes its test** and returns emits an event or starts an operation; only the
handler of a write may do no more than change the buffers. -/
theorem Handled.progress {s s' : Impl} {operation : Operation} {completion : Completion}
    (h : Handled s operation completion .returned s') (hs : s.curstate = operation.expects) :
    s.progress < s'.progress ∨ ∃ request num, operation = .write request ∧
      completion = .transferred num ∧ s' = s.writing (s.buffers.advance num) := by
  have herror : ∀ errorMessage errorCode,
      s.progress < (s.emitting [errorEvent errorMessage errorCode]).progress := by
    intro errorMessage errorCode
    simp [Impl.progress]
  cases h with
  | idle hne => exact absurd hs hne
  | lookupFailed _ hdown | readFailed _ hdown | writeFailed _ hdown =>
    exact .inl ((herror _ _).trans hdown.progress)
  | resolved _ hnext => exact .inl hnext.progress
  | connectFailed _ hnext => exact .inl ((herror _ _).trans hnext.progress)
  | handshakeFailed => exact .inl (herror _ _)
  | handshake => exact .inl (by simp [Impl.progress])
  | connected | shaken =>
    refine .inl ?_
    simp only [Impl.progress, Impl.established]
    simp
    omega
  | received =>
    refine .inl ?_
    simp only [Impl.progress, Impl.reading]
    simp
    omega
  | transferred => exact .inr ⟨_, _, rfl, rfl, rfl⟩

/-- A write that changes nothing. -/
theorem writing_eq_self {s : Impl} {r : Buffers × Option WriteRequest} :
    s.writing r = s ↔ r = (s.buffers, none) := by
  constructor
  · intro h
    have hoperations := congrArg Impl.operations h
    simp only [Impl.writing_operations, List.append_right_eq_self, List.map_eq_nil_iff,
      Option.toList_eq_nil_iff] at hoperations
    exact Prod.ext (congrArg Impl.buffers h) hoperations
  · rintro rfl
    simp [Impl.writing]

/-- The handler of a write that has no effect. -/
theorem vacuous_self {operation : Operation} {completion : Completion} {code : Code Unit} {s : Impl}
    (h : operation.complete completion = some code) (hs : s.curstate = operation.expects)
    (hvac : operation.Vacuous s.buffers completion) : code s = .ok () s := by
  unfold Operation.Vacuous at hvac
  split at hvac
  · rename_i request num
    have hsame := (s.buffers.advance_eq_self num).mpr hvac
    have hsock : (s.buffers.advance num).2.isSome = true → s.transport.isSome = true := by
      simp [hsame]
    obtain ⟨-, hcode⟩ := Option.ite_none_right_eq_some.mp h
    cases hcode
    rw [sendCallback_ok hs, runBuffers_eq hsock, writing_eq_self.mpr hsame]
  · exact hvac.elim

/-- **When a handler has no effect**: only if it does not pass its test, or is vacuous. -/
theorem complete_self {operation : Operation} {completion : Completion} {code : Code Unit}
    (h : operation.complete completion = some code) (s : Impl) :
    code s = .ok () s ↔
      s.curstate ≠ operation.expects ∨ operation.Vacuous s.buffers completion := by
  by_cases hs : s.curstate = operation.expects
  · rw [or_iff_right (not_not.mpr hs)]
    refine ⟨fun hself => ?_, vacuous_self h hs⟩
    have hdone := complete_active h hs (outcome_returned.mpr hself)
    rcases hdone.progress hs with hlt | ⟨request, num, rfl, rfl, hwrite⟩
    · exact absurd hlt (lt_irrefl _)
    · exact (s.buffers.advance_eq_self num).mp (writing_eq_self.mp hwrite.symm)
  · exact iff_of_true (complete_idle h hs) (.inl hs)

/-- **What a delivery does**: nothing exactly if the handler does not pass its test, or is
vacuous. -/
theorem deliver_eq_without {s : Impl} {i : Nat} {completion : Completion} {x : Started}
    (hx : s.operations[i]? = some x)
    (hc : (x.operation.complete completion).isSome = true) :
    s.deliver i completion = some (.returned, s.without i) ↔
      s.curstate ≠ x.operation.expects ∨ x.operation.Vacuous s.buffers completion := by
  obtain ⟨code, hcode⟩ := Option.isSome_iff_exists.mp hc
  have hrun : s.deliver i completion = outcome (code (s.without i)) := deliver_eq true hx hcode
  rw [hrun, outcome_returned]
  exact complete_self hcode (s.without i)

/-- **When attempts are isolated.** In any run of calls and deliveries, all handlers of past
attempts have no effect if and only if none of them is delivered in the state that it tests, unless
it is vacuous: a handler tells past attempts from the present one only by the state. -/
theorem isolated_iff (sslSupport : Bool) (calls : List Call) :
    (machine sslSupport).AllCalls Impl.Isolated {} calls ↔
      (machine sslSupport).AllCalls Impl.InAnotherState {} calls := by
  have hone : ∀ s call, Impl.Isolated s call ↔ Impl.InAnotherState s call := by
    intro s call
    cases call with
    | deliver i completion =>
      refine forall_congr' fun x => forall_congr' fun hx => forall_congr' fun _ =>
        forall_congr' fun hc => ?_
      exact deliver_eq_without hx hc
    | _ => exact Iff.rfl
  simp only [Machine.allCalls_iff, hone]

/-- An attempt that is disconnected while it connects, and a new one. -/
def reconnected : List Call :=
  [.setEndpoint ['h'] 0, .connect, .deliver 0 (.resolved [⟨['a'], 1⟩]), .disconnect, .connect]

theorem late_handler_acts :
    ¬ ∀ calls os s, (machine true).run {} calls = some (os, s) → ∀ call, s.Isolated call := by
  intro h
  have hs := h reconnected (List.replicate 5 .returned)
    { hostname := ['h']
      curstate := .connecting
      resolver := true
      socket := some {}
      emitted := [stateEvent .connecting, stateEvent .disconnecting, stateEvent .disconnected,
        stateEvent .connecting]
      operations := [⟨some 1, .connect ⟨['a'], 1⟩⟩, ⟨some 2, .resolve ['h'] ['6', '6', '6', '7']⟩]
      attempts := 2 } (by decide)
    (.deliver 0 (.failed ⟨125, "Operation canceled"⟩)) _ rfl ⟨1, rfl, .inl (by decide)⟩ rfl
  exact absurd (congrArg (Option.map Prod.fst) hs) (by decide)

end Slirc.Connection
