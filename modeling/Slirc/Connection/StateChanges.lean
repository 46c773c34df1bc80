import Slirc.Connection.Steps
import Slirc.Lib.Walk

/-!
# State changes

The events that announce the states of a connection form a walk along `Legal`, from disconnected to
the state that the connection is in (`stateChanges_walk`). Each of them is handled as `changed`
first, and then as its state.
-/

namespace Slirc.Connection

/-- The states that a state may follow. -/
def State.predecessors : State → List State
  | .connecting => [.disconnected]
  | .connected => [.connecting]
  | .disconnecting => [.connecting, .connected]
  | .disconnected => [.connecting, .connected, .disconnecting]
  | .changed => []

/-- The second state may follow the first. -/
def Legal (oldstate newstate : State) : Prop := oldstate ∈ newstate.predecessors

instance (oldstate newstate : State) : Decidable (Legal oldstate newstate) :=
  inferInstanceAs (Decidable (_ ∈ _))

theorem Legal.ne {oldstate newstate : State} (h : Legal oldstate newstate) :
    oldstate ≠ newstate := by
  rintro rfl
  cases oldstate <;> simp [Legal, State.predecessors] at h

/-- The state whose id an event has. -/
def Event.newstate (e : Event) : Option State :=
  [State.disconnected, .connecting, .connected, .disconnecting, .changed].find?
    fun newstate => newstate.id = e.originalId

/-- The states that were announced, in the order in which their events were put on the main
queue. -/
def Impl.stateChanges (s : Impl) : List State := s.emitted.filterMap Event.newstate

/-- An event that announces a state is handled as `changed`, and then as the state. -/
def Event.Announced (e : Event) : Prop :=
  ∀ newstate, e.newstate = some newstate → e.idQueue.pending = some [State.changed.id, newstate.id]

/-- A step from `s` to `s'` announces a walk between their states. -/
def Walked (s s' : Impl) : Prop :=
  ∃ events, s'.emitted = s.emitted ++ events ∧ (∀ e ∈ events, e.Announced) ∧
    Walk Legal s.curstate (events.filterMap Event.newstate) s'.curstate

namespace Walked

variable {s s' s'' : Impl}

theorem refl (s : Impl) : Walked s s := ⟨[], by simp, by simp, .nil _⟩

theorem trans (h : Walked s s') (h' : Walked s' s'') : Walked s s'' := by
  obtain ⟨events, hemitted, hann, hwalk⟩ := h
  obtain ⟨events', hemitted', hann', hwalk'⟩ := h'
  refine ⟨events ++ events', by rw [hemitted', hemitted, List.append_assoc], ?_, ?_⟩
  · exact fun e he => (List.mem_append.mp he).elim (hann e) (hann' e)
  · rw [List.filterMap_append]
    exact hwalk.append hwalk'

/-- Nothing is announced, and the state is the same. -/
theorem of_eq (hemitted : s'.emitted = s.emitted) (hcur : s'.curstate = s.curstate) :
    Walked s s' := by
  obtain ⟨events, he, hann, hwalk⟩ := refl s
  exact ⟨events, hemitted.trans he, hann, hcur ▸ hwalk⟩

/-- Events that announce no state. -/
theorem emitting {events : List Event} (h : ∀ e ∈ events, e.newstate = none) :
    Walked s (s.emitting events) := by
  refine ⟨events, rfl, fun e he newstate hnew => ?_, ?_⟩
  · rw [h e he] at hnew
    cases hnew
  · rw [List.filterMap_eq_nil_iff.mpr h]
    exact .nil _

theorem emitting_error (errorMessage : String) (errorCode : ErrorCode) :
    Walked s (s.emitting [errorEvent errorMessage errorCode]) :=
  emitting fun e he => by
    rw [List.mem_singleton.mp he]
    rfl

theorem enter {newstate : State} (h : Legal s.curstate newstate) : Walked s (s.enter newstate) := by
  have hnew : (stateEvent newstate).newstate = some newstate := by
    cases newstate <;> rfl
  refine ⟨[stateEvent newstate], rfl, fun e he newstate' hnew' => ?_, ?_⟩
  · obtain rfl := List.mem_singleton.mp he
    cases hnew.symm.trans hnew'
    cases newstate <;> rfl
  · simp only [List.filterMap_cons, hnew, List.filterMap_nil]
    exact .single h

end Walked

theorem Teardown.walked {s s' : Impl} {o : Outcome} (h : Teardown s o s')
    (hs : Legal s.curstate .disconnected) : Walked s s' := by
  cases h with
  | missing => exact .refl s
  | closed => exact .refl s
  | done sock =>
    have hstay : Walked s (s.setOpen sock false).cleared := .of_eq (by simp) (by simp)
    exact hstay.trans (.enter (by simpa using hs))

theorem TryNext.walked {s s' : Impl} {o : Outcome} (h : TryNext s o s')
    (hs : Legal s.curstate .disconnected) : Walked s s' := by
  cases h with
  | exhausted _ hdown => exact hdown.walked hs
  | missing => exact .refl s
  | next sock => exact .of_eq (by simp [Impl.trying]) (by simp [Impl.trying])

theorem Impl.established_walked {s : Impl} (hs : s.curstate = .connecting) :
    Walked s s.established := by
  have hstay : Walked s s.cleared := .of_eq rfl rfl
  have hlegal : Legal s.cleared.curstate .connected := by
    show Legal s.curstate .connected
    rw [hs]
    decide
  exact hstay.trans ((Walked.enter hlegal).trans (.of_eq rfl rfl))

theorem Impl.reading_walked (s : Impl) : Walked s s.reading := by
  let rest := (recvLoop s.buffers.recvBuffer 0).2
  have hread : Walked s { s with buffers := { s.buffers with recvBuffer := rest } } :=
    .of_eq rfl rfl
  refine hread.trans ((Walked.emitting fun e he => ?_).trans (.of_eq rfl rfl))
  obtain ⟨line, -, rfl⟩ := List.mem_map.mp he
  rfl

theorem Handled.walked {s s' : Impl} {operation : Operation} {completion : Completion}
    {o : Outcome} (h : Handled s operation completion o s') : Walked s s' := by
  cases h with
  | idle => exact .refl s
  | lookupFailed hs hdown =>
    exact .trans (.emitting_error _ _) (hdown.walked (by simp [hs, Legal, State.predecessors]))
  | resolved hs hnext =>
    exact .trans (.of_eq rfl rfl) (hnext.walked (by simp [hs, Legal, State.predecessors]))
  | connectFailed hs hnext =>
    exact .trans (.emitting_error _ _) (hnext.walked (by simp [hs, Legal, State.predecessors]))
  | handshake => exact .of_eq rfl rfl
  | connected hs => exact Impl.established_walked hs
  | handshakeFailed => exact .emitting_error _ _
  | shaken hs => exact Impl.established_walked hs
  | readFailed hs hdown =>
    exact .trans (.emitting_error _ _) (hdown.walked (by simp [hs, Legal, State.predecessors]))
  | received => exact .trans (.of_eq rfl rfl) (Impl.reading_walked _)
  | writeFailed hs hdown =>
    exact .trans (.emitting_error _ _) (hdown.walked (by simp [hs, Legal, State.predecessors]))
  | transferred => exact .of_eq rfl rfl

theorem Effect.walked {s s' : Impl} {call : Call} {o : Outcome} (h : Effect s call o s')
    (hs : s.curstate ≠ .changed) : Walked s s' := by
  cases h with
  | endpointRefused => exact .refl s
  | setEndpoint => exact .of_eq rfl rfl
  | connectRefused => exact .refl s
  | connect hd =>
    have hstay : Walked s { s with attempts := s.attempts + 1 } := .of_eq rfl rfl
    have hlegal : Legal s.curstate .connecting := by
      rw [hd]
      decide
    exact hstay.trans ((Walked.enter hlegal).trans (.of_eq rfl rfl))
  | ignored => exact .refl s
  | disconnect hlive hdown =>
    have hlegal : Legal s.curstate .disconnecting := by
      cases hcur : s.curstate <;> simp_all [Legal, State.predecessors]
    exact (Walked.enter hlegal).trans (hdown.walked (by simp [Legal, State.predecessors]))
  | sendRaw => exact .of_eq rfl rfl
  | deliver _ _ hdone =>
    exact .trans (.of_eq rfl rfl) hdone.walked

/-- No state may follow `changed`, and it may follow none. -/
theorem Walked.ne_changed {s s' : Impl} (h : Walked s s') (hs : s.curstate ≠ .changed) :
    s'.curstate ≠ .changed := by
  obtain ⟨events, -, -, hwalk⟩ := h
  refine hwalk.last (P := fun t => t ≠ .changed) hs fun oldstate newstate hlegal => ?_
  rintro rfl
  cases hlegal

theorem reaches_walked {sslSupport : Bool} {s : Impl} (h : (machine sslSupport).Reaches {} s) :
    Walked {} s := by
  refine h.inv (P := Walked {}) (fun s call o s' hs hst => ?_) (.refl {})
  exact hs.trans ((step_effect hst).walked (hs.ne_changed (by decide)))

/-- **State changes.** In every run, late and failing handlers included, the states that were
announced form a walk that begins in disconnected, never stays where it is, and ends in the current
state; and an event that announces a state is handled as `changed` first, and then as the state. -/
theorem stateChanges_walk {sslSupport : Bool} {s : Impl}
    (h : (machine sslSupport).Reaches {} s) :
    List.IsChain Legal (.disconnected :: s.stateChanges) ∧
      List.IsChain (· ≠ ·) (.disconnected :: s.stateChanges) ∧
      s.stateChanges.getLastD .disconnected = s.curstate ∧
      ∀ e ∈ s.emitted, ∀ newstate : State, e.originalId = newstate.id →
        e.idQueue.pending = some [State.changed.id, newstate.id] := by
  obtain ⟨events, hemitted, hann, hwalk⟩ := reaches_walked h
  obtain rfl : s.emitted = events := hemitted
  obtain ⟨hchain, hlast⟩ := Walk.iff_isChain.mp hwalk
  refine ⟨hchain, hchain.imp fun _ _ => Legal.ne, hlast, fun e he newstate hid => ?_⟩
  refine hann e he newstate ?_
  rw [Event.newstate, hid]
  cases newstate <;> rfl

/-- An attempt that is disconnected while it connects. -/
def abandoned : List Call :=
  [.setEndpoint ['h'] 0, .connect, .deliver 0 (.resolved [⟨['a'], 1⟩]), .disconnect]

theorem stateChanges_walk_abandoned :
    List.IsChain Legal [.disconnected, .connecting, .disconnecting, .disconnected] := by
  have hreach : (machine true).Reaches {}
      { hostname := ['h']
        socket := some {}
        emitted := [stateEvent .connecting, stateEvent .disconnecting, stateEvent .disconnected]
        operations := [⟨some 1, .connect ⟨['a'], 1⟩⟩]
        attempts := 1 } :=
    ⟨abandoned, List.replicate 4 .returned, by decide⟩
  exact (stateChanges_walk hreach).1

end Slirc.Connection
