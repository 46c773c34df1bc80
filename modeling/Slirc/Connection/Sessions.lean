import Slirc.Connection.SendJob
import Slirc.Connection.Steps

/-!
# The send job of a connection

What the send job reads of a connection is its state, its buffers and the writes that have not
completed (`Core`). Every state that a run of the connection reaches is, in this respect, one that
the send job reaches (`covered_of_reaches`): what holds of all runs of the send job holds of all
runs of the connection.

Most steps leave the core as it is; the others do one step of the send job, or two.
-/

namespace Slirc.Connection

open Program

/-- The request of a write. -/
def Operation.writeRequest : Operation → Option WriteRequest
  | .write request => some request
  | _ => none

/-- What the send job reads of a connection. -/
structure Core where
  curstate : State
  buffers : Buffers
  writes : List WriteRequest
  deriving DecidableEq, Repr

def Impl.core (s : Impl) : Core where
  curstate := s.curstate
  buffers := s.buffers
  writes := s.operations.filterMap (·.operation.writeRequest)

def SendJob.core (j : SendJob) : Core where
  curstate := j.curstate
  buffers := j.buffers
  writes := j.writes.map (·.request)

/-- A run of the send job reaches the core. -/
def Covered (c : Core) : Prop := ∃ j, SendJob.machine.Reaches {} j ∧ j.core = c

namespace Covered

variable {c : Core}

theorem of_step {j j' : SendJob} (op : ConnectionOp) (h : SendJob.machine.Reaches {} j)
    (hst : j.step op = some j') : Covered j'.core := by
  have hmachine : SendJob.machine.step j op = some ((), j') := by
    simp only [SendJob.machine, hst, Option.map_some]
  exact ⟨j', h.trans (.single hmachine), rfl⟩

theorem connect (h : Covered c) (hc : c.curstate = .disconnected) :
    Covered { c with curstate := .connecting } := by
  obtain ⟨j, hr, rfl⟩ := h
  exact of_step .connect hr (if_pos hc)

theorem connectSuccess (h : Covered c) (hc : c.curstate = .connecting) :
    Covered { c with curstate := .connected, buffers := c.buffers.clear } := by
  obtain ⟨j, hr, rfl⟩ := h
  exact of_step .connectSuccess hr (if_pos hc)

theorem disconnect (h : Covered c)
    (hc : ¬(c.curstate = .disconnecting ∨ c.curstate = .disconnected)) :
    Covered { c with curstate := .disconnected, buffers := c.buffers.clear } := by
  obtain ⟨j, hr, rfl⟩ := h
  exact of_step (.disconnect true) hr (if_neg hc)

theorem interrupt (h : Covered c)
    (hc : ¬(c.curstate = .disconnecting ∨ c.curstate = .disconnected)) :
    Covered { c with curstate := .disconnecting } := by
  obtain ⟨j, hr, rfl⟩ := h
  exact of_step (.disconnect false) hr (if_neg hc)

theorem receive (h : Covered c) (recvBuffer : List Char) :
    Covered { c with buffers := { c.buffers with recvBuffer } } := by
  obtain ⟨j, hr, rfl⟩ := h
  exact of_step (.receive recvBuffer) hr rfl

theorem append (h : Covered c) (data : List Char) :
    Covered { c with
      buffers := (c.buffers.append data).1
      writes := c.writes ++ (c.buffers.append data).2.toList } := by
  obtain ⟨j, hr, rfl⟩ := h
  have hcov := of_step (.send (.append data)) hr rfl
  simpa [SendJob.core, SendJob.start, Function.comp_def] using hcov

theorem drop (h : Covered c) {i : Nat} {request : WriteRequest}
    (hx : c.writes[i]? = some request) : Covered { c with writes := c.writes.eraseIdx i } := by
  obtain ⟨j, hr, rfl⟩ := h
  obtain ⟨x, hw, rfl⟩ := (List.getElem?_map ..).symm.trans hx |> Option.map_eq_some_iff.mp
  have hst : j.step (.fail i false) = some (j.consume i) := by
    simp [SendJob.step, hw]
  have hcov := of_step _ hr hst
  simpa [SendJob.core, SendJob.consume, List.eraseIdx_map] using hcov

theorem complete (h : Covered c) (hc : c.curstate = .connected) {i num : Nat}
    {request : WriteRequest} (hx : c.writes[i]? = some request) (hnum : num ≤ request.size) :
    Covered { c with
      buffers := (c.buffers.advance num).1
      writes := c.writes.eraseIdx i ++ (c.buffers.advance num).2.toList } := by
  obtain ⟨j, hr, rfl⟩ := h
  obtain ⟨x, hw, rfl⟩ := (List.getElem?_map ..).symm.trans hx |> Option.map_eq_some_iff.mp
  let bytes := (j.buffers.sendBuffer.drop x.request.offset).take num
  let j' := SendJob.start { j.consume i with written := j.written ++ bytes } (j.buffers.advance num)
  have hst : j.step (.send (.complete i num)) = some j' := by
    have hconn : j.curstate = .connected := hc
    simp only [SendJob.step, SendJob.sendStep, hw, Option.bind_some, if_pos hnum, if_pos hconn]
    rfl
  have hcov := of_step _ hr hst
  simpa [j', SendJob.core, SendJob.start, SendJob.consume, List.eraseIdx_map,
    Function.comp_def] using hcov

end Covered

/-! ## Steps -/

theorem starting_core (s : Impl) (operation : Operation) (h : operation.writeRequest = none) :
    (s.starting operation).core = s.core := by
  simp [Impl.core, List.filterMap_append, h]

theorem writing_core (s : Impl) (r : Buffers × Option WriteRequest) :
    (s.writing r).core =
      { s.core with buffers := r.1, writes := s.core.writes ++ r.2.toList } := by
  cases hr : r.2 <;> simp [Impl.core, hr, Operation.writeRequest]

theorem setOpen_core (s : Impl) (sock : Transport) (isOpen : Bool) :
    (s.setOpen sock isOpen).core = s.core := by
  cases sock <;> rfl

theorem trying_core (s : Impl) (sock : Transport) (endpoint : Resolved) (rest : List Resolved) :
    (s.trying sock endpoint rest).core = s.core :=
  (starting_core _ (.connect endpoint) rfl).trans (setOpen_core s sock true)

theorem established_core (s : Impl) :
    s.established.core = { s.core with curstate := .connected, buffers := s.buffers.clear } :=
  starting_core _ .read rfl

theorem reading_core (s : Impl) :
    s.reading.core = { s.core with
      buffers := { s.buffers with recvBuffer := (recvLoop s.buffers.recvBuffer 0).2 } } :=
  starting_core _ .read rfl

theorem Impl.without_core {s : Impl} {i : Nat} {x : Started} (hx : s.operations[i]? = some x) :
    (x.operation.writeRequest = none → (s.without i).core = s.core) ∧
    ∀ request, x.operation.writeRequest = some request → ∃ k,
      s.core.writes[k]? = some request ∧
      (s.without i).core = { s.core with writes := s.core.writes.eraseIdx k } := by
  constructor
  · intro hnone
    have herase := ListUpdate.filterMap_eraseIdx_none
      (g := fun x : Started => x.operation.writeRequest) hx hnone
    exact congrArg (Core.mk s.curstate s.buffers) herase
  · intro request hsome
    obtain ⟨k, hk, herase⟩ := ListUpdate.filterMap_eraseIdx_some
      (g := fun x : Started => x.operation.writeRequest) hx hsome
    exact ⟨k, hk, congrArg (Core.mk s.curstate s.buffers) herase⟩

theorem Teardown.core {s s' : Impl} {o : Outcome} (h : Teardown s o s') :
    s'.core = s.core ∨
      s'.core = { s.core with curstate := .disconnected, buffers := s.buffers.clear } := by
  cases h with
  | missing => exact .inl rfl
  | closed => exact .inl rfl
  | done sock =>
    refine .inr ?_
    cases sock <;> rfl

theorem Teardown.covered {s s' : Impl} {o : Outcome} (h : Teardown s o s') (hs : Covered s.core)
    (hcur : ¬(s.curstate = .disconnecting ∨ s.curstate = .disconnected)) : Covered s'.core := by
  rcases h.core with hc | hc
  · exact hc ▸ hs
  · exact hc ▸ hs.disconnect hcur

theorem TryNext.covered {s s' : Impl} {o : Outcome} (h : TryNext s o s') (hs : Covered s.core)
    (hcur : s.curstate = .connecting) : Covered s'.core := by
  cases h with
  | exhausted _ hdown => exact hdown.covered hs (by simp [hcur])
  | missing => exact hs
  | next sock => exact (trying_core s sock _ _).symm ▸ hs

/-- **A handler does at most one step of the send job**, and clears or fills its buffers. -/
theorem Handled.covered {s s' : Impl} {operation : Operation} {completion : Completion}
    {o : Outcome} (h : Handled s operation completion o s') (hs : Covered s.core)
    (hwrite : ∀ request num, operation = .write request → completion = .transferred num →
      s.curstate = .connected → num ≤ request.size →
        Covered (s.writing (s.buffers.advance num)).core) : Covered s'.core := by
  cases h with
  | idle | handshakeFailed => exact hs
  | lookupFailed hcur hdown | readFailed hcur hdown | writeFailed hcur hdown =>
    exact hdown.covered hs (by simp [hcur])
  | resolved hcur hnext | connectFailed hcur hnext => exact hnext.covered hs hcur
  | handshake => exact (starting_core s .handshake rfl).symm ▸ hs
  | connected hcur | shaken hcur => exact (established_core s).symm ▸ hs.connectSuccess hcur
  | received => exact (reading_core _).symm ▸ hs.receive _
  | transferred hcur hnum => exact hwrite _ _ rfl rfl hcur hnum

theorem covered_step {sslSupport : Bool} {s s' : Impl} {call : Call} {o : Outcome}
    (h : Covered s.core) (hst : s.step sslSupport call = some (o, s')) : Covered s'.core := by
  cases step_effect hst with
  | endpointRefused | connectRefused | ignored | setEndpoint => exact h
  | connect hd => exact (starting_core s.attempting (.resolve _ _) rfl).symm ▸ h.connect hd
  | disconnect hne hdown =>
    rcases hdown.core with hc | hc
    · exact hc ▸ h.interrupt hne
    · exact hc ▸ h.disconnect hne
  | sendRaw => exact (writing_core s _).symm ▸ h.append _
  | @deliver _ _ x _ _ hx _ hdone =>
    obtain ⟨hnone, hsome⟩ := Impl.without_core hx
    cases hop : x.operation.writeRequest with
    | none =>
      refine hdone.covered (hnone hop ▸ h) fun request num hw => ?_
      rw [hw] at hop
      cases hop
    | some request =>
      obtain ⟨k, hk, hcore⟩ := hsome request hop
      refine hdone.covered (hcore ▸ h.drop hk) fun request' num hw hnum hcur hle => ?_
      rw [hw] at hop
      cases hop
      rw [writing_core, hcore]
      exact h.complete hcur hk hle

/-- **The send job covers the connection.** -/
theorem covered_of_reaches {sslSupport : Bool} {s : Impl}
    (h : (machine sslSupport).Reaches {} s) : Covered s.core := by
  refine h.inv (P := fun s => Covered s.core) (fun _ _ _ _ hs hst => covered_step hs hst) ?_
  exact ⟨{}, .refl _, rfl⟩

end Slirc.Connection
