import Slirc.Connection.Sessions
import Slirc.Connection.Steps

/-!
# The bytes that a session writes

`do_send_raw` does not test the state of the connection: it appends to the buffers, and starts a
write, in any state. What is appended before the session begins is dropped when it begins.

* `sessions`: the runs of a connection, with the bytes that were sent in the present session.
* `sends_ignored_iff`: data that is sent while the connection is not connected is ignored, and the
  bytes of a write are bytes that were sent in its session, if and only if no data is sent while the
  connection is not connected, and no write is started with the cursor behind `send_buffer`.
* `send_while_disconnected`: data that is not ignored.
-/

namespace Slirc.Connection

open Program

/-- The data of a call of `send_raw`. -/
def Call.data : Call → List Char
  | .sendRaw data => data
  | _ => []

/-- The bytes that were sent in the present session: none when it begins. -/
def sentAfter (s : Impl) (call : Call) (s' : Impl) (sent : List Char) : List Char :=
  if s.curstate = .connected then sent ++ call.data
  else if s'.curstate = .connected then [] else sent

/-- The runs of a connection, with the bytes that were sent in the present session. -/
def sessions (sslSupport : Bool) : Machine (Impl × List Char) Call Outcome :=
  (machine sslSupport).observe sentAfter

/-- They are the runs of the connection. -/
theorem sessions_run (sslSupport : Bool) (calls : List Call) :
    ((sessions sslSupport).run ({}, []) calls).map (fun r => (r.1, r.2.1)) =
      (machine sslSupport).run {} calls :=
  Machine.observe_run ..

/-- The bytes that a write is given, if they are all in `send_buffer`. -/
def WriteRequest.bytes (request : WriteRequest) (b : Buffers) : Option (List Char) :=
  if 0 ≤ request.length ∧ request.offset + request.length ≤ b.sendBuffer.length then
    some ((b.sendBuffer.drop request.offset).take request.size)
  else none

namespace Impl

/-- The operations that a call does not complete. -/
def remaining (s : Impl) : Call → List Started
  | .deliver i _ => (s.without i).operations
  | _ => s.operations

/-- The writes that a step started. -/
def startedWrites (s : Impl) (call : Call) (s' : Impl) : List WriteRequest :=
  (s'.operations.drop (s.remaining call).length).filterMap (·.operation.writeRequest)

/-- `fill_buffer`, `send_buffer`, the cursor and `send_job_running`, and the operations. -/
def sending (s : Impl) : List Char × List Char × Nat × Bool × List Started :=
  (s.buffers.fillBuffer, s.buffers.sendBuffer, s.buffers.currentSendState,
    s.buffers.sendJobRunning, s.operations)

/-- Data that is sent while the connection is not connected is ignored. -/
def IgnoresData (sslSupport : Bool) (s : Impl) : Call → Prop
  | .sendRaw data => s.curstate ≠ .connected →
    ∃ o s', s.step sslSupport (.sendRaw data) = some (o, s') ∧ s'.sending = s.sending
  | _ => True

/-- No data is sent while the connection is not connected, and the cursor is inside `send_buffer`
where a write is started. -/
def SendsInSession (s : Impl) : Call → Prop
  | .sendRaw data =>
    if s.curstate = .connected then
      s.buffers.sendJobRunning = false → data ≠ [] → s.buffers.InRange
    else data = []
  | .deliver i (.transferred num) => s.curstate = .connected → ∀ x request,
    s.operations[i]? = some x → x.operation = .write request → num ≤ request.size →
      ({ s.buffers with
        currentSendState := s.buffers.currentSendState + num } : Buffers).InRange
  | _ => True

end Impl

/-- The bytes of the writes that a call starts in a session were sent in this session. -/
def WritesSent (sslSupport : Bool) (g : Impl × List Char) (call : Call) : Prop :=
  ∀ o s' sent, (sessions sslSupport).step g call = some (o, (s', sent)) →
    s'.curstate = .connected → ∀ request ∈ g.1.startedWrites call s',
      ∃ bytes, request.bytes s'.buffers = some bytes ∧ bytes <:+: sent

/-! ## Buffers -/

namespace Buffers

/-- The bytes in the two buffers, those that are written before those that are not. -/
def queued (b : Buffers) : List Char := b.sendBuffer ++ b.fillBuffer

theorem send_queued (b : Buffers) : b.send.1.queued <:+ b.queued := by
  have hrefill : b.refill.queued <:+ b.queued := by
    unfold refill
    split
    · rw [queued, queued, swap, List.append_nil]
      exact List.suffix_append ..
    · exact List.suffix_rfl
  unfold send
  dsimp only
  split <;> exact hrefill

theorem inRange_of_send {b : Buffers} (h : b.send.2 = none) : b.InRange := by
  unfold send at h
  dsimp only at h
  split at h
  · rename_i hend
    exact b.refill_inRange.mp (le_of_eq hend)
  · cases h

/-- What a write is given is a piece of `send_buffer`. -/
theorem bytes_inside {request : WriteRequest} {b : Buffers} {bytes : List Char}
    (h : request.bytes b = some bytes) : bytes <:+: b.sendBuffer := by
  unfold WriteRequest.bytes at h
  split at h
  · cases h
    exact (List.take_prefix ..).isInfix.trans (List.drop_suffix ..).isInfix
  · cases h

/-- The write from the cursor on. -/
theorem bytes_isSome_iff (b : Buffers) :
    (WriteRequest.bytes ⟨b.currentSendState, b.sendBuffer.length - b.currentSendState⟩ b).isSome =
      true ↔ b.InRange := by
  unfold WriteRequest.bytes InRange
  dsimp only
  split
  · rename_i h
    exact iff_of_true rfl (by omega)
  · rename_i h
    exact iff_of_false (by simp) (by omega)

/-- **The write that `send` starts** is given bytes of the buffers, if the cursor is in range. -/
theorem send_writes {b : Buffers} {sent : List Char} (hs : b.queued <:+ sent) :
    (∀ request, b.send.2 = some request →
      ∃ bytes, request.bytes b.send.1 = some bytes ∧ bytes <:+: sent) ↔ b.InRange := by
  obtain ⟨-, hrange, ⟨hnone, -, -⟩ | ⟨-, hsome⟩⟩ := b.send_spec
  · exact iff_of_true (by simp [hnone]) (inRange_of_send hnone)
  · rw [← hrange, ← bytes_isSome_iff, Option.isSome_iff_exists]
    have hpiece : ∀ bytes, bytes <:+: b.send.1.sendBuffer → bytes <:+: sent := by
      intro bytes hbytes
      have hqueued : b.send.1.sendBuffer <:+: b.send.1.queued := (List.prefix_append ..).isInfix
      exact hbytes.trans (hqueued.trans (b.send_queued.isInfix.trans hs.isInfix))
    constructor
    · intro h
      obtain ⟨bytes, hbytes, -⟩ := h _ hsome
      exact ⟨bytes, hbytes⟩
    · rintro ⟨bytes, hbytes⟩ request hrequest
      cases hsome.symm.trans hrequest
      exact ⟨bytes, hbytes, hpiece bytes (bytes_inside hbytes)⟩

/-- Data that leaves the buffers as they are, and starts no write, is empty. -/
theorem append_unchanged {b : Buffers} {data : List Char} (hnone : (b.append data).2 = none)
    (hfill : (b.append data).1.fillBuffer = b.fillBuffer) : data = [] := by
  by_contra hd
  cases hrun : b.sendJobRunning with
  | true =>
    rw [append_running hrun] at hfill
    exact hd (List.append_right_eq_self.mp hfill)
  | false =>
    rw [append_idle hrun hd] at hnone
    obtain ⟨-, -, ⟨-, -, hunsent⟩ | ⟨-, hsome⟩⟩ :=
      send_spec { b with fillBuffer := b.fillBuffer ++ data, sendJobRunning := true }
    · exact hd (List.append_eq_nil_iff.mp (List.append_eq_nil_iff.mp hunsent).2).2
    · cases hnone.symm.trans hsome

end Buffers

/-! ## The invariant of a session -/

/-- A session has a transport, and what is in its buffers was sent in it. -/
def InSession (g : Impl × List Char) : Prop :=
  g.1.curstate = .connected → g.1.transport.isSome = true ∧ g.1.buffers.queued <:+ g.2

theorem Buffers.append_queued (b : Buffers) (data : List Char) :
    (b.append data).1.queued <:+ b.queued ++ data := by
  have hfill : ({ b with fillBuffer := b.fillBuffer ++ data } : Buffers).queued =
      b.queued ++ data := (List.append_assoc ..).symm
  unfold append
  dsimp only
  split
  · rw [← hfill]
    exact send_queued _
  · exact ⟨[], hfill⟩

theorem Handled.inSession {s s' : Impl} {operation : Operation} {completion : Completion}
    {o : Outcome} (h : Handled s operation completion o s') {sent : List Char}
    (hs : InSession (s, sent)) :
    InSession (s', if s.curstate = .connected then sent else []) := by
  intro hcur'
  replace hcur' : s'.curstate = .connected := hcur'
  have hdown : ∀ {t : Impl}, Teardown t o s' → s' = t := fun hdown =>
    hdown.left.resolve_right (by simp [hcur'])
  cases h with
  | idle hidle =>
    rw [if_pos hcur']
    exact hs hcur'
  | lookupFailed hcur hd =>
    obtain rfl := hdown hd
    exact absurd (hcur.symm.trans hcur') (by simp)
  | readFailed hcur hd | writeFailed hcur hd =>
    obtain rfl := hdown hd
    rw [if_pos hcur]
    exact hs hcur
  | resolved hcur hnext | connectFailed hcur hnext =>
    have hleft := hnext.left
    simp [hcur, hcur'] at hleft
  | handshake hcur | handshakeFailed hcur => exact absurd (hcur.symm.trans hcur') (by simp)
  | connected hcur _ hsock | shaken hcur hsock =>
    rw [if_neg (by simp [hcur])]
    exact ⟨hsock, List.suffix_rfl⟩
  | received hcur hbytes hsock =>
    rw [if_pos hcur]
    exact ⟨hsock, (hs hcur).2⟩
  | transferred hcur =>
    rw [if_pos hcur]
    exact ⟨(hs hcur).1, (Buffers.send_queued _).trans (hs hcur).2⟩

/-- **Every step keeps the session.** -/
theorem step_inSession {sslSupport : Bool} {g g' : Impl × List Char} {call : Call} {o : Outcome}
    (hg : InSession g) (h : (sessions sslSupport).step g call = some (o, g')) : InSession g' := by
  obtain ⟨s, sent⟩ := g
  obtain ⟨s', sent'⟩ := g'
  obtain ⟨hst, rfl⟩ := Machine.observe_step.mp h
  intro hcur'
  replace hcur' : s'.curstate = .connected := hcur'
  rw [sentAfter, if_pos hcur']
  cases step_effect hst with
  | endpointRefused | connectRefused | ignored =>
    rw [if_pos hcur']
    simpa [Call.data] using hg hcur'
  | setEndpoint _ _ _ _ hd => exact absurd (hd.symm.trans hcur') (by simp)
  | connect => cases hcur'
  | disconnect _ hdown =>
    rcases hdown.left with rfl | hd
    · cases hcur'
    · exact absurd (hd.symm.trans hcur') (by simp)
  | sendRaw =>
    have hcur : s.curstate = .connected := hcur'
    obtain ⟨hsock, hqueued⟩ := hg hcur
    rw [if_pos hcur]
    refine ⟨hsock, (Buffers.append_queued _ _).trans ?_⟩
    replace hqueued : s.buffers.queued <:+ sent := hqueued
    obtain ⟨done, rfl⟩ := hqueued
    exact ⟨done, (List.append_assoc ..).symm⟩
  | deliver _ _ hdone =>
    simpa [Call.data] using hdone.inSession hg hcur'

/-! ## The writes that a step starts -/

theorem Teardown.operations {s s' : Impl} {o : Outcome} (h : Teardown s o s') :
    s'.operations = s.operations := by
  cases h with
  | missing | closed => rfl
  | done => simp

theorem TryNext.noWrites {s s' : Impl} {o : Outcome} (h : TryNext s o s') :
    (s'.operations.drop s.operations.length).filterMap (·.operation.writeRequest) = [] := by
  cases h with
  | exhausted _ hdown => simp [hdown.operations]
  | missing => simp
  | next => simp [Impl.trying, Operation.writeRequest]

/-- A handler that is not the one of a write that is going on starts no write. -/
theorem Handled.noWrites {s s' : Impl} {operation : Operation} {completion : Completion}
    {o : Outcome} (h : Handled s operation completion o s')
    (hcompletion : ∀ num, completion ≠ .transferred num) :
    (s'.operations.drop s.operations.length).filterMap (·.operation.writeRequest) = [] := by
  cases h with
  | idle | handshakeFailed => simp
  | lookupFailed _ hdown | readFailed _ hdown | writeFailed _ hdown => simp [hdown.operations]
  | resolved _ hnext | connectFailed _ hnext => exact hnext.noWrites
  | handshake | connected | shaken | received =>
    simp [Impl.established, Impl.reading, Operation.writeRequest]
  | transferred => exact absurd rfl (hcompletion _)

theorem writing_startedWrites (s : Impl) (r : Buffers × Option WriteRequest) :
    ((s.writing r).operations.drop s.operations.length).filterMap (·.operation.writeRequest) =
      r.2.toList := by
  cases hr : r.2 <;> simp [hr, Operation.writeRequest]

/-! ## Calls -/

theorem step_sendRaw {sslSupport : Bool} {s : Impl} {data : List Char}
    (h : (s.buffers.append data).2.isSome = true → s.transport.isSome = true) :
    s.step sslSupport (.sendRaw data) = some (.returned, s.writing (s.buffers.append data)) := by
  rw [Impl.step, sendRaw, runBuffers_eq h]
  rfl

theorem step_transferred (sslSupport : Bool) {s : Impl} {i num : Nat} {x : Started}
    {request : WriteRequest} (hx : s.operations[i]? = some x)
    (hop : x.operation = .write request) (hnum : num ≤ request.size)
    (hcur : s.curstate = .connected) (hsock : s.transport.isSome = true) :
    s.step sslSupport (.deliver i (.transferred num)) =
      some (.returned, (s.without i).writing (s.buffers.advance num)) := by
  have hcode : x.operation.complete (.transferred num) = some (sendCallback (.ok num)) := by
    rw [hop, Operation.complete, if_pos hnum]
  have hcur' : (s.without i).curstate = .connected := hcur
  have hsock' : (s.without i).transport.isSome = true := hsock
  rw [deliver_eq sslSupport hx hcode, sendCallback_ok hcur', runBuffers_eq fun _ => hsock']
  rfl

/-- Data is ignored while the connection is not connected exactly if there is none. -/
theorem ignores_iff (sslSupport : Bool) {s : Impl} {data : List Char} :
    (∃ o s', s.step sslSupport (.sendRaw data) = some (o, s') ∧ s'.sending = s.sending) ↔
      data = [] := by
  constructor
  · rintro ⟨o, s', hst, hsame⟩
    cases step_effect hst with
    | sendRaw =>
      simp only [Impl.sending, Impl.writing_buffers, Impl.writing_operations, Prod.mk.injEq,
        List.append_right_eq_self, List.map_eq_nil_iff] at hsame
      obtain ⟨hfill, -, -, -, hnone⟩ := hsame
      exact Buffers.append_unchanged (Option.toList_eq_nil_iff.mp hnone) hfill
  · rintro rfl
    refine ⟨_, _, step_sendRaw (by simp [Buffers.append_nil]), ?_⟩
    simp [Impl.sending, Buffers.append_nil]

/-- The writes of a step that runs an operation of the buffers. -/
theorem writesSent_iff {sslSupport : Bool} {s t : Impl} {sent : List Char} {call : Call}
    {r : Buffers × Option WriteRequest} (hcur : s.curstate = .connected)
    (ht : t.operations = s.remaining call) (htcur : t.curstate = s.curstate)
    (hst : s.step sslSupport call = some (.returned, t.writing r)) :
    WritesSent sslSupport (s, sent) call ↔ ∀ request, r.2 = some request →
      ∃ bytes, request.bytes r.1 = some bytes ∧ bytes <:+: sent ++ call.data := by
  have hwrites : s.startedWrites call (t.writing r) = r.2.toList := by
    rw [Impl.startedWrites, ← ht, writing_startedWrites]
  have hsent : sentAfter s call (t.writing r) sent = sent ++ call.data := if_pos hcur
  constructor
  · intro h request hr
    have hstep : (sessions sslSupport).step (s, sent) call = some (.returned, (t.writing r, _)) :=
      Machine.observe_step.mpr ⟨hst, rfl⟩
    rw [← hsent]
    exact h _ _ _ hstep (htcur.trans hcur) request (by rw [hwrites, hr]; simp)
  · intro h o s' sent' hstep _ request hrequest
    obtain ⟨hst', rfl⟩ := Machine.observe_step.mp hstep
    cases hst.symm.trans hst'
    rw [hwrites, Option.mem_toList] at hrequest
    rw [hsent]
    exact h request hrequest

/-- A call that starts no write. -/
theorem WritesSent.of_none {sslSupport : Bool} {g : Impl × List Char} {call : Call}
    (h : ∀ o s', g.1.step sslSupport call = some (o, s') → s'.curstate = .connected →
      g.1.startedWrites call s' = []) : WritesSent sslSupport g call := by
  intro o s' sent hstep hcur request hrequest
  rw [h o s' (Machine.observe_step.mp hstep).1 hcur] at hrequest
  cases hrequest

/-- **When a call of `send_raw` in a session writes bytes of the session.** -/
theorem sendRaw_writesSent (sslSupport : Bool) {s : Impl} {sent : List Char} {data : List Char}
    (hg : InSession (s, sent)) (hcur : s.curstate = .connected) :
    WritesSent sslSupport (s, sent) (.sendRaw data) ↔
      (s.buffers.sendJobRunning = false → data ≠ [] → s.buffers.InRange) := by
  obtain ⟨hsock, hqueued⟩ := hg hcur
  rw [writesSent_iff hcur rfl rfl (step_sendRaw fun _ => hsock)]
  by_cases hidle : s.buffers.sendJobRunning = false ∧ data ≠ []
  · rw [Buffers.append_idle hidle.1 hidle.2, Buffers.send_writes]
    · exact ⟨fun h _ _ => h, fun h => h hidle.1 hidle.2⟩
    · replace hqueued : s.buffers.queued <:+ sent := hqueued
      obtain ⟨done, rfl⟩ := hqueued
      exact ⟨done, by simp [Buffers.queued, Call.data]⟩
  · have hnone : (s.buffers.append data).2 = none := by
      unfold Buffers.append
      dsimp only
      rw [if_neg fun h => hidle ⟨h.1, List.length_pos_iff.mp h.2⟩]
    refine iff_of_true (by simp [hnone]) fun hrun hd => absurd ⟨hrun, hd⟩ hidle

/-- **When the handler of a write writes bytes of the session.** -/
theorem transferred_writesSent {sslSupport : Bool} {s : Impl} {sent : List Char} {i num : Nat}
    (hg : InSession (s, sent)) :
    WritesSent sslSupport (s, sent) (.deliver i (.transferred num)) ↔
      s.SendsInSession (.deliver i (.transferred num)) := by
  have hadvance : ∀ (hcur : s.curstate = .connected) {x : Started} {request : WriteRequest}
      (hx : s.operations[i]? = some x) (hop : x.operation = .write request)
      (hnum : num ≤ request.size),
      WritesSent sslSupport (s, sent) (.deliver i (.transferred num)) ↔
        ({ s.buffers with
          currentSendState := s.buffers.currentSendState + num } : Buffers).InRange := by
    intro hcur x request hx hop hnum
    obtain ⟨hsock, hqueued⟩ := hg hcur
    have hst := step_transferred sslSupport hx hop hnum hcur hsock
    rw [writesSent_iff (t := s.without i) hcur rfl rfl hst, Buffers.advance, Buffers.send_writes]
    show s.buffers.queued <:+ sent ++ []
    rw [List.append_nil]
    exact hqueued
  constructor
  · exact fun h hcur x request hx hop hnum => (hadvance hcur hx hop hnum).mp h
  · intro h
    by_cases hcur : s.curstate = .connected
    · by_cases hwrite : ∃ x request, s.operations[i]? = some x ∧ x.operation = .write request ∧
          num ≤ request.size
      · obtain ⟨x, request, hx, hop, hnum⟩ := hwrite
        exact (hadvance hcur hx hop hnum).mpr (h hcur x request hx hop hnum)
      · refine .of_none fun o s' hst _ => ?_
        cases step_effect hst with
        | @deliver _ _ x _ _ hx hc hdone =>
          generalize hoperation : x.operation = operation at hdone
          cases hdone with
          | idle => simp [Impl.startedWrites, Impl.remaining]
          | transferred _ hnum => exact absurd ⟨x, _, hx, hoperation, hnum⟩ hwrite
    · refine .of_none fun o s' hst hcur' => ?_
      cases step_effect hst with
      | @deliver _ _ x _ _ hx hc hdone =>
        generalize x.operation = operation at hdone
        cases hdone with
        | idle => simp [Impl.startedWrites, Impl.remaining]
        | transferred hconn => exact absurd hconn hcur

/-- **A call ignores data, and writes data of its session**, exactly if it sends in the session. -/
theorem sends_iff {sslSupport : Bool} {g : Impl × List Char} (hg : InSession g) (call : Call) :
    g.1.IgnoresData sslSupport call ∧ WritesSent sslSupport g call ↔ g.1.SendsInSession call := by
  obtain ⟨s, sent⟩ := g
  cases call with
  | sendRaw data =>
    show _ ↔ if s.curstate = .connected then
      s.buffers.sendJobRunning = false → data ≠ [] → s.buffers.InRange else data = []
    split
    · rename_i hcur
      rw [← sendRaw_writesSent sslSupport hg hcur]
      exact and_iff_right fun hne => absurd hcur hne
    · rename_i hcur
      have hwrites : WritesSent sslSupport (s, sent) (.sendRaw data) := by
        refine .of_none fun o s' hst hcur' => ?_
        cases step_effect hst with
        | sendRaw => exact absurd hcur' hcur
      rw [and_iff_left hwrites, ← ignores_iff sslSupport]
      exact ⟨fun h => h hcur, fun h _ => h⟩
  | deliver i completion =>
    refine (and_iff_right trivial).trans ?_
    cases completion with
    | transferred num => exact transferred_writesSent hg
    | failed | resolved | succeeded | received =>
      refine iff_of_true (.of_none fun o s' hst _ => ?_) trivial
      cases step_effect hst with
      | deliver _ _ hdone => exact hdone.noWrites (by simp)
  | setEndpoint | connect =>
    refine iff_of_true ⟨trivial, .of_none fun o s' hst hcur => ?_⟩ trivial
    cases step_effect hst <;>
      simp [Impl.startedWrites, Impl.remaining, Impl.attempting, Operation.writeRequest]
  | disconnect =>
    refine iff_of_true ⟨trivial, .of_none fun o s' hst hcur => ?_⟩ trivial
    cases step_effect hst with
    | ignored => simp [Impl.startedWrites, Impl.remaining]
    | disconnect _ hdown => simp [Impl.startedWrites, Impl.remaining, hdown.operations]

/-- **When data that is sent while not connected is ignored.** In any run, data that is sent while
the connection is not connected leaves the buffers as they are and starts no write, and the bytes of
every write were sent in its session, if and only if no data is sent while the connection is not
connected, and the cursor is inside `send_buffer` where a write is started. -/
theorem sends_ignored_iff (sslSupport : Bool) (calls : List Call) :
    (sessions sslSupport).AllCalls
      (fun g call => g.1.IgnoresData sslSupport call ∧ WritesSent sslSupport g call)
      ({}, []) calls ↔
    (sessions sslSupport).AllCalls (fun g call => g.1.SendsInSession call) ({}, []) calls :=
  Machine.AllCalls.congr (M := sessions sslSupport) (P := InSession)
    (fun _ _ _ _ hg hst => step_inSession hg hst) (fun _ call hg => sends_iff hg call)
    (fun h => absurd h (by decide)) calls

theorem send_while_disconnected : ¬(sessions true).AllCalls
    (fun g call => g.1.IgnoresData true call ∧ WritesSent true g call) ({}, [])
    [.setEndpoint ['h'] 0, .sendRaw ['a']] := by
  intro h
  have hrun : (sessions true).run ({}, []) [.setEndpoint ['h'] 0] =
      some ([.returned], ({ hostname := ['h'], socket := some {} }, [])) := by decide
  obtain ⟨hignores, -⟩ := Machine.allCalls_iff.mp h _ (.sendRaw ['a']) [] _ _ rfl hrun
  have hdata := (ignores_iff _).mp (hignores (by decide))
  cases hdata

end Slirc.Connection
