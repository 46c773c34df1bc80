import Slirc.Connection.Buffers
import Slirc.Lib.ListUpdate
import Slirc.Lib.Machine

/-!
# Runs of the send job

Appends, completions of writes, disconnects and reconnects of one connection, in any order. A write
completes once, with no more bytes than it was asked to write, at any time after it was started.
`step_effect`: what a step can do.

* `send_in_order`: in one session at most one write is outstanding, nothing is lost or sent twice,
  and nothing stays behind when no write is outstanding.
* Over several sessions, `clear` empties `send_buffer` but leaves the cursor where it is.
  `cursor_in_range_iff`: a run keeps the cursor inside the buffer if and only if the cursor is at
  the beginning at each `clear`, and no late write moves it behind the end.
-/

namespace Slirc.Connection

/-- An outstanding write, with the number of `clear` calls before it. -/
structure Write where
  clears : Nat
  request : WriteRequest
  deriving DecidableEq, Repr

/-- The state of the send job. `appended` and `written` are the bytes of all appends, and the bytes
that were reported as written while the connection was established. -/
structure SendJob where
  curstate : State := .disconnected
  buffers : Buffers := {}
  writes : List Write := []
  clears : Nat := 0
  appended : List Char := []
  written : List Char := []
  deriving DecidableEq, Repr

/-- Inside a session: an append, or a write that reports a number of bytes. -/
inductive SendOp where
  | append (data : List Char)
  | complete (i n : Nat)
  deriving DecidableEq, Repr

inductive ConnectionOp where
  | send (op : SendOp)
  /-- A write that reports an error. The teardown that follows may throw before it clears. -/
  | fail (i : Nat) (clears : Bool)
  | connect
  /-- `connect_success` -/
  | connectSuccess
  /-- A teardown, by `disconnect` or by a failure. It may throw before it clears. -/
  | disconnect (clears : Bool)
  /-- A read is handled. -/
  | receive (recvBuffer : List Char)
  deriving DecidableEq, Repr

namespace SendJob

/-- The buffers change, and a write may start. -/
def start (s : SendJob) (r : Buffers × Option WriteRequest) : SendJob :=
  { s with buffers := r.1, writes := s.writes ++ r.2.toList.map (⟨s.clears, ·⟩) }

/-- The state changes with a call of `clear`. -/
def cleared (s : SendJob) (newstate : State) : SendJob :=
  { s with curstate := newstate, buffers := s.buffers.clear, clears := s.clears + 1 }

/-- The completion handler has run, or will not do anything. -/
def consume (s : SendJob) (i : Nat) : SendJob := { s with writes := s.writes.eraseIdx i }

def sendStep (s : SendJob) : SendOp → Option SendJob
  | .append data => some (start { s with appended := s.appended ++ data } (s.buffers.append data))
  | .complete i n =>
    s.writes[i]?.bind fun x =>
      if n ≤ x.request.size then
        let bytes := (s.buffers.sendBuffer.drop x.request.offset).take n
        if s.curstate = .connected then
          some (start { s.consume i with written := s.written ++ bytes } (s.buffers.advance n))
        else some (s.consume i)
      else none

def step (s : SendJob) : ConnectionOp → Option SendJob
  | .send op => s.sendStep op
  | .fail i clears =>
    s.writes[i]?.bind fun _ =>
      if s.curstate = .connected ∧ clears = true then some ((s.consume i).cleared .disconnected)
      else some (s.consume i)
  | .connect => if s.curstate = .disconnected then some { s with curstate := .connecting } else none
  | .connectSuccess =>
    if s.curstate = .connecting then some (s.cleared .connected) else none
  | .disconnect clears =>
    if s.curstate = .disconnecting ∨ s.curstate = .disconnected then some s
    else some (if clears then s.cleared .disconnected else { s with curstate := .disconnecting })
  | .receive recvBuffer => some { s with buffers := { s.buffers with recvBuffer } }

def sendMachine : Machine SendJob SendOp Unit := ⟨fun s op => (s.sendStep op).map fun t => ((), t)⟩

def machine : Machine SendJob ConnectionOp Unit := ⟨fun s op => (s.step op).map fun t => ((), t)⟩

/-- What a step can do. -/
inductive Effect (s : SendJob) : ConnectionOp → SendJob → Prop where
  | append {data : List Char} : Effect s (.send (.append data))
    (start { s with appended := s.appended ++ data } (s.buffers.append data))
  | complete {i n : Nat} {x : Write} : s.writes[i]? = some x → n ≤ x.request.size →
    s.curstate = .connected → Effect s (.send (.complete i n))
      (start { s.consume i with
        written := s.written ++ (s.buffers.sendBuffer.drop x.request.offset).take n }
        (s.buffers.advance n))
  | completeIdle {i n : Nat} {x : Write} : s.writes[i]? = some x → n ≤ x.request.size →
    s.curstate ≠ .connected → Effect s (.send (.complete i n)) (s.consume i)
  | fail {i : Nat} {x : Write} : s.writes[i]? = some x → s.curstate = .connected →
    Effect s (.fail i true) ((s.consume i).cleared .disconnected)
  | failIdle {i : Nat} {clears : Bool} {x : Write} : s.writes[i]? = some x →
    ¬(s.curstate = .connected ∧ clears = true) → Effect s (.fail i clears) (s.consume i)
  | connect : s.curstate = .disconnected → Effect s .connect { s with curstate := .connecting }
  | connectSuccess : s.curstate = .connecting → Effect s .connectSuccess (s.cleared .connected)
  | disconnectIdle {clears : Bool} : s.curstate = .disconnecting ∨ s.curstate = .disconnected →
    Effect s (.disconnect clears) s
  | disconnect : ¬(s.curstate = .disconnecting ∨ s.curstate = .disconnected) →
    Effect s (.disconnect true) (s.cleared .disconnected)
  | disconnectThrows : ¬(s.curstate = .disconnecting ∨ s.curstate = .disconnected) →
    Effect s (.disconnect false) { s with curstate := .disconnecting }
  | receive {recvBuffer : List Char} :
    Effect s (.receive recvBuffer) { s with buffers := { s.buffers with recvBuffer } }

/-- **Every step that is defined is one of these.** -/
theorem step_effect {s s' : SendJob} {op : ConnectionOp} (h : s.step op = some s') :
    s.Effect op s' := by
  cases op with
  | connect =>
    obtain ⟨hs, he⟩ := Option.ite_none_right_eq_some.mp h
    cases he
    exact .connect hs
  | connectSuccess =>
    obtain ⟨hs, he⟩ := Option.ite_none_right_eq_some.mp h
    cases he
    exact .connectSuccess hs
  | disconnect clears =>
    simp only [step] at h
    split at h
    · rename_i hs
      cases h
      exact .disconnectIdle hs
    · rename_i hs
      cases clears <;> cases h
      · exact .disconnectThrows hs
      · exact .disconnect hs
  | receive =>
    cases h
    exact .receive
  | fail i clears =>
    obtain ⟨x, hx, hfail⟩ := Option.bind_eq_some_iff.mp h
    split at hfail <;> rename_i hs <;> cases hfail
    · obtain ⟨hs, rfl⟩ := hs
      exact .fail hx hs
    · exact .failIdle hx hs
  | send op =>
    cases op with
    | append =>
      cases h
      exact .append
    | complete i n =>
      obtain ⟨x, hx, h⟩ := Option.bind_eq_some_iff.mp h
      obtain ⟨hn, h⟩ := Option.ite_none_right_eq_some.mp h
      split at h <;> rename_i hs <;> cases h
      · exact .complete hx hn hs
      · exact .completeIdle hx hn hs

/-! ## One session -/

/-- An established connection with fresh buffers. -/
def fresh : SendJob := { curstate := .connected }

/-- The only outstanding write is for what stands behind the cursor; if there is none, nothing is
left to send. -/
def Outstanding (s : SendJob) : Prop :=
  (s.writes = [] ∧ s.buffers.sendJobRunning = false ∧ s.buffers.unsent = []) ∨
  ∃ x, s.writes = [x] ∧ s.buffers.sendJobRunning = true ∧
    x.request = ⟨s.buffers.currentSendState,
      s.buffers.sendBuffer.length - s.buffers.currentSendState⟩

/-- What holds throughout a session. -/
structure Inv (s : SendJob) : Prop where
  curstate : s.curstate = .connected
  range : s.buffers.InRange
  outstanding : s.Outstanding
  bytes : s.appended = s.written ++ s.buffers.unsent

theorem inv_fresh : fresh.Inv :=
  ⟨rfl, by decide, .inl ⟨rfl, rfl, rfl⟩, rfl⟩

/-- A call of `send` with no write outstanding. -/
theorem start_send {s : SendJob} {b : Buffers} (hc : s.curstate = .connected)
    (hw : s.writes = []) (hr : b.InRange) (hrun : b.sendJobRunning = true)
    (hb : s.appended = s.written ++ b.unsent) : (s.start b.send).Inv := by
  obtain ⟨hunsent, hrange, hsend⟩ := b.send_spec
  refine ⟨hc, hrange.mpr hr, ?_, by rw [← hunsent] at hb; exact hb⟩
  rcases hsend with ⟨hnone, hstop, hnil⟩ | ⟨hgo, hsome⟩
  · exact .inl ⟨by simp [start, hw, hnone], hstop, by rw [← hunsent] at hnil; exact hnil⟩
  · exact .inr ⟨⟨s.clears, _⟩, by simp [start, hw, hsome], hgo.trans hrun, rfl⟩

theorem append_inv {s : SendJob} (h : s.Inv) (data : List Char) :
    (start { s with appended := s.appended ++ data } (s.buffers.append data)).Inv := by
  have hbytes : s.appended ++ data = s.written ++ (s.buffers.unsent ++ data) := by
    rw [h.bytes, List.append_assoc]
  by_cases hnil : data = []
  · subst hnil
    simpa [start, Buffers.append_nil] using h
  rcases h.outstanding with ⟨hw, hrun, -⟩ | ⟨x, hw, hrun, hx⟩
  · rw [Buffers.append_idle hrun hnil]
    refine start_send h.curstate hw h.range rfl ?_
    simpa [Buffers.unsent] using hbytes
  · rw [Buffers.append_running hrun]
    refine ⟨h.curstate, h.range, .inr ⟨x, by simp [start, hw], hrun, hx⟩, ?_⟩
    simpa [Buffers.unsent, start] using hbytes

theorem complete_inv {s : SendJob} (h : s.Inv) {i n : Nat} {x : Write} (hx : s.writes[i]? = some x)
    (hn : n ≤ x.request.size) :
    (start { s.consume i with
        written := s.written ++ (s.buffers.sendBuffer.drop x.request.offset).take n }
      (s.buffers.advance n)).Inv := by
  rcases h.outstanding with ⟨hw, -⟩ | ⟨y, hw, hrun, hy⟩
  · simp [hw] at hx
  -- the only write is the one that completes
  rw [hw] at hx
  obtain ⟨rfl, rfl⟩ : i = 0 ∧ y = x := by
    cases i with
    | zero => exact ⟨rfl, by simpa using hx⟩
    | succ i => simp at hx
  have hrange := h.range
  unfold Buffers.InRange at hrange
  have hsize : (y.request.size : Int) ≤ _ := WriteRequest.size_le (by rw [hy]; dsimp only; omega)
  rw [show y.request.length = _ from congrArg WriteRequest.length hy] at hsize
  dsimp only at hsize
  refine start_send h.curstate (by simp [consume, hw]) ?_ hrun ?_
  · show s.buffers.currentSendState + n ≤ s.buffers.sendBuffer.length
    omega
  · rw [hy]
    show s.appended = _
    rw [h.bytes, Buffers.unsent, Buffers.unsent, List.append_assoc, ← List.drop_drop,
      ← List.append_assoc (List.take n _), List.take_append_drop]

theorem sendStep_inv {s s' : SendJob} {op : SendOp} (h : s.Inv) (hst : s.sendStep op = some s') :
    s'.Inv := by
  cases op with
  | append data =>
    cases hst
    exact append_inv h data
  | complete i n =>
    obtain ⟨x, hx, hst⟩ := Option.bind_eq_some_iff.mp hst
    split at hst
    · rename_i hn
      rw [if_pos h.curstate] at hst
      cases hst
      exact complete_inv h hx hn
    · cases hst

/-- **Data is sent in order, once, and completely.** In a session with fresh buffers, in any
interleaving of appends and completions: at most one write is outstanding, `send_job_running` says
whether there is one, the bytes written are the first of the bytes appended, and all of them if no
write is outstanding. -/
theorem send_in_order {s : SendJob} (h : sendMachine.Reaches fresh s) :
    s.writes.length ≤ 1 ∧ (s.buffers.sendJobRunning = true ↔ s.writes ≠ []) ∧
      s.written <+: s.appended ∧ (s.writes = [] → s.written = s.appended) := by
  have hinv : s.Inv := by
    refine h.inv (fun s op o t hs hst => ?_) inv_fresh
    obtain ⟨t', ht, he⟩ := Option.map_eq_some_iff.mp hst
    cases he
    exact sendStep_inv hs ht
  have hbytes := hinv.bytes
  rcases hinv.outstanding with ⟨hw, hrun, hnil⟩ | ⟨x, hw, hrun, -⟩
  · refine ⟨by simp [hw], by simp [hw, hrun], ⟨_, hbytes.symm⟩, fun _ => ?_⟩
    rw [hbytes, hnil, List.append_nil]
  · exact ⟨by simp [hw], by simp [hw, hrun], ⟨_, hbytes.symm⟩, by simp [hw]⟩

/-- Two appends around a partial write. -/
def partialWrite : List SendOp :=
  [.append ['a', 'b', 'c'], .complete 0 2, .append ['d'], .complete 0 0]

def afterPartialWrite : SendJob where
  curstate := .connected
  buffers := { sendBuffer := ['a', 'b', 'c'], fillBuffer := ['d'], currentSendState := 2,
               sendJobRunning := true }
  writes := [⟨0, ⟨2, 1⟩⟩]
  appended := ['a', 'b', 'c', 'd']
  written := ['a', 'b']

theorem send_in_order_partialWrite :
    sendMachine.run fresh partialWrite = some ([(), (), (), ()], afterPartialWrite) ∧
      afterPartialWrite.writes.length ≤ 1 ∧
      (afterPartialWrite.buffers.sendJobRunning = true ↔ afterPartialWrite.writes ≠ []) ∧
      afterPartialWrite.written <+: afterPartialWrite.appended ∧
      (afterPartialWrite.writes = [] → afterPartialWrite.written = afterPartialWrite.appended) :=
  have h : sendMachine.run fresh partialWrite = some ([(), (), (), ()], afterPartialWrite) := by
    decide
  ⟨h, send_in_order ⟨_, _, h⟩⟩

/-! ## Several sessions -/

/-- The cursor is inside the buffer, and no write has a negative length. -/
structure Fits (s : SendJob) : Prop where
  cursor : s.buffers.InRange
  lengths : ∀ x ∈ s.writes, 0 ≤ x.request.length

/-- The cursor is at the beginning of `send_buffer` if the step calls `clear`. -/
def ClearsAtStart (s : SendJob) : ConnectionOp → Prop
  | .fail _ true => s.curstate = .connected → s.buffers.currentSendState = 0
  | .connectSuccess => s.buffers.currentSendState = 0
  | .disconnect true =>
    ¬(s.curstate = .disconnecting ∨ s.curstate = .disconnected) → s.buffers.currentSendState = 0
  | _ => True

/-- The bytes that the step reports in an established connection do not move the cursor behind the
end of `send_buffer`. -/
def ReportsInside (s : SendJob) : ConnectionOp → Prop
  | .send (.complete _ n) => s.curstate = .connected →
    s.buffers.currentSendState + n ≤ s.buffers.sendBuffer.length
  | _ => True

/-- In an established connection only writes that started since the last `clear` complete without an
error. -/
def InTime (s : SendJob) : ConnectionOp → Prop
  | .send (.complete i _) => s.curstate = .connected → ∀ x, s.writes[i]? = some x →
    x.clears = s.clears
  | _ => True

theorem start_fits {s : SendJob} {b : Buffers} (hw : ∀ x ∈ s.writes, 0 ≤ x.request.length) :
    (s.start b.send).Fits ↔ b.InRange := by
  obtain ⟨-, hrange, hsend⟩ := b.send_spec
  refine ⟨fun h => hrange.mp h.cursor, fun h => ⟨hrange.mpr h, fun x hx => ?_⟩⟩
  have hr := hrange.mpr h
  unfold Buffers.InRange at hr
  simp only [start, List.mem_append] at hx
  rcases hx with hx | hx
  · exact hw x hx
  · rcases hsend with ⟨hnone, -⟩ | ⟨-, hsome⟩
    · simp [hnone] at hx
    · obtain rfl : x = ⟨s.clears, _⟩ := by simpa [hsome] using hx
      show (0 : Int) ≤ _ - _
      omega

theorem cleared_fits {s : SendJob} (h : s.Fits) (newstate : State) :
    (s.cleared newstate).Fits ↔ s.buffers.currentSendState = 0 := by
  constructor
  · intro hc
    exact Nat.le_zero.mp hc.cursor
  · intro hz
    exact ⟨Nat.le_of_eq hz, h.lengths⟩

theorem consume_lengths {s : SendJob} (h : s.Fits) (i : Nat) :
    ∀ x ∈ (s.consume i).writes, 0 ≤ x.request.length :=
  fun x hx => h.lengths x (List.mem_of_mem_eraseIdx hx)

theorem append_fits {s : SendJob} (h : s.Fits) (data : List Char) :
    (start { s with appended := s.appended ++ data } (s.buffers.append data)).Fits := by
  by_cases hnil : data = []
  · subst hnil
    simpa [start, Buffers.append_nil] using (⟨h.cursor, h.lengths⟩ : Fits { s with appended := _ })
  by_cases hrun : s.buffers.sendJobRunning = true
  · rw [Buffers.append_running hrun]
    exact ⟨h.cursor, by simpa [start] using h.lengths⟩
  · rw [Buffers.append_idle (by simpa using hrun) hnil]
    refine (start_fits ?_).mpr h.cursor
    exact h.lengths

/-- **A step keeps the cursor inside the buffer exactly if** it does not clear the buffer with the
cursor elsewhere, and does not move the cursor too far. -/
theorem step_fits {s s' : SendJob} {op : ConnectionOp} (h : s.Fits) (hst : s.step op = some s') :
    s'.Fits ↔ s.ClearsAtStart op ∧ s.ReportsInside op := by
  have hkeeps : s'.Fits → s.ClearsAtStart op → s.ReportsInside op →
      (s'.Fits ↔ s.ClearsAtStart op ∧ s.ReportsInside op) :=
    fun hs' hclears hreports => iff_of_true hs' ⟨hclears, hreports⟩
  have hcons : ∀ i, (s.consume i).Fits := fun i => ⟨h.cursor, consume_lengths h i⟩
  cases step_effect hst with
  | connect | disconnectThrows | receive =>
    exact hkeeps ⟨h.cursor, h.lengths⟩ trivial trivial
  | connectSuccess => simp [cleared_fits h, ClearsAtStart, ReportsInside]
  | @disconnectIdle clears hs => cases clears <;> simp [h, ClearsAtStart, ReportsInside, hs]
  | disconnect hs => simp [cleared_fits h, ClearsAtStart, ReportsInside, hs]
  | @fail i _ _ hs =>
    rw [cleared_fits (hcons i)]
    simp [ClearsAtStart, ReportsInside, hs, consume]
  | @failIdle i clears _ _ hs =>
    cases clears <;> simp_all [ClearsAtStart, ReportsInside]
  | append => exact hkeeps (append_fits h _) trivial trivial
  | complete _ _ hs =>
    refine (start_fits ?_).trans ?_
    · exact consume_lengths h _
    · simp [ClearsAtStart, ReportsInside, hs, Buffers.InRange]
  | @completeIdle i _ _ _ _ hs => simp [hcons i, ClearsAtStart, ReportsInside, hs]

/-- Of the writes that started since the last `clear`, at most one is outstanding, and it is for
what stands behind the cursor; while there is one, `send_job_running` is set. -/
structure Recent (s : SendJob) : Prop where
  unique : (s.writes.filter (·.clears == s.clears)).length ≤ 1
  running : ∀ x ∈ s.writes, x.clears = s.clears → s.buffers.sendJobRunning = true ∧
    x.request = ⟨s.buffers.currentSendState,
      s.buffers.sendBuffer.length - s.buffers.currentSendState⟩
  past : ∀ x ∈ s.writes, x.clears ≤ s.clears

theorem recent_of_none {s : SendJob} (hnone : ∀ x ∈ s.writes, x.clears < s.clears) : s.Recent := by
  refine ⟨?_, fun x hx hc => absurd (hnone x hx) (by omega), fun x hx => Nat.le_of_lt (hnone x hx)⟩
  rw [List.filter_eq_nil_iff.mpr fun x hx => by simpa using Nat.ne_of_lt (hnone x hx)]
  exact Nat.zero_le 1

/-- A call of `send` when no write since the last `clear` is outstanding. -/
theorem recent_send {s : SendJob} (hnone : ∀ x ∈ s.writes, x.clears < s.clears) {b : Buffers}
    (hrun : b.sendJobRunning = true) : (s.start b.send).Recent := by
  obtain ⟨-, -, hsend⟩ := b.send_spec
  rcases hsend with ⟨hstop, -⟩ | ⟨hgo, hsome⟩
  · exact recent_of_none (by simpa [start, hstop] using hnone)
  · have hold : s.writes.filter (·.clears == s.clears) = [] :=
      List.filter_eq_nil_iff.mpr fun x hx => by simpa using Nat.ne_of_lt (hnone x hx)
    refine ⟨?_, fun x hx hc => ?_, fun x hx => ?_⟩
    · simp [start, hsome, List.filter_append, hold]
    · simp only [start, hsome, List.mem_append] at hx
      rcases hx with hx | hx
      · exact absurd (hnone x hx) (by simp only [start] at hc; omega)
      · obtain rfl : x = ⟨s.clears, _⟩ := by simpa using hx
        exact ⟨hgo.trans hrun, rfl⟩
    · simp only [start, hsome, List.mem_append] at hx
      rcases hx with hx | hx
      · exact Nat.le_of_lt (hnone x hx)
      · obtain rfl : x = ⟨s.clears, _⟩ := by simpa using hx
        exact Nat.le_refl s.clears

theorem Recent.consume {s : SendJob} (h : s.Recent) (i : Nat) : (s.consume i).Recent := by
  have hsub : (s.consume i).writes.Sublist s.writes := List.eraseIdx_sublist s.writes i
  exact ⟨Nat.le_trans (hsub.filter _).length_le h.unique, fun x hx => h.running x (hsub.subset hx),
    fun x hx => h.past x (hsub.subset hx)⟩

theorem Recent.cleared {s : SendJob} (h : s.Recent) (newstate : State) :
    (s.cleared newstate).Recent :=
  recent_of_none fun x hx => Nat.lt_succ_of_le (h.past x hx)

theorem Recent.append {s : SendJob} (h : s.Recent) (data : List Char) :
    (start { s with appended := s.appended ++ data } (s.buffers.append data)).Recent := by
  by_cases hnil : data = []
  · subst hnil
    have hs : ({ s with appended := s.appended ++ [] } : SendJob).Recent :=
      ⟨h.unique, h.running, h.past⟩
    simpa [start, Buffers.append_nil] using hs
  by_cases hrun : s.buffers.sendJobRunning = true
  · rw [Buffers.append_running hrun]
    exact ⟨by simpa [start] using h.unique, by simpa [start] using h.running,
      by simpa [start] using h.past⟩
  · rw [Buffers.append_idle (by simpa using hrun) hnil]
    refine recent_send (fun x hx => ?_) rfl
    exact Nat.lt_of_le_of_ne (h.past x hx) fun hc => hrun (h.running x hx hc).1

/-- A write since the last `clear` completes. -/
theorem Recent.complete {s : SendJob} (h : s.Recent) {i n : Nat} {x : Write}
    (hx : s.writes[i]? = some x) (hc : x.clears = s.clears) (bytes : List Char) :
    (start { s.consume i with written := bytes } (s.buffers.advance n)).Recent := by
  have hmem := List.mem_of_getElem? hx
  refine recent_send (fun y hy => ?_) (h.running x hmem hc).1
  have hne :=
    ListUpdate.not_of_mem_eraseIdx (p := (·.clears == s.clears)) hx (by simp [hc]) h.unique
  have hold : y.clears ≠ s.clears := by simpa using hne y hy
  exact Nat.lt_of_le_of_ne (h.past y (List.mem_of_mem_eraseIdx hy)) hold

theorem step_recent {s s' : SendJob} {op : ConnectionOp} (h : s.Recent) (ht : s.InTime op)
    (hst : s.step op = some s') : s'.Recent := by
  cases step_effect hst with
  | connect | disconnectThrows | receive => exact ⟨h.unique, h.running, h.past⟩
  | connectSuccess | disconnect => exact h.cleared _
  | disconnectIdle => exact h
  | @fail i => exact (h.consume i).cleared _
  | @failIdle i | @completeIdle i => exact h.consume i
  | append => exact h.append _
  | complete hx _ hs => exact h.complete hx (ht hs _ hx) _

/-- What a write since the last `clear` reports stays inside the buffer. -/
theorem reportsInside {s s' : SendJob} {op : ConnectionOp} (hf : s.Fits) (h : s.Recent)
    (ht : s.InTime op) (hst : s.step op = some s') : s.ReportsInside op := by
  cases step_effect hst with
  | append | fail | failIdle | connect | connectSuccess | disconnectIdle | disconnect
  | disconnectThrows | receive => trivial
  | completeIdle _ _ hs => exact fun hconn => absurd hconn hs
  | @complete i n x hx hn hs =>
    intro _
    have hmem := List.mem_of_getElem? hx
    obtain ⟨-, hreq⟩ := h.running x hmem (ht hs x hx)
    have hsize := WriteRequest.size_le (hf.lengths x hmem)
    rw [show x.request.length = _ from congrArg WriteRequest.length hreq] at hsize
    dsimp only at hsize
    omega

/-- **When the cursor stays inside the send buffer.** In every state of a run the cursor is inside
the buffer, and no write has a negative length, if and only if at every `clear` of the run the
cursor is at the beginning of the buffer, and no report moves it behind the end. If no write of
before a `clear` completes in a later session, the reports never do. -/
theorem cursor_in_range_iff (ops : List ConnectionOp) :
    (machine.AllStates Fits {} ops ↔
      machine.AllSteps (fun s op => s.ClearsAtStart op ∧ s.ReportsInside op) {} ops) ∧
    (machine.AllSteps InTime {} ops →
      (machine.AllStates Fits {} ops ↔ machine.AllSteps ClearsAtStart {} ops)) := by
  have hstep : ∀ s op o s', machine.step s op = some (o, s') → s.step op = some s' := by
    intro s op o s' hst
    obtain ⟨t, ht, he⟩ := Option.map_eq_some_iff.mp hst
    cases he
    exact ht
  have hiff : machine.AllStates Fits {} ops ↔
      machine.AllSteps (fun s op => s.ClearsAtStart op ∧ s.ReportsInside op) {} ops :=
    Machine.allStates_iff_allSteps (fun _ h => h)
      (fun s op o s' hs hst => step_fits hs (hstep s op o s' hst)) (fun _ _ _ _ _ _ h => h)
      ⟨by decide, by simp⟩ ops
  refine ⟨hiff, fun htime => ⟨fun h => (hiff.mp h).imp fun _ _ hG => hG.1, fun hclears => ?_⟩⟩
  have hreports : ∀ s op o s', s.Fits ∧ s.Recent → s.InTime op ∧ s.ClearsAtStart op →
      machine.step s op = some (o, s') → s.ReportsInside op :=
    fun s op o s' hs hG hst => reportsInside hs.1 hs.2 hG.1 (hstep s op o s' hst)
  refine hiff.mpr ((Machine.AllSteps.congr (P := fun s => s.Fits ∧ s.Recent) ?_ ?_ ?_
    (htime.and hclears)).mpr hclears)
  · intro s op o s' hs hG hst
    have hfit := (step_fits hs.1 (hstep s op o s' hst)).mpr ⟨hG.2, hreports s op o s' hs hG hst⟩
    exact ⟨hfit, step_recent hs.2 hG.1 (hstep s op o s' hst)⟩
  · exact fun s op o s' hs hG hst => and_iff_left (hreports s op o s' hs hG hst)
  · exact ⟨⟨by decide, by simp⟩, recent_of_none (by simp)⟩

/-- A session that ends after a partial write; the next session sends from the old cursor. -/
def staleCursor : List ConnectionOp :=
  [.connect, .connectSuccess, .send (.append ['a', 'b']), .send (.complete 0 1), .disconnect true,
    .connect, .connectSuccess, .send (.append ['c'])]

theorem cursor_not_in_range :
    ¬ ∀ ops os s, machine.run {} ops = some (os, s) →
      s.buffers.InRange ∧ ∀ x ∈ s.writes, 0 ≤ x.request.length := by
  intro h
  have hs := h staleCursor (List.replicate 8 ())
    { curstate := .connected
      buffers := { fillBuffer := ['c'], currentSendState := 1, sendJobRunning := true }
      writes := [⟨1, ⟨1, 1⟩⟩, ⟨3, ⟨1, -1⟩⟩]
      clears := 3
      appended := ['a', 'b', 'c']
      written := ['a'] } (by decide)
  exact absurd hs.1 (by decide)

end SendJob

end Slirc.Connection
