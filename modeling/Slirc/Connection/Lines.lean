import Slirc.Connection.Steps

/-!
# The lines of a session

What a session receives is the stream of the bytes that its reads report. The lines that it puts on
the main queue are those of this stream (`session_lines`), however the reads cut it into pieces and
whatever else happens meanwhile: only the handler of a read touches the lines or `recv_buffer`, and
it does what `deliver` says (`step_received`).
-/

namespace Slirc.Connection

open Program

namespace Impl

/-- The lines that were put on the main queue. -/
def lines (s : Impl) : List (List Char) := s.emitted.filterMap (·.receivedData)

/-- The lines, and the text that waits for the rest of its line. -/
def received (s : Impl) : List (List Char) × List Char := (s.lines, s.buffers.recvBuffer)

end Impl

/-- The bytes that a call brings: those that a read reports. -/
def Call.bytes : Call → List Char
  | .deliver _ (.received bytes) => bytes
  | _ => []

/-! ## Programs that leave the lines as they are -/

namespace Buffers

@[simp] theorem send_recvBuffer (b : Buffers) : b.send.1.recvBuffer = b.recvBuffer := by
  have hrefill : b.refill.recvBuffer = b.recvBuffer := by
    unfold refill swap
    split <;> rfl
  unfold send
  dsimp only
  split <;> exact hrefill

@[simp] theorem append_recvBuffer (b : Buffers) (data : List Char) :
    (b.append data).1.recvBuffer = b.recvBuffer := by
  unfold append
  dsimp only
  split
  · exact send_recvBuffer _
  · rfl

@[simp] theorem advance_recvBuffer (b : Buffers) (numTransferred : Nat) :
    (b.advance numTransferred).1.recvBuffer = b.recvBuffer :=
  send_recvBuffer _

end Buffers

/-! ## Steps -/

namespace Impl

/-- An error event is not a line. -/
theorem emitting_error_received (s : Impl) (errorMessage : String) (errorCode : ErrorCode) :
    (s.emitting [errorEvent errorMessage errorCode]).received = s.received := by
  simp [received, lines, errorEvent]

theorem writing_received (s : Impl) {r : Buffers × Option WriteRequest}
    (h : r.1.recvBuffer = s.buffers.recvBuffer) : (s.writing r).received = s.received := by
  simp [received, lines, h]

/-- **What `recv` emits**: the lines of `recv_buffer`. -/
theorem reading_received (s : Impl) :
    s.reading.received =
      (s.lines ++ (recvLoop s.buffers.recvBuffer 0).1, (recvLoop s.buffers.recvBuffer 0).2) := by
  simp [received, lines, reading, lineEvent, Function.comp_def]

end Impl

/-- A failure ends the session, or changes no line. -/
theorem Teardown.received {s s' : Impl} {o : Outcome} {errorMessage : String}
    {errorCode : ErrorCode} (h : Teardown (s.emitting [errorEvent errorMessage errorCode]) o s')
    (hs' : s'.curstate = .connected) : s'.received = s.received := by
  rcases h.left with rfl | hd
  · exact s.emitting_error_received errorMessage errorCode
  · rw [hs'] at hd
    cases hd

/-- Only a read reports bytes. -/
theorem bytes_eq_nil {operation : Operation} {completion : Completion}
    (h : (operation.complete completion).isSome = true) (hop : operation ≠ .read) (i : Nat) :
    (Call.deliver i completion).bytes = [] := by
  cases completion with
  | received bytes => cases operation <;> first | exact absurd rfl hop | cases h
  | _ => rfl

/-- **A handler in a session** delivers what a read has reported, or does nothing to the lines. -/
theorem Handled.delivered {s s' : Impl} {operation : Operation} {completion : Completion}
    {o : Outcome} (h : Handled s operation completion o s')
    (hc : (operation.complete completion).isSome = true) (i : Nat) (hs : s.curstate = .connected)
    (hs' : s'.curstate = .connected) :
    s'.received = s.received ∧ (Call.deliver i completion).bytes = [] ∨
      s'.received = Slirc.deliver s.received (Call.deliver i completion).bytes := by
  cases h with
  | idle hidle =>
    refine .inl ⟨rfl, bytes_eq_nil hc ?_ i⟩
    rintro rfl
    exact hidle hs
  | readFailed _ hdown => exact .inl ⟨hdown.received hs', rfl⟩
  | writeFailed _ hdown => exact .inl ⟨hdown.received hs', rfl⟩
  | received => exact .inr (Impl.reading_received _)
  | transferred => exact .inl ⟨s.writing_received (s.buffers.advance_recvBuffer _), rfl⟩
  | lookupFailed hs₁ | resolved hs₁ | connectFailed hs₁ | handshake hs₁ | connected hs₁
  | handshakeFailed hs₁ | shaken hs₁ =>
    -- the handlers of an attempt that is being made do not pass their test
    rw [hs] at hs₁
    cases hs₁

/-- Inside a session a call delivers bytes, or changes no line. -/
theorem step_received {sslSupport : Bool} {s s' : Impl} {call : Call} {o : Outcome}
    (hs : s.curstate = .connected) (hs' : s'.curstate = .connected)
    (hst : s.step sslSupport call = some (o, s')) :
    s'.received = s.received ∧ call.bytes = [] ∨
      s'.received = Slirc.deliver s.received call.bytes := by
  cases step_effect hst with
  | endpointRefused | connectRefused | ignored => exact .inl ⟨rfl, rfl⟩
  | setEndpoint _ _ _ _ hd | connect hd =>
    rw [hs] at hd
    cases hd
  | disconnect _ hdown =>
    rcases hdown.left with rfl | hd
    · cases hs'
    · rw [hs'] at hd
      cases hd
  | sendRaw => exact .inl ⟨s.writing_received (s.buffers.append_recvBuffer _), rfl⟩
  | @deliver i completion _ _ _ _ hc hdone => exact hdone.delivered hc i hs hs'

/-- **The lines of a session are those of its stream.** In any run that starts with an established
connection and an empty `recv_buffer`, and stays connected, the lines put on the main queue are
those of all bytes that reads reported, and `recv_buffer` holds the unfinished line without its
leading blanks. -/
theorem session_lines {sslSupport : Bool} {s s' : Impl} {calls : List Call} {os : List Outcome}
    (hs : s.buffers.recvBuffer = [])
    (hconn : (machine sslSupport).AllStates (fun s => s.curstate = .connected) s calls)
    (hrun : (machine sslSupport).run s calls = some (os, s')) :
    s'.lines = s.lines ++ ircFraming.lines (calls.flatMap Call.bytes) ∧
      s'.buffers.recvBuffer = ircFraming.rest (calls.flatMap Call.bytes) := by
  have hinit : s.received = (s.lines ++ ircFraming.lines [], ircFraming.rest []) := by
    rw [Impl.received, hs]
    simp [Framing.lines, Framing.rest]
  have hend := Machine.run_history (M := machine sslSupport)
    (I := fun done t => t.received = (s.lines ++ ircFraming.lines (done.flatMap Call.bytes),
      ircFraming.rest (done.flatMap Call.bytes))) ?_ hinit hconn hrun
  · exact ⟨congrArg Prod.fst hend, congrArg Prod.snd hend⟩
  · intro done t call o t' ht htc htc' hst
    rw [List.flatMap_append, List.flatMap_singleton]
    rcases step_received htc htc' hst with ⟨hsame, hnil⟩ | hdeliver
    · rw [hsame, hnil, List.append_nil]
      exact ht
    · obtain ⟨hlines, hrest⟩ :=
        Framing.frame_append (F := ircFraming) (done.flatMap Call.bytes) call.bytes
      rw [hdeliver, ht, Slirc.deliver, recvLoop_eq, List.drop_zero, hlines, hrest,
        List.append_assoc]

end Slirc.Connection
