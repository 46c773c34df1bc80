/-!
# The buffers of a connection (`buffers_` in `src/modules/connection.cpp`)

Data to send is appended to `fill_buffer` while `send_buffer` is being written; when it is used up,
the two are swapped. A byte is the `Char` with its value. The iterator `current_send_state` is its
offset from the beginning of `send_buffer`.

Each operation that can start a write also gives the write it starts.
-/

namespace Slirc.Connection

/-- `apis::connection::state` -/
inductive State where
  | disconnected | connecting | connected | disconnecting | changed
  deriving DecidableEq, Repr

/-- The arguments of `const_buffers_1` for a write: an offset into `send_buffer`, and
`send_buffer.end() - current_send_state`. -/
structure WriteRequest where
  offset : Nat
  length : Int
  deriving DecidableEq, Repr

/-- The length of a write as a `std::size_t`. -/
def WriteRequest.size (r : WriteRequest) : Nat := (r.length % UInt64.size).toNat

theorem WriteRequest.size_le {r : WriteRequest} (h : 0 ≤ r.length) : (r.size : Int) ≤ r.length := by
  have hpos : UInt64.size = 18446744073709551616 := rfl
  unfold WriteRequest.size
  rw [hpos]
  omega

/-- `buffers_` -/
structure Buffers where
  sendBuffer : List Char := []
  fillBuffer : List Char := []
  recvBuffer : List Char := []
  currentSendState : Nat := 0
  sendJobRunning : Bool := false
  deriving DecidableEq, Repr

namespace Buffers

def clear (b : Buffers) : Buffers :=
  { b with sendBuffer := [], fillBuffer := [], recvBuffer := [], sendJobRunning := false }

def swap (b : Buffers) : Buffers :=
  { b with sendBuffer := b.fillBuffer, currentSendState := 0, fillBuffer := [] }

/-- `send` swaps if `send_buffer.end() == current_send_state`. -/
def refill (b : Buffers) : Buffers :=
  if b.currentSendState = b.sendBuffer.length then b.swap else b

def send (b : Buffers) : Buffers × Option WriteRequest :=
  let b := b.refill
  if b.currentSendState = b.sendBuffer.length then ({ b with sendJobRunning := false }, none)
  else (b, some ⟨b.currentSendState, b.sendBuffer.length - b.currentSendState⟩)

def append (b : Buffers) (data : List Char) : Buffers × Option WriteRequest :=
  let b := { b with fillBuffer := b.fillBuffer ++ data }
  if b.sendJobRunning = false ∧ 0 < data.length then send { b with sendJobRunning := true }
  else (b, none)

/-- What the completion handler of a write does in a connected session, without an error. -/
def advance (b : Buffers) (numTransferred : Nat) : Buffers × Option WriteRequest :=
  send { b with currentSendState := b.currentSendState + numTransferred }

/-- The cursor is inside `send_buffer`. -/
def InRange (b : Buffers) : Prop := b.currentSendState ≤ b.sendBuffer.length

instance (b : Buffers) : Decidable b.InRange := inferInstanceAs (Decidable (_ ≤ _))

/-- The bytes that are still to be written. -/
def unsent (b : Buffers) : List Char := b.sendBuffer.drop b.currentSendState ++ b.fillBuffer

theorem refill_inRange (b : Buffers) : b.refill.InRange ↔ b.InRange := by
  unfold refill
  split
  · rename_i heq
    simp [InRange, swap, heq]
  · rfl

theorem refill_unsent (b : Buffers) : b.refill.unsent = b.unsent := by
  unfold refill
  split
  · rename_i heq
    simp [unsent, swap, heq]
  · rfl

@[simp] theorem refill_sendJobRunning (b : Buffers) :
    b.refill.sendJobRunning = b.sendJobRunning := by
  unfold refill swap
  split <;> rfl

/-- If the cursor is at the end even then, nothing is left to send. -/
theorem unsent_of_exhausted {b : Buffers}
    (h : b.refill.currentSendState = b.refill.sendBuffer.length) : b.unsent = [] := by
  rw [← refill_unsent]
  unfold refill at h ⊢
  split at h
  · rename_i heq
    rw [if_pos heq]
    have hnil : b.fillBuffer = [] := List.length_eq_zero_iff.mp h.symm
    simp [unsent, swap, hnil]
  · rename_i hne
    exact absurd h hne

/-- **What `send` does.** Either nothing is left to send, and it ends the job; or it writes from the
cursor on. -/
theorem send_spec (b : Buffers) :
    b.send.1.unsent = b.unsent ∧ (b.send.1.InRange ↔ b.InRange) ∧
      ((b.send.2 = none ∧ b.send.1.sendJobRunning = false ∧ b.unsent = []) ∨
        (b.send.1.sendJobRunning = b.sendJobRunning ∧
          b.send.2 = some ⟨b.send.1.currentSendState,
            b.send.1.sendBuffer.length - b.send.1.currentSendState⟩)) := by
  have hrange := b.refill_inRange
  have hunsent := b.refill_unsent
  unfold send
  dsimp only
  split
  · rename_i heq
    exact ⟨hunsent, hrange, .inl ⟨rfl, rfl, unsent_of_exhausted heq⟩⟩
  · exact ⟨hunsent, hrange, .inr ⟨b.refill_sendJobRunning, rfl⟩⟩

/-- An append while a write is outstanding only fills the buffer. -/
theorem append_running {b : Buffers} (h : b.sendJobRunning = true) (data : List Char) :
    b.append data = ({ b with fillBuffer := b.fillBuffer ++ data }, none) := by
  simp [append, h]

/-- An append of no data does nothing. -/
theorem append_nil (b : Buffers) : b.append [] = (b, none) := by
  simp [append]

/-- An append that starts a job. -/
theorem append_idle {b : Buffers} (h : b.sendJobRunning = false) {data : List Char}
    (hd : data ≠ []) :
    b.append data =
      send { b with fillBuffer := b.fillBuffer ++ data, sendJobRunning := true } := by
  have hpos := List.length_pos_iff.mpr hd
  simp [append, h, hpos]

/-- There is nothing to send, no job is running, and the cursor is at the beginning. -/
def Unused (b : Buffers) : Prop :=
  b.sendBuffer = [] ∧ b.fillBuffer = [] ∧ b.currentSendState = 0 ∧ b.sendJobRunning = false

instance (b : Buffers) : Decidable b.Unused := inferInstanceAs (Decidable (_ ∧ _))

/-- The completion of a write changes nothing only if it reports no bytes to unused buffers. -/
theorem advance_eq_self (b : Buffers) (n : Nat) :
    b.advance n = (b, none) ↔ n = 0 ∧ b.Unused := by
  obtain ⟨sendBuffer, fillBuffer, recvBuffer, cursor, running⟩ := b
  by_cases hend : cursor + n = sendBuffer.length
  · -- all of `send_buffer` is written, and the buffers are swapped
    by_cases hnil : fillBuffer = []
    · simp [advance, send, refill, swap, Unused, hend, hnil]
      grind
    · have hlen : ¬0 = fillBuffer.length := fun h => hnil (List.length_eq_zero_iff.mp h.symm)
      simp [advance, send, refill, swap, Unused, hend, hnil, hlen]
  · simp [advance, send, refill, Unused, hend]
    grind

end Buffers

end Slirc.Connection
