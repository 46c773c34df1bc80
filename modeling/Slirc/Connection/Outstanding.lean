import Slirc.Connection.Disconnecting
import Mathlib.Data.List.Basic

/-!
# Outstanding operations

A connection that is connecting waits for the completion of a resolve, connect or handshake, and one
that is connected for that of a read. Where nothing of the kind is outstanding, the connection stays
as it is: `connect` is refused, and no event arrives.

* `live_iff`: a connection is never left like this if and only if no handler stalls that has the
  last of these operations.
* `Impl.Stalls`: the handlers that neither start another operation nor disconnect: the one of a
  failed handshake, and those whose teardown throws.
* `handshake_stalls`: a failed handshake leaves the connection connecting, with nothing to wait for.
-/

namespace Slirc.Connection

open Program

/-- The operations of the stages of an attempt. -/
def Operation.Establishes : Operation → Prop
  | .resolve _ _ | .connect _ | .handshake => True
  | .read | .write _ => False

namespace Impl

/-- Whatever the connection waits for is outstanding. -/
structure Live (s : Impl) : Prop where
  connecting : s.curstate = .connecting → ∃ x ∈ s.operations, x.operation.Establishes
  connected : s.curstate = .connected → ∃ x ∈ s.operations, x.operation = .read

/-- Neither an endpoint is left that can be tried, nor can the connection be torn down. -/
def Exhausted (s : Impl) (iterator : List Resolved) : Prop :=
  if iterator = [] then ¬s.Closable else s.transport = none

/-- The handler of the operation neither starts another one nor disconnects. -/
def Stalls (s : Impl) : Operation → Completion → Prop
  | .resolve _ _, .failed _ => s.curstate = .connecting ∧ ¬s.Closable
  | .resolve _ _, .resolved iterator => s.curstate = .connecting ∧ s.Exhausted iterator
  | .connect _, .failed _ => s.curstate = .connecting ∧ s.Exhausted s.resolveIterator
  | .handshake, .failed _ => s.curstate = .connecting
  | .read, .failed _ | .write _, .failed _ => s.curstate = .connected ∧ ¬s.Closable
  | _, _ => False

/-- If the handler stalls, there is another operation to wait for. -/
def Continues (s : Impl) : Call → Prop
  | .deliver i completion => ∀ x, s.operations[i]? = some x →
    (s.without i).Stalls x.operation completion → (s.without i).Live
  | _ => True

/-- The handlers of operations return. -/
def Returns (s : Impl) : Call → Prop
  | .deliver i completion => ∀ o s', s.deliver i completion = some (o, s') → o = .returned
  | _ => True

/-- A failed handshake has another operation to wait for. -/
def HandshakeContinues (s : Impl) : Call → Prop
  | .deliver i (.failed _) => ∀ x, s.operations[i]? = some x → x.operation = .handshake →
    s.curstate = .connecting → ∃ y ∈ (s.without i).operations, y.operation.Establishes
  | _ => True

end Impl

/-! ## Operations that stay outstanding -/

theorem exists_without {s : Impl} {i : Nat} {x : Started} {P : Operation → Prop}
    (hx : s.operations[i]? = some x) (hP : ¬P x.operation)
    (h : ∃ y ∈ s.operations, P y.operation) : ∃ y ∈ (s.without i).operations, P y.operation := by
  obtain ⟨y, hy, hPy⟩ := h
  obtain ⟨j, hj⟩ := List.mem_iff_getElem?.mp hy
  refine ⟨y, List.mem_eraseIdx_iff_getElem?.mpr ⟨j, ?_, hj⟩, hPy⟩
  rintro rfl
  cases hx.symm.trans hj
  exact hP hPy

/-- An operation that the connection does not wait for. -/
theorem Impl.Live.without {s : Impl} {i : Nat} {x : Started} (hs : s.Live)
    (hx : s.operations[i]? = some x) (hidle : s.curstate ≠ x.operation.expects) :
    (s.without i).Live := by
  constructor
  · intro hcur
    refine exists_without hx (fun hest => hidle ?_) (hs.connecting hcur)
    have hcur' : s.curstate = .connecting := hcur
    cases hop : x.operation <;> simp_all [Operation.Establishes, Operation.expects]
  · intro hcur
    refine exists_without (P := fun operation => operation = .read) hx (fun hread => hidle ?_)
      (hs.connected hcur)
    rw [hread]
    exact hcur

/-- What holds of a state that is neither connecting nor connected. -/
theorem Impl.Live.of_ne {s : Impl} (h₁ : s.curstate ≠ .connecting) (h₂ : s.curstate ≠ .connected) :
    s.Live := ⟨fun h => absurd h h₁, fun h => absurd h h₂⟩

/-- More operations, in the same state. -/
theorem Impl.Live.of_prefix {s s' : Impl} (hs : s.Live) (hcur : s'.curstate = s.curstate)
    (hops : ∀ x ∈ s.operations, x ∈ s'.operations) : s'.Live := by
  constructor
  · intro h
    obtain ⟨x, hx, hest⟩ := hs.connecting (hcur ▸ h)
    exact ⟨x, hops x hx, hest⟩
  · intro h
    obtain ⟨x, hx, hread⟩ := hs.connected (hcur ▸ h)
    exact ⟨x, hops x hx, hread⟩

/-- An operation has been started that the connection waits for. -/
theorem Impl.Live.starting {s : Impl} {operation : Operation}
    (h₁ : s.curstate = .connecting → operation.Establishes)
    (h₂ : s.curstate = .connected → operation = .read) : (s.starting operation).Live :=
  ⟨fun h => ⟨_, List.mem_append_right _ (List.mem_singleton.mpr rfl), h₁ h⟩,
    fun h => ⟨_, List.mem_append_right _ (List.mem_singleton.mpr rfl), h₂ h⟩⟩

/-! ## Steps -/

/-- `connect_try_next` goes on or disconnects, unless it is exhausted. -/
theorem TryNext.exhausted_or {s s' : Impl} {o : Outcome} (h : TryNext s o s') :
    ¬s.Exhausted s.resolveIterator ∧
      (s'.curstate = .disconnected ∨ ∃ sock endpoint rest, s' = s.trying sock endpoint rest) ∨
    s.Exhausted s.resolveIterator ∧ s' = s := by
  cases h with
  | exhausted hnil hdown =>
    rw [Impl.Exhausted, if_pos hnil, not_not]
    exact hdown.closable.imp_left fun h => ⟨h.1, .inl h.2⟩
  | missing hcons hnone =>
    rw [Impl.Exhausted, if_neg (by simp [hcons])]
    exact .inr ⟨hnone, rfl⟩
  | next sock hcons hsome =>
    rw [Impl.Exhausted, if_neg (by simp [hcons]), hsome]
    exact .inl ⟨by simp, .inr ⟨sock, _, _, rfl⟩⟩

/-- An attempt to connect is waited for. -/
theorem Impl.trying_live {s : Impl} (hs : s.curstate = .connecting) (sock : Transport)
    (endpoint : Resolved) (rest : List Resolved) : (s.trying sock endpoint rest).Live := by
  have hstart : ((s.setOpen sock true).starting (.connect endpoint)).Live :=
    .starting (fun _ => trivial) (by simp [hs])
  exact hstart.of_prefix rfl fun _ hx => hx

/-- A handler that stalls changes neither the state nor the operations. -/
theorem Handled.stalled {s s' : Impl} {operation : Operation} {completion : Completion}
    {o : Outcome} (h : Handled s operation completion o s') (hs : s.Stalls operation completion) :
    s'.curstate = s.curstate ∧ s'.operations = s.operations := by
  cases h with
  | idle => exact ⟨rfl, rfl⟩
  | lookupFailed _ hdown | readFailed _ hdown | writeFailed _ hdown =>
    rcases hdown.closable with ⟨hc, -⟩ | ⟨-, rfl⟩
    · exact absurd hc hs.2
    · exact ⟨rfl, rfl⟩
  | resolved _ hnext | connectFailed _ hnext =>
    rcases hnext.exhausted_or with ⟨hne, -⟩ | ⟨-, rfl⟩
    · exact absurd hs.2 hne
    · exact ⟨rfl, rfl⟩
  | handshakeFailed => exact ⟨rfl, rfl⟩
  | handshake | connected | shaken | received | transferred => cases hs

/-- **A handler that does not stall** leaves an operation to wait for, or disconnects. -/
theorem Handled.live {s s' : Impl} {operation : Operation} {completion : Completion}
    {o : Outcome} (h : Handled s operation completion o s') (hs : ¬s.Stalls operation completion)
    (hidle : s.curstate ≠ operation.expects → s.Live)
    (hread : s.curstate = .connected → operation ≠ .read →
      ∃ x ∈ s.operations, x.operation = .read) : s'.Live := by
  cases h with
  | idle hne => exact hidle hne
  | lookupFailed hcur hdown | readFailed hcur hdown | writeFailed hcur hdown =>
    rcases hdown.closable with ⟨-, hd⟩ | ⟨hc, -⟩
    · exact .of_ne (by simp [hd]) (by simp [hd])
    · exact absurd ⟨hcur, hc⟩ hs
  | resolved hcur hnext | connectFailed hcur hnext =>
    rcases hnext.exhausted_or with ⟨-, hd | ⟨sock, endpoint, rest, rfl⟩⟩ | ⟨he, -⟩
    · exact .of_ne (by simp [hd]) (by simp [hd])
    · refine Impl.trying_live ?_ sock endpoint rest
      exact hcur
    · exact absurd ⟨hcur, he⟩ hs
  | handshake hcur => exact .starting (fun _ => trivial) (by simp [hcur])
  | connected hcur | shaken hcur => exact .starting (by simp) fun _ => rfl
  | handshakeFailed hcur => exact absurd hcur hs
  | received hcur => exact .starting (by simp [hcur]) fun _ => rfl
  | transferred hcur =>
    refine ⟨fun h => absurd (hcur.symm.trans h) (by simp), fun _ => ?_⟩
    obtain ⟨x, hx, hop⟩ := hread hcur (by simp)
    exact ⟨x, List.mem_append_left _ hx, hop⟩

/-- **A step keeps the connection alive** exactly if it does not stall on the last operation. -/
theorem step_live {sslSupport : Bool} {s s' : Impl} {call : Call} {o : Outcome} (hs : s.Live)
    (h : s.step sslSupport call = some (o, s')) : s'.Live ↔ s.Continues call := by
  cases step_effect h with
  | endpointRefused | connectRefused | ignored => exact iff_of_true hs trivial
  | setEndpoint => exact iff_of_true (hs.of_prefix rfl fun _ hx => hx) trivial
  | connect => exact iff_of_true (.starting (fun _ => trivial) (by simp [Impl.attempting])) trivial
  | disconnect _ hdown =>
    refine iff_of_true ?_ trivial
    rcases hdown.left with rfl | hd
    · exact .of_ne (by simp) (by simp)
    · exact .of_ne (by simp [hd]) (by simp [hd])
  | sendRaw =>
    exact iff_of_true (hs.of_prefix rfl fun _ hx => List.mem_append_left _ hx) trivial
  | @deliver i completion x _ _ hx _ hdone =>
    by_cases hstall : (s.without i).Stalls x.operation completion
    · obtain ⟨hcur, hops⟩ := hdone.stalled hstall
      have hsame : s'.Live ↔ (s.without i).Live :=
        ⟨fun h => h.of_prefix hcur.symm fun y hy => hops ▸ hy,
          fun h => h.of_prefix hcur fun y hy => hops ▸ hy⟩
      rw [hsame]
      refine ⟨fun h y _ _ => h, fun h => h x hx hstall⟩
    · have hlive : s'.Live := by
        refine hdone.live hstall (hs.without hx) fun hcur hop => ?_
        exact exists_without (P := fun operation => operation = .read) hx hop (hs.connected hcur)
      refine iff_of_true hlive fun y hy hstall' => absurd hstall' ?_
      cases hx.symm.trans hy
      exact hstall

/-- Of the handlers that stall, only the one of a failed handshake returns. -/
theorem Handled.handshakeFailed_of_stalls {s s' : Impl} {operation : Operation}
    {completion : Completion} (h : Handled s operation completion .returned s')
    (hs : s.Stalls operation completion) : operation = .handshake ∧ s.curstate = .connecting := by
  have hdown : ∀ {t : Impl}, Teardown t .returned s' → ¬t.Closable → False :=
    fun hdown hc => hc (hdown.returned_iff.mp rfl)
  have hnext : ∀ {t : Impl}, TryNext t .returned s' → ¬t.Exhausted t.resolveIterator := by
    intro t hnext hex
    cases hnext with
    | exhausted hnil hd =>
      rw [Impl.Exhausted, if_pos hnil] at hex
      exact hdown hd hex
    | next sock hcons hsome =>
      rw [Impl.Exhausted, if_neg (by simp [hcons]), hsome] at hex
      cases hex
  cases h with
  | idle hidle => cases operation <;> cases completion <;> simp_all [Impl.Stalls, Operation.expects]
  | lookupFailed _ hd | readFailed _ hd | writeFailed _ hd => exact (hdown hd hs.2).elim
  | resolved _ hn => exact absurd hs.2 (hnext hn)
  | connectFailed _ hn =>
    refine absurd ?_ (hnext hn)
    exact hs.2
  | handshakeFailed hcur => exact ⟨rfl, hcur⟩
  | handshake | connected | shaken | received | transferred => cases hs

/-- Where handlers return, only a failed handshake matters. -/
theorem continues_iff {sslSupport : Bool} {s s' : Impl} {call : Call} {o : Outcome}
    (hret : s.Returns call) (h : s.step sslSupport call = some (o, s')) :
    s.Continues call ↔ s.HandshakeContinues call := by
  cases step_effect h with
  | endpointRefused | connectRefused | ignored | setEndpoint | connect | disconnect | sendRaw =>
    exact Iff.rfl
  | @deliver i completion x _ _ hx _ hdone =>
    obtain rfl : o = .returned := hret o s' h
    constructor
    · intro hcont
      cases completion with
      | resolved | succeeded | received | transferred => trivial
      | failed error =>
        intro y hy hop hcur
        have hstall : (s.without i).Stalls y.operation (.failed error) := by
          rw [hop]
          exact hcur
        exact (hcont y hy hstall).connecting hcur
    · intro hcont y hy hstall
      cases hx.symm.trans hy
      obtain ⟨hop, hcur⟩ := hdone.handshakeFailed_of_stalls hstall
      rw [hop] at hstall
      cases completion with
      | resolved | succeeded | received | transferred => cases hstall
      | failed error =>
        exact ⟨fun _ => hcont x hx hop hcur, fun hc => absurd (hcur.symm.trans hc) (by simp)⟩

/-! ## Runs -/

/-- **When a connection is live.** In any run, a connection that is connecting always has a resolve,
connect or handshake outstanding, and one that is connected a read, if and only if each handler that
stalls leaves another such operation; where handlers return, if and only if each failed handshake
does. -/
theorem live_iff (sslSupport : Bool) (calls : List Call) :
    ((machine sslSupport).AllStates Impl.Live {} calls ↔
      (machine sslSupport).AllSteps Impl.Continues {} calls) ∧
    ((machine sslSupport).AllSteps Impl.Returns {} calls →
      ((machine sslSupport).AllStates Impl.Live {} calls ↔
        (machine sslSupport).AllSteps Impl.HandshakeContinues {} calls)) := by
  have hinit : Impl.Live {} := .of_ne (by decide) (by decide)
  have hlive := Machine.allStates_iff_allSteps (M := machine sslSupport) (P := Impl.Live)
    (Q := Impl.Live) (fun _ hs => hs) (fun s call o s' hs hst => step_live hs hst)
    (fun _ _ _ _ _ _ hs' => hs') hinit calls
  refine ⟨hlive, fun hret => hlive.trans ?_⟩
  exact hret.congr (P := fun _ => True) (fun _ _ _ _ _ _ _ => trivial)
    (fun s call o s' _ hs hst => continues_iff hs hst) trivial

/-- An attempt whose only handshake fails. -/
def failedHandshake : List Call :=
  [.setEndpoint ['i', 'r', 'c', 's', ':', '/', '/', 'h'] 0, .connect,
    .deliver 0 (.resolved [⟨['a'], 1⟩]), .deliver 0 .succeeded,
    .deliver 0 (.failed ⟨1, "handshake failure"⟩)]

theorem handshake_stalls : ∃ s, (machine true).run {} failedHandshake =
    some (List.replicate 5 .returned, s) ∧ ¬s.Live := by
  refine ⟨{
      hostname := ['h']
      port := 6697
      curstate := .connecting
      resolver := true
      ssl := some { isOpen := true }
      emitted := [stateEvent .connecting,
        errorEvent "SSL handshake failed: handshake failure" ⟨1, "handshake failure"⟩]
      attempts := 1 }, by decide, fun h => ?_⟩
  obtain ⟨x, hx, -⟩ := h.connecting rfl
  cases hx

end Slirc.Connection
