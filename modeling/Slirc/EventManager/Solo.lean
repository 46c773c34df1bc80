import Slirc.EventManager.Consumers

/-!
# One thread takes the events

Nobody registers callbacks, and nobody waits with a timeout (`ThreadStep.solo`).

* `Waiter.Prompt`: then a call of `wait_event` returns an event, and no null pointer.
* `held_eq`: if the calls are made one after the other, the events that they get are those that
  leave the deque, in the same order.
-/

namespace Slirc

variable {ε : Type}

/-- A call without a timeout: it leaves its wait with an event only. -/
structure Waiter.Prompt (x : Waiter ε) : Prop where
  untimed : x.timed = false
  waiting : x.phase = .waiting → x.awaitsEvent = true ∨ x.event.isSome = true
  leaving : x.phase = .leaving → x.event.isSome = true
  returned : ∀ r, x.phase = .returned r → r.isSome = true

/-- No callback is registered, and no wait has a timeout. -/
def ThreadStep.solo : ThreadStep ε → Bool
  | .waitEvent timed => !timed
  | .waitCallback _ => false
  | _ => true

namespace Clients

/-- There are no callbacks, and the calls have no timeouts. -/
structure Solo (c : Clients ε) : Prop where
  callbacks : c.callbacks = 0
  calls : c.calls = []
  prompt : ∀ x ∈ c.waiters, x.Prompt

theorem Solo.setWaiter {c : Clients ε} (h : c.Solo) (w : Nat) {y : Waiter ε} (hy : y.Prompt) :
    (c.setWaiter w y).Solo :=
  ⟨h.callbacks, h.calls, ListUpdate.forall_mem_set h.prompt hy⟩

end Clients

/-- The consumer of a waiter keeps it so. -/
theorem consume_solo {c c' : Clients ε} (h : c.Solo) (answers : Nat → ε → Bool) (w : Nat) (e : ε)
    {b : Bool} (hc : consume answers (.returning w) e c = .ok b c') :
    c'.Solo ∧ c'.waiters.length = c.waiters.length := by
  unfold consume at hc
  dsimp only at hc
  split at hc
  · cases hc
    exact ⟨h, rfl⟩
  · rename_i x hw
    split at hc <;> cases hc
    · have hx := h.prompt x (List.mem_of_getElem? hw)
      refine ⟨h.setWaiter w ⟨hx.untimed, fun _ => .inr rfl, fun _ => rfl, hx.returned⟩, ?_⟩
      exact List.length_set
    · exact ⟨h, rfl⟩

namespace Threads

/-- All registered consumers are those of waiters. -/
theorem remaining_returning {s : Threads ε} (hreach : machine.Reaches {} s)
    (h : s.clients.callbacks = 0) {k : Consumer} (hk : k ∈ s.main.remaining) :
    ∃ w, k = .returning w := by
  obtain ⟨log, hlog⟩ := consistent_of_reaches hreach
  obtain ⟨done, hreg, -⟩ := hlog.registered
  have hpassed := (hlog.passed k).mpr (.inr (hreg ▸ List.mem_append_right done hk))
  cases k with
  | returning w => exact ⟨w, rfl⟩
  | callback n =>
    have hlt : n < s.clients.callbacks := hlog.known _ hpassed
    omega

/-- A section that offers the front to the consumers. -/
theorem solo_after {s : Threads ε} (hreach : machine.Reaches {} s) (h : s.clients.Solo)
    {m : MainQueue ε Consumer} (hcons : m.queueConsumers = s.main.queueConsumers)
    (hindex : m.queueConsumerIndex = s.main.queueConsumerIndex) (put : List ε)
    (answers : Nat → ε → Bool) :
    (after put (m.tryUnqueue (consume answers) s.clients)).clients.Solo ∧
      (after put (m.tryUnqueue (consume answers) s.clients)).clients.waiters.length =
        s.clients.waiters.length := by
  have hremaining : m.remaining = s.main.remaining := by
    rw [MainQueue.remaining, MainQueue.remaining, hcons, hindex]
  obtain ⟨log, hlog⟩ := consistent_of_reaches hreach
  have hle : m.queueConsumerIndex ≤ m.queueConsumers.length := by
    rw [hcons, hindex]
    exact hlog.tidy.index_le
  obtain ⟨m', c', hrun, hafter⟩ := after_eq put (m.tryUnqueue (consume answers) s.clients)
  let inv (called : List Consumer) (c : Clients ε) : Prop :=
    (∀ k ∈ called, ∃ w, k = .returning w) →
      c.Solo ∧ c.waiters.length = s.clients.waiters.length
  have hkeep : ∀ called k e c b c', inv called c → consume answers k e c = .ok b c' →
      inv (called ++ [k]) c' := by
    intro called k e c b c' hc hok hall
    obtain ⟨hsolo, hlen⟩ := hc fun k hk => hall k (List.mem_append_left _ hk)
    obtain ⟨w, rfl⟩ := hall k (List.mem_append_right _ (List.mem_singleton_self _))
    exact (consume_solo hsolo answers w e hok).imp_right fun h => h.trans hlen
  obtain ⟨-, n, hinv, -⟩ := MainQueue.tryUnqueue_calls hkeep hle (fun _ => ⟨h, rfl⟩) hrun
  rw [hafter]
  refine hinv fun k hk => remaining_returning hreach h.callbacks ?_
  rw [hremaining] at hk
  exact List.mem_of_mem_take hk

/-- A section of a waiter that takes the front of the deque, or makes it `y`. -/
theorem solo_takeFront {s s₁ : Threads ε} (h : s.clients.Solo) {w : Nat} {x y : Waiter ε}
    (hw : s.clients.waiters[w]? = some x) (hs₁ : s₁.clients = s.clients.setWaiter w y)
    (hy : y.Prompt) : (s.takeFront w x s₁).clients.Solo ∧
      (s.takeFront w x s₁).clients.waiters.length = s.clients.waiters.length := by
  have hx := h.prompt x (List.mem_of_getElem? hw)
  unfold takeFront
  split
  · exact ⟨h.setWaiter w ⟨hx.untimed, by simp, fun _ => rfl, by simp⟩, List.length_set⟩
  · rw [hs₁]
    exact ⟨h.setWaiter w hy, List.length_set⟩

/-- **A step** of such threads. -/
theorem solo_step {s s' : Threads ε} (hreach : machine.Reaches {} s) (h : s.clients.Solo)
    {a : ThreadStep ε} (ha : a.solo = true) (hst : s.step a = some s') :
    s'.clients.Solo ∧ (s'.clients.waiters.length = s.clients.waiters.length ∨
      a = .waitEvent false ∧ s' = { s with clients := { s.clients with
        waiters := s.clients.waiters ++ [{ timed := false }] } }) := by
  cases step_effect hst with
  | waitCallback => cases ha
  | @queue e answers =>
    have hsection := solo_after hreach h (m := { s.main with queue := s.main.queue ++ [e] }) rfl rfl
      (s.put ++ [e]) answers
    exact hsection.imp_right .inl
  | @flush events answers =>
    have hsection := solo_after hreach h (m := { s.main with
      queue := events.reverse.foldl (fun q e => e :: q) s.main.queue }) rfl rfl
      (s.put ++ events) answers
    exact hsection.imp_right .inl
  | @waitEvent timed =>
    obtain rfl : timed = false := by simpa [ThreadStep.solo] using ha
    refine ⟨⟨h.callbacks, h.calls, fun x hx => ?_⟩, .inr ⟨rfl, rfl⟩⟩
    rcases List.mem_append.mp hx with hx | hx
    · exact h.prompt x hx
    · obtain rfl := List.mem_singleton.mp hx
      exact ⟨rfl, by simp, by simp, by simp⟩
  | @tryFront w x hw hp =>
    have hx := h.prompt _ (List.mem_of_getElem? hw)
    have hy : Waiter.Prompt { x with phase := .empty } := ⟨hx.untimed, by simp, by simp, by simp⟩
    exact (solo_takeFront h hw rfl hy).imp_right .inl
  | @register w x hw hp =>
    have hx := h.prompt _ (List.mem_of_getElem? hw)
    have hy : Waiter.Prompt { x with phase := .waiting, awaitsEvent := true } :=
      ⟨hx.untimed, fun _ => .inl rfl, by simp, by simp⟩
    exact (solo_takeFront h hw rfl hy).imp_right .inl
  | timeout hw _ ht =>
    have hx := h.prompt _ (List.mem_of_getElem? hw)
    rw [hx.untimed] at ht
    cases ht
  | wake hw hp hno =>
    have hx := h.prompt _ (List.mem_of_getElem? hw)
    have hsome := (hx.waiting hp).resolve_left (by simp [hno])
    exact ⟨h.setWaiter _ ⟨hx.untimed, by simp, fun _ => hsome, by simp⟩, .inl List.length_set⟩
  | ret hw hp =>
    have hx := h.prompt _ (List.mem_of_getElem? hw)
    have hsome := hx.leaving hp
    refine ⟨h.setWaiter _ ⟨hx.untimed, by simp, by simp, fun r hr => ?_⟩, .inl List.length_set⟩
    cases hr
    exact hsome

/-- **The order of the calls is the order of the events.** All calls but the last one have returned,
so what leaves the deque goes to the last one. -/
theorem held_eq {c c' : Clients ε} {left : List ε} (ht : c.Took left c') (hc : c.calls = [])
    (hc' : c'.calls = []) (hlen : c'.waiters.length = c.waiters.length)
    (hseq : ∀ v x, c.waiters[v]? = some x → v + 1 < c.waiters.length → ∃ r, x.phase = .returned r) :
    c'.held = c.held ++ left := by
  have hledger : c'.held.Perm (c.held ++ left) := by
    have hperm := ht.ledger
    simpa [Clients.ledger, Clients.accepted, hc, hc'] using hperm
  rcases List.eq_nil_or_concat c.waiters with hnil | ⟨ws, x, hws⟩
  · have hnil' : c'.waiters = [] := List.length_eq_zero_iff.mp (by rw [hlen, hnil]; rfl)
    simp only [Clients.held, hnil, hnil', List.filterMap_nil, List.nil_append] at hledger ⊢
    exact (List.nil_perm.mp hledger).symm
  · rw [List.concat_eq_append] at hws
    have hlast : ws.length < c'.waiters.length := by simp [hlen, hws]
    have hws' : c'.waiters = ws ++ [c'.waiters[ws.length]] := by
      refine List.ext_getElem? fun v => ?_
      rcases Nat.lt_trichotomy v ws.length with hv | rfl | hv
      · have hx : c.waiters[v]? = some ws[v] := by simp [hws, List.getElem?_append_left hv, hv]
        obtain ⟨r, hr⟩ := hseq v ws[v] hx (by simp [hws, hv])
        rw [ht.frozen v ws[v] r hx hr, List.getElem?_append_left hv, List.getElem?_eq_getElem hv]
      · simp [hlast]
      · rw [List.getElem?_eq_none (by simp [hlen, hws]; omega),
          List.getElem?_eq_none (by simp; omega)]
    generalize c'.waiters[ws.length] = y at hws'
    have hx : c.held = ws.filterMap (·.event) ++ x.event.toList := by
      rw [Clients.held, hws, List.filterMap_append]
      cases hxe : x.event <;> simp [hxe]
    have hy : c'.held = ws.filterMap (·.event) ++ y.event.toList := by
      rw [Clients.held, hws', List.filterMap_append]
      cases hye : y.event <;> simp [hye]
    rw [hx, hy, List.append_assoc, List.perm_append_left_iff] at hledger
    rw [hx, hy, List.append_assoc]
    congr 1
    -- the last call has at most one event
    cases hye : y.event with
    | none =>
      rw [hye] at hledger
      exact (List.nil_perm.mp hledger).symm
    | some e =>
      rw [hye] at hledger
      exact List.singleton_perm.mp hledger

end Threads

end Slirc
