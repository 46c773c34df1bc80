import Slirc.EventManager.Threads
import Slirc.Lib.ListUpdate

/-!
# No event is lost at the main queue, and none is delivered twice

The ledger of the users (`Clients.ledger`) lists the events stored for waiters and the events that
callbacks accepted. Every step moves events from the front of the deque to the ledger, and nothing
else (`step_spec`); so the ledger and the deque together always are the events that were put on the
queue (`no_event_lost`).

The invariant of one waiter (`Waiter.Inv`) carries it: an event is stored only while the flag
`awaits_event` is set, which is only while the thread sleeps and has no event yet.
-/

namespace Slirc

variable {ε : Type}

/-- What holds of a returning call between the steps. -/
structure Waiter.Inv (x : Waiter ε) : Prop where
  received : x.received = x.event.toList
  awaits : x.awaitsEvent = true → x.phase = .waiting ∧ x.event = none
  early : x.phase = .start ∨ x.phase = .empty → x.event = none ∧ x.awaitsEvent = false
  result : ∀ r, x.phase = .returned r → x.event = r

/-- What is true of a call of `wait_event`: the events it got are the one it holds, if any, and
what it returned is this event. -/
structure Waiter.Served (x : Waiter ε) : Prop where
  received : x.received = x.event.toList
  once : x.received.length ≤ 1
  result : ∀ r, x.phase = .returned r → x.received = r.toList

theorem Waiter.Inv.served {x : Waiter ε} (h : x.Inv) : x.Served where
  received := h.received
  once := by
    rw [h.received]
    cases x.event <;> simp
  result r hr := by rw [h.received, h.result r hr]

namespace Clients

/-- The events stored for or returned by waiters. -/
def held (c : Clients ε) : List ε := c.waiters.filterMap (·.event)

/-- The events that callbacks accepted. -/
def accepted (c : Clients ε) : List ε :=
  c.calls.filterMap fun r => if r.2.2 then some r.2.1 else none

def ledger (c : Clients ε) : List ε := c.held ++ c.accepted

def Inv (c : Clients ε) : Prop := ∀ x ∈ c.waiters, x.Inv

/-- The calls that have returned are as they were. -/
def Frozen (c c' : Clients ε) : Prop :=
  ∀ (w : Nat) (x : Waiter ε) (r : Option ε), c.waiters[w]? = some x → x.phase = .returned r →
    c'.waiters[w]? = some x

/-- `c'` comes from `c` by storing or accepting the events `taken`. -/
structure Took (c : Clients ε) (taken : List ε) (c' : Clients ε) : Prop where
  inv : c'.Inv
  ledger : c'.ledger.Perm (c.ledger ++ taken)
  frozen : c.Frozen c'

theorem Took.refl {c : Clients ε} (h : c.Inv) : c.Took [] c :=
  ⟨h, by simp, fun _ _ _ hx _ => hx⟩

theorem Took.trans {c₁ c₂ c₃ : Clients ε} {t₁ t₂ : List ε} (h₁ : c₁.Took t₁ c₂)
    (h₂ : c₂.Took t₂ c₃) : c₁.Took (t₁ ++ t₂) c₃ where
  inv := h₂.inv
  ledger := by
    rw [← List.append_assoc]
    exact h₂.ledger.trans (h₁.ledger.append_right t₂)
  frozen w x r hx hr := h₂.frozen w x r (h₁.frozen w x r hx hr) hr

/-- The waiter at a position is replaced by one with the same event. -/
theorem Took.set_same {c : Clients ε} (h : c.Inv) {w : Nat} {x y : Waiter ε}
    (hw : c.waiters[w]? = some x) (hr : ∀ r, x.phase ≠ .returned r) (hy : y.Inv)
    (he : y.event = x.event) : c.Took [] { c with waiters := c.waiters.set w y } where
  inv := ListUpdate.forall_mem_set h hy
  ledger := by
    simp only [Clients.ledger, held, accepted, List.append_nil]
    rw [ListUpdate.filterMap_set_same hw he]
  frozen w' x' r hx hp := by
    have hne : w ≠ w' := by
      rintro rfl
      rw [hw] at hx
      cases hx
      exact hr r hp
    rwa [List.getElem?_set_ne hne]

/-- The waiter at a position gets an event. -/
theorem Took.set_new {c : Clients ε} (h : c.Inv) {w : Nat} {x y : Waiter ε} {e : ε}
    (hw : c.waiters[w]? = some x) (hr : ∀ r, x.phase ≠ .returned r) (hy : y.Inv)
    (hx : x.event = none) (he : y.event = some e) :
    c.Took [e] { c with waiters := c.waiters.set w y } where
  inv := ListUpdate.forall_mem_set h hy
  ledger := by
    have hp := ListUpdate.filterMap_set_new hw hx he
    simp only [Clients.ledger, held, accepted, List.append_assoc]
    refine (hp.append_right _).trans ?_
    rw [List.append_assoc]
    exact List.Perm.append_left _ List.perm_append_comm
  frozen w' x' r hx' hp := by
    have hne : w ≠ w' := by
      rintro rfl
      rw [hw] at hx'
      cases hx'
      exact hr r hp
    rwa [List.getElem?_set_ne hne]

end Clients

/-- A waiter that gets an event while it has none. -/
theorem Waiter.Inv.give {x : Waiter ε} (h : x.Inv) (hx : x.event = none) (e : ε) {p : Phase ε}
    (hp : p = .waiting ∨ p = .leaving) :
    ({ x.give e with phase := p, awaitsEvent := false } : Waiter ε).Inv where
  received := by simp [Waiter.give, h.received, hx]
  awaits := by simp
  early := by rcases hp with rfl | rfl <;> simp
  result := by rcases hp with rfl | rfl <;> simp

/-- **A consumer takes an event exactly if it says so**, whatever it is offered. -/
theorem consume_took {c c' : Clients ε} (h : c.Inv) (answers : Nat → ε → Bool) (k : Consumer)
    (e : ε) {b : Bool} (hc : consume answers k e c = .ok b c') :
    c.Took (if b then [e] else []) c' := by
  cases k with
  | callback n =>
    cases hc
    refine ⟨h, ?_, fun _ _ _ hx _ => hx⟩
    cases answers n e <;>
      simp [Clients.ledger, Clients.held, Clients.accepted, List.filterMap_append]
  | returning w =>
    unfold consume at hc
    dsimp only at hc
    split at hc
    · cases hc
      exact .refl h
    · rename_i x hw
      split at hc
      · rename_i halive
        cases hc
        have hx := h x (List.mem_of_getElem? hw)
        obtain ⟨hp, hnone⟩ := hx.awaits halive.2
        have hy := hx.give hnone e (.inl rfl)
        rw [← hp] at hy
        exact .set_new h hw (by simp [hp]) hy hnone rfl
      · cases hc
        exact .refl h

theorem consume_keeps (c : Clients ε) (answers : Nat → ε → Bool) :
    MainQueue.Keeps (consume answers) c.Took := by
  intro taken k e s b s' hs hc
  have := hs.trans (consume_took hs.inv answers k e hc)
  cases b <;> simpa using this

/-- The events that a step puts in front of the deque. -/
def ThreadStep.front : ThreadStep ε → List ε
  | .flush events _ => events
  | _ => []

/-- The events that a step puts behind the deque. -/
def ThreadStep.back : ThreadStep ε → List ε
  | .queue e _ => [e]
  | _ => []

namespace Threads

/-- What a step does that puts `front` in front of the deque and `back` behind it: some events leave
by the front of the deque and go to the ledger. -/
def Moves (s : Threads ε) (front back : List ε) (s' : Threads ε) : Prop :=
  s'.put = s.put ++ (front ++ back) ∧
  ∃ taken, front ++ s.main.queue ++ back = taken ++ s'.main.queue ∧ s.clients.Took taken s'.clients

/-- A section that cannot throw has a result. -/
theorem after_eq (put : List ε) (r : EStateM.Result Empty (MainQueue ε Consumer × Clients ε) Unit) :
    ∃ m c, r = .ok () (m, c) ∧ after put r = { main := m, clients := c, put := put } := by
  cases r with
  | ok _ mc => exact ⟨mc.1, mc.2, rfl, rfl⟩
  | error x _ => exact x.elim

/-- A section that offers the front to consumers. -/
theorem moves_after {s : Threads ε} {front back put : List ε} {c : Clients ε}
    {r : EStateM.Result Empty (MainQueue ε Consumer × Clients ε) Unit}
    (hput : put = s.put ++ (front ++ back)) (hc : s.clients.Took [] c)
    (hr : ∀ m c', r = .ok () (m, c') →
      ∃ taken, front ++ s.main.queue ++ back = taken ++ m.queue ∧ c.Took taken c') :
    s.Moves front back (after put r) := by
  obtain ⟨m, c', hrc, ha⟩ := after_eq put r
  obtain ⟨taken, hq, ht⟩ := hr m c' hrc
  rw [ha]
  exact ⟨hput, taken, hq, hc.trans ht⟩

/-- A step of one waiter that changes neither the deque nor the event of the waiter. -/
theorem moves_setWaiter {s s₀ : Threads ε} (h : s.clients.Inv) {w : Nat} {x y : Waiter ε}
    (hw : s.clients.waiters[w]? = some x) (hr : ∀ r, x.phase ≠ .returned r) (hy : y.Inv)
    (he : y.event = x.event) (hc : s₀.clients = s.clients) (hp : s₀.put = s.put)
    (hq : s₀.main.queue = s.main.queue) : s.Moves [] [] (s₀.setWaiter w y) := by
  refine ⟨by simp [setWaiter, hp], [], by simp [setWaiter, hq], ?_⟩
  simp only [setWaiter, hc]
  exact .set_same h hw hr hy he

/-- A section of a waiter that takes the front of the deque. -/
theorem moves_takeFront {s s₁ : Threads ε} (h : s.clients.Inv) {w : Nat} {x : Waiter ε}
    (hw : s.clients.waiters[w]? = some x) (hp : x.phase = .start ∨ x.phase = .empty)
    (hs₁ : s.Moves [] [] s₁) : s.Moves [] [] (s.takeFront w x s₁) := by
  have hx := h x (List.mem_of_getElem? hw)
  obtain ⟨hnone, hno⟩ := hx.early hp
  unfold takeFront
  split
  · rename_i e main hpop
    obtain ⟨hq, -⟩ := MainQueue.popFront_eq_some hpop
    refine ⟨by simp [setWaiter], [e], by simp [setWaiter, hq], ?_⟩
    have hy := hx.give hnone e (.inr rfl)
    rw [← hno] at hy
    exact .set_new h hw (by rcases hp with hp | hp <;> simp [hp]) hy hnone rfl
  · exact hs₁

/-- **What a step does.** -/
theorem step_spec {s s' : Threads ε} (h : s.clients.Inv) {a : ThreadStep ε}
    (hst : s.step a = some s') : s.Moves a.front a.back s' := by
  cases step_effect hst with
  | queue | flush =>
    refine moves_after (by simp [ThreadStep.front, ThreadStep.back]) (.refl h) fun m c' hr => ?_
    simpa [ThreadStep.front, ThreadStep.back] using
      MainQueue.tryUnqueue_inv (consume_keeps s.clients _) (.refl h) hr
  | waitCallback =>
    have hc : s.clients.Took [] { s.clients with callbacks := s.clients.callbacks + 1 } :=
      ⟨h, by simp [Clients.ledger, Clients.held, Clients.accepted], fun _ _ _ hx _ => hx⟩
    refine moves_after (by simp [ThreadStep.front, ThreadStep.back]) hc fun m c' hr => ?_
    simpa [ThreadStep.front, ThreadStep.back] using
      MainQueue.offer_inv (consume_keeps _ _) (.refl hc.inv) hr
  | @waitEvent timed =>
    refine ⟨by simp [ThreadStep.front, ThreadStep.back], [], by
      simp [ThreadStep.front, ThreadStep.back], ?_, ?_, ?_⟩
    · intro x hx
      rcases List.mem_append.mp hx with hx | hx
      · exact h x hx
      · obtain rfl : x = { timed } := by simpa using hx
        exact ⟨rfl, by simp, by simp, by simp⟩
    · simp [Clients.ledger, Clients.held, Clients.accepted, List.filterMap_append]
    · intro w x r hx _
      rw [List.getElem?_append_left (List.getElem?_eq_some_iff.mp hx).1]
      exact hx
  | tryFront hw hp =>
    have hx := h _ (List.mem_of_getElem? hw)
    obtain ⟨hnone, hno⟩ := hx.early (.inl hp)
    refine moves_takeFront h hw (.inl hp) ?_
    exact moves_setWaiter h hw (by simp [hp])
      ⟨hx.received, by simp [hno], by simp [hnone, hno], by simp⟩ rfl rfl rfl rfl
  | register hw hp =>
    have hx := h _ (List.mem_of_getElem? hw)
    obtain ⟨hnone, -⟩ := hx.early (.inr hp)
    refine moves_takeFront h hw (.inr hp) ?_
    exact moves_setWaiter h hw (by simp [hp])
      ⟨hx.received, by simp [hnone], by simp, by simp⟩ rfl rfl rfl rfl
  | wake hw hp hno =>
    have hx := h _ (List.mem_of_getElem? hw)
    exact moves_setWaiter h hw (by simp [hp])
      ⟨hx.received, by simp [hno], by simp, by simp⟩ rfl rfl rfl rfl
  | timeout hw hp =>
    have hx := h _ (List.mem_of_getElem? hw)
    exact moves_setWaiter h hw (by simp [hp])
      ⟨hx.received, by simp, by simp, by simp⟩ rfl rfl rfl rfl
  | @ret w x hw hp =>
    have hx := h x (List.mem_of_getElem? hw)
    have hno : x.awaitsEvent = false := by
      by_contra hc
      have := (hx.awaits (by simpa using hc)).1
      simp [hp] at this
    exact moves_setWaiter h hw (by simp [hp])
      ⟨hx.received, by simp [hno], by simp, by simp⟩ rfl rfl rfl rfl

/-- The steps of the threads, as a machine without answers. -/
def machine : Machine (Threads ε) (ThreadStep ε) Unit :=
  ⟨fun s a => (s.step a).map fun s' => ((), s')⟩

/-- The ledger and the deque are what was put on the queue. -/
structure Inv (s : Threads ε) : Prop where
  clients : s.clients.Inv
  put : s.put.Perm (s.main.queue ++ s.clients.ledger)

theorem inv_init : Inv ({} : Threads ε) := ⟨by simp [Clients.Inv], by
  simp [Clients.ledger, Clients.held, Clients.accepted]⟩

/-- A step keeps the account: what enters the deque is put, what leaves it is in the ledger. -/
theorem Moves.inv {s s' : Threads ε} {front back : List ε} (h : s.Moves front back s')
    (hs : s.Inv) : s'.Inv := by
  classical
  obtain ⟨hput, taken, hq, ht⟩ := h
  refine ⟨ht.inv, List.perm_iff_count.mpr fun e => ?_⟩
  have hold := List.perm_iff_count.mp hs.put e
  have hledger := List.perm_iff_count.mp ht.ledger e
  have hdeque := congrArg (List.count e) hq
  rw [hput]
  simp only [List.count_append] at *
  omega

theorem inv_reaches {s : Threads ε} (h : machine.Reaches {} s) : s.Inv := by
  refine h.inv (fun s a o s' hs hst => ?_) inv_init
  obtain ⟨t, ht, he⟩ := Option.map_eq_some_iff.mp hst
  cases he
  exact (step_spec hs.clients ht).inv hs

/-- **No event is lost, and none is delivered twice.** After every run the events that were put on
the queue are, with multiplicity, those in the deque, those held by one waiter and those accepted by
one callback. A waiter got at most one event, and none if it returned a null pointer. A step takes
events from the front of the deque only, and leaves the calls that have returned as they are. -/
theorem no_event_lost {s : Threads ε} (h : machine.Reaches {} s) :
    s.put.Perm (s.main.queue ++ s.clients.held ++ s.clients.accepted) ∧
    (∀ x ∈ s.clients.waiters, x.Served) ∧
    ∀ a s', s.step a = some s' → s.Moves a.front a.back s' := by
  have hs := inv_reaches h
  refine ⟨?_, fun x hx => (hs.clients x hx).served, fun a s' hst => step_spec hs.clients hst⟩
  rw [List.append_assoc]
  exact hs.put

/-- A timed wait that times out before its consumer is called, and the call of its consumer. -/
def lateCall : List (ThreadStep Nat) :=
  [.waitEvent true, .tryFront 0, .register 0, .timeout 0, .queue 7 fun _ _ => true, .ret 0]

def afterLateCall : Threads Nat where
  main := { queue := [7] }
  clients := { waiters := [{ timed := true, phase := .returned none }] }
  put := [7]

theorem no_event_lost_lateCall :
    machine.Reaches {} afterLateCall ∧
    afterLateCall.put.Perm (afterLateCall.main.queue ++ afterLateCall.clients.held ++
      afterLateCall.clients.accepted) ∧
    (∀ x ∈ afterLateCall.clients.waiters, x.Served) ∧
    ∀ a s', afterLateCall.step a = some s' → afterLateCall.Moves a.front a.back s' :=
  have h : machine.Reaches {} afterLateCall := ⟨lateCall, [(), (), (), (), (), ()], by rfl⟩
  ⟨h, no_event_lost h⟩

end Threads

end Slirc
