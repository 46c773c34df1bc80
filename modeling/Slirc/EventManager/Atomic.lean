import Slirc.EventManager.Consumers
import Slirc.EventManager.Exclusion

/-!
# The sections of the main queue are atomic

Every state that the threads reach with their mutexes (`LockedThreads`) is, once no call is inside
the loop of `try_unqueue`, one that they reach with whole sections as steps (`Threads`).

A section is passed on as one step at its end. Until then other threads have gone on: a waiter that
was called in this section may have left its wait and returned, and one that was not may have timed
out. The calls of the consumers are kept apart from these steps (`MainQueue.Called`): what the
former waiters did is put behind the section, what the latter did in front of it
(`Called.frame`: a consumer that was not called does not matter to those that were).

* `WaitCall.waiter`, `LockedThreads.threads`: what is left when the mutexes are forgotten.
* `Waiter.Advance`: the steps of a waiter that need no section under `queue_mutex`.
* `InLoop`: a call is inside its loop, on top of a state of `Threads`.
* `threads_reached`: the result.

Callbacks are taken to return, and not to call the queue themselves.
-/

namespace Slirc

namespace MainQueue

variable {ε κ σ f : Type}

/-- The loop of `try_unqueue` has come from `m₀` and `s₀` to `m` and `s`, with these calls. -/
inductive Called (consume : κ → ε → EStateM f σ Bool) (m₀ : MainQueue ε κ) (s₀ : σ) :
    List κ → MainQueue ε κ → σ → Prop where
  | start : Called consume m₀ s₀ [] m₀ s₀
  | call {called : List κ} {m : MainQueue ε κ} {s s' : σ} {k : κ} {e : ε} {rest : List ε}
      {b : Bool} : Called consume m₀ s₀ called m s → m.queue = e :: rest →
    m.queueConsumers[m.queueConsumerIndex]? = some k → consume k e s = .ok b s' →
    Called consume m₀ s₀ (called ++ [k])
      { m with
        queue := if b then rest else m.queue, queueConsumerIndex := m.queueConsumerIndex + 1 } s'

/-- The next consumer. -/
theorem remaining_cons {m : MainQueue ε κ} {k : κ}
    (hk : m.queueConsumers[m.queueConsumerIndex]? = some k) :
    m.remaining = k :: m.queueConsumers.drop (m.queueConsumerIndex + 1) := by
  obtain ⟨hlt, hk⟩ := List.getElem?_eq_some_iff.mp hk
  rw [remaining, List.drop_eq_getElem_cons hlt, hk]

namespace Called

variable {consume : κ → ε → EStateM f σ Bool} {m₀ m : MainQueue ε κ} {s₀ s : σ} {called : List κ}

theorem remaining (h : Called consume m₀ s₀ called m s) :
    m₀.remaining = called ++ m.remaining := by
  induction h with
  | start => rfl
  | call _ _ hk _ ih => rw [ih, remaining_cons hk, List.append_assoc]; rfl

/-- The rest of the loop. -/
theorem loop (h : Called consume m₀ s₀ called m s) :
    tryUnqueueLoop consume m₀.remaining m₀ s₀ = tryUnqueueLoop consume m.remaining m s := by
  induction h with
  | start => rfl
  | @call called m s s' k e rest b _ hq hk hc ih =>
    rw [ih, remaining_cons hk, tryUnqueueLoop, hq]
    dsimp only
    rw [hc]
    cases b <;> simp [MainQueue.remaining]

/-- The loop ends. -/
theorem finish (h : Called consume m₀ s₀ called m s)
    (hend : m.queue = [] ∨ m.queueConsumers[m.queueConsumerIndex]? = none) :
    tryUnqueue consume m₀ s₀ = .ok () (m.dropCalled, s) := by
  have hlast : tryUnqueueLoop consume m.remaining m s = .ok () (m, s) := by
    rcases hend with hq | hk
    · cases m.remaining <;> simp only [tryUnqueueLoop, hq]
    · rw [MainQueue.remaining, List.drop_eq_nil_of_le (List.getElem?_eq_none_iff.mp hk)]
      rfl
  have hloop := h.loop
  rw [hlast] at hloop
  simp only [tryUnqueue]
  rw [← MainQueue.remaining, hloop]

/-- What the called consumers do not see can be done before. -/
theorem frame (h : Called consume m₀ s₀ called m s) (g : σ → σ)
    (hg : ∀ k ∈ called, ∀ e s b s', consume k e s = .ok b s' → consume k e (g s) = .ok b (g s')) :
    Called consume m₀ (g s₀) called m (g s) := by
  induction h with
  | start => exact .start
  | call _ hq hk hc ih =>
    exact .call (ih fun k hk => hg k (List.mem_append_left _ hk)) hq hk
      (hg _ (List.mem_append_right _ (List.mem_singleton_self _)) _ _ _ _ hc)

end Called

end MainQueue

variable {ε : Type}

/-! ## Without the mutexes -/

def WaitPoint.phase : WaitPoint ε → Phase ε
  | .lockQueue | .tryFront => .start
  | .lockData | .lockQueueAgain | .register => .empty
  | .testing | .asleep | .woken | .late => .waiting
  | .leaving | .early | .unlocked => .leaving
  | .returned r => .returned r

/-- Outside of `condvar.wait` no consumer can ask for the flag. -/
def WaitCall.waiter (x : WaitCall ε) : Waiter ε where
  timed := x.timed
  phase := x.point.phase
  awaitsEvent := x.point.waits && x.awaitsEvent
  event := x.event
  received := x.received

def LockedThreads.threads (s : LockedThreads ε) : Threads ε where
  main := s.shared.main
  clients :=
    { waiters := s.waiters.map (·.waiter), callbacks := s.shared.callbacks, calls := s.shared.log }
  put := s.shared.put

/-- The steps of a waiter that need no section under `queue_mutex`. -/
inductive Waiter.Advance : Waiter ε → Waiter ε → Prop where
  | wake {x : Waiter ε} : x.phase = .waiting → x.awaitsEvent = false →
    Advance x { x with phase := .leaving }
  | timeout {x : Waiter ε} : x.phase = .waiting → x.timed = true →
    Advance x { x with phase := .leaving, awaitsEvent := false }
  | ret {x : Waiter ε} : x.phase = .leaving → Advance x { x with phase := .returned x.event }

theorem Waiter.Advance.step {x y : Waiter ε} (h : x.Advance y) {s : Threads ε} {w : Nat}
    (hw : s.clients.waiters[w]? = some x) : ∃ a, s.step a = some (s.setWaiter w y) := by
  cases h with
  | wake hp hno => exact ⟨.wake w, by simp [Threads.step, hw, hp, hno]⟩
  | timeout hp ht => exact ⟨.timeout w, by simp [Threads.step, hw, hp, ht]⟩
  | ret hp => exact ⟨.ret w, by simp [Threads.step, hw, hp]⟩

namespace Threads

/-- Waiters that go on by themselves. -/
theorem reaches_of_chain {s : Threads ε} {ws : List (Waiter ε)}
    (h : Relation.ReflTransGen (ListUpdate.One Waiter.Advance) s.clients.waiters ws) :
    machine.Reaches s { s with clients := { s.clients with waiters := ws } } := by
  induction h with
  | refl => exact .refl s
  | @tail ws₁ ws₂ _ hone ih =>
    obtain ⟨w, x, y, hw, hadv, rfl⟩ := hone
    obtain ⟨a, ha⟩ := hadv.step (s := { s with clients := { s.clients with waiters := ws₁ } }) hw
    exact ih.trans (.single (a := a) (o := ()) (Option.map_eq_some_iff.mpr ⟨_, ha, rfl⟩))

theorem step_tryFront {s : Threads ε} {w : Nat} {x : Waiter ε}
    (hw : s.clients.waiters[w]? = some x) (hp : x.phase = .start) :
    s.step (.tryFront w) =
      some (s.takeFront w x (s.setWaiter w { x with phase := .empty })) := by
  simp [step, hw, hp]

theorem step_register {s : Threads ε} {w : Nat} {x : Waiter ε}
    (hw : s.clients.waiters[w]? = some x) (hp : x.phase = .empty) :
    s.step (.register w) = some (s.takeFront w x
      ({ s with main := s.main.register (.returning w) }.setWaiter w
        { x with phase := .waiting, awaitsEvent := true })) := by
  simp [step, hw, hp]

theorem takeFront_some {s s₁ : Threads ε} {w : Nat} {x : Waiter ε} {e : ε}
    {main : MainQueue ε Consumer} (h : s.main.popFront = some (e, main)) :
    s.takeFront w x s₁ = { s with main }.setWaiter w { x.give e with phase := .leaving } := by
  simp only [takeFront, h]

theorem takeFront_none {s s₁ : Threads ε} {w : Nat} {x : Waiter ε}
    (h : s.main.popFront = none) : s.takeFront w x s₁ = s₁ := by
  simp only [takeFront, h]

/-- The consumers that a queue still has to call are different ones. -/
theorem remaining_nodup {s : Threads ε} (h : machine.Reaches {} s) : s.main.remaining.Nodup := by
  obtain ⟨log, hs⟩ := consistent_of_reaches h
  obtain ⟨done, hreg, -⟩ := hs.registered
  have hnodup := hs.nodup_registered
  rw [hreg] at hnodup
  exact (List.nodup_append.mp hnodup).2.1

end Threads

/-! ### Consumers and the waiters they do not concern -/

theorem consume_setWaiter {c c' : Clients ε} {answers : Nat → ε → Bool} {k : Consumer} {e : ε}
    {b : Bool} {w : Nat} (hk : k ≠ .returning w) (x : Waiter ε)
    (h : consume answers k e c = .ok b c') :
    consume answers k e (c.setWaiter w x) = .ok b (c'.setWaiter w x) := by
  cases k with
  | callback n =>
    cases h
    rfl
  | returning v =>
    have hv : w ≠ v := fun he => hk (congrArg _ he.symm)
    unfold consume at h ⊢
    dsimp only [Clients.setWaiter] at h ⊢
    rw [List.getElem?_set_ne hv]
    split at h
    · cases h
      rfl
    · split at h
      · cases h
        rw [if_pos ‹_›, List.set_comm _ _ hv]
      · cases h
        rw [if_neg ‹_›]

/-- A waiter that begins cannot be called. -/
theorem consume_begin {c c' : Clients ε} {answers : Nat → ε → Bool} {k : Consumer} {e : ε}
    {b : Bool} (timed : Bool) (h : consume answers k e c = .ok b c') :
    consume answers k e { c with waiters := c.waiters ++ [{ timed }] } =
      .ok b { c' with waiters := c'.waiters ++ [{ timed }] } := by
  cases k with
  | callback n =>
    cases h
    rfl
  | returning v =>
    unfold consume at h ⊢
    dsimp only at h ⊢
    rcases ListUpdate.getElem?_snoc c.waiters { timed } v with hv | ⟨hold, hnew⟩
    · rw [hv]
      split at h
      · cases h
        rfl
      · rename_i x hx
        have hlt := (List.getElem?_eq_some_iff.mp hx).1
        split at h
        · cases h
          rw [if_pos ‹_›, List.set_append_left _ _ hlt]
        · cases h
          rw [if_neg ‹_›]
    · rw [hold] at h
      cases h
      rw [hnew]
      rfl

/-- A waiter that was not called is as it was. -/
theorem MainQueue.Called.waiter {answers : Nat → ε → Bool} {m₀ m : MainQueue ε Consumer}
    {c₀ c : Clients ε} {called : List Consumer}
    (h : Called (consume answers) m₀ c₀ called m c) {w : Nat} (hw : .returning w ∉ called) :
    c.waiters[w]? = c₀.waiters[w]? := by
  induction h with
  | start => rfl
  | @call called m s s' k e rest b _ hq hk hc ih =>
    rw [← ih fun hmem => hw (List.mem_append_left _ hmem)]
    cases k with
    | callback n =>
      cases hc
      rfl
    | returning v =>
      have hv : v ≠ w := by
        rintro rfl
        exact hw (List.mem_append_right _ (List.mem_singleton_self _))
      unfold consume at hc
      dsimp only at hc
      split at hc
      · cases hc
        rfl
      · split at hc <;> cases hc
        · exact List.getElem?_set_ne hv
        · rfl

/-! ## A section in progress -/

/-- In the loop of `try_unqueue`. -/
def UserPoint.inLoop : UserPoint ε → Bool
  | .loop | .lockData _ _ | .consumer _ _ => true
  | _ => false

theorem UserPoint.holdsQueue_of_inLoop {p : UserPoint ε} (h : p.inLoop = true) :
    p.holdsQueue = true := by
  cases p <;> first | rfl | cases h

/-- The queue is `m` at the head of the loop, and `main` at the point. -/
def UserPoint.Place (p : UserPoint ε) (main m : MainQueue ε Consumer) : Prop :=
  match p with
  | .loop => main = m
  | .lockData w e | .consumer w e =>
    (∃ rest, m.queue = e :: rest) ∧
      m.queueConsumers[m.queueConsumerIndex]? = some (.returning w) ∧
      main = { m with queueConsumerIndex := m.queueConsumerIndex + 1 }
  | _ => False

theorem UserPoint.Place.inLoop {p : UserPoint ε} {main m : MainQueue ε Consumer}
    (h : p.Place main m) : p.inLoop = true := by
  cases p <;> first | rfl | cases h

/-- The section as one step. -/
def Task.step (task : Task ε) (answers : Nat → ε → Bool) : ThreadStep ε :=
  match task with
  | .queue e => .queue e answers
  | .flush events => .flush events answers
  | .waitCallback => .waitCallback answers

theorem Task.step_eq {task : Task ε} (htask : task ≠ .waitCallback) (answers : Nat → ε → Bool)
    (s : Threads ε) :
    s.step (task.step answers) = some (.after (s.put ++ task.events)
      (MainQueue.tryUnqueue (consume answers) (task.enqueue s.main) s.clients)) := by
  cases task with
  | waitCallback => exact absurd rfl htask
  | queue | flush => rfl

/-- The user `n` is in its loop: `A` is before its section, and the calls so far lead to the
clients `C`. The waiters may have gone on since then, if they were called; the others are as they
were. -/
structure InLoop (s : LockedThreads ε) (A : Threads ε) (n : Nat) (c : UserCall ε)
    (m : MainQueue ε Consumer) (called : List Consumer) (C : Clients ε) : Prop where
  user : s.users[n]? = some c
  task : c.task ≠ .waitCallback
  place : c.point.Place s.shared.main m
  loop : MainQueue.Called (consume c.answers) (c.task.enqueue A.main) A.clients called m C
  put : s.shared.put = A.put ++ c.task.events
  callbacks : C.callbacks = s.shared.callbacks
  calls : C.calls = s.shared.log
  length : C.waiters.length = s.waiters.length
  waiters : ∀ (w : Nat) (y : Waiter ε) (x : WaitCall ε), C.waiters[w]? = some y →
    s.waiters[w]? = some x → Relation.ReflTransGen Waiter.Advance y x.waiter ∧
      (.returning w ∉ called → y = x.waiter)

namespace InLoop

variable {s : LockedThreads ε} {A : Threads ε} {n : Nat} {c : UserCall ε}
  {m : MainQueue ε Consumer} {called : List Consumer} {C : Clients ε}

/-- The waiter at a position, before and after what it did since it was called. -/
theorem waiter (h : InLoop s A n c m called C) {w : Nat} {x : WaitCall ε}
    (hw : s.waiters[w]? = some x) : ∃ y, C.waiters[w]? = some y ∧
      Relation.ReflTransGen Waiter.Advance y x.waiter ∧
      (.returning w ∉ called → y = x.waiter) := by
  have hlt : w < C.waiters.length := by
    rw [h.length]
    exact (List.getElem?_eq_some_iff.mp hw).1
  exact ⟨C.waiters[w], List.getElem?_eq_getElem hlt,
    h.waiters w _ x (List.getElem?_eq_getElem hlt) hw⟩

/-- **The section ends**: it is one step from `A`, and then the waiters go on. -/
theorem finish (h : InLoop s A n c m called C)
    (hend : m.queue = [] ∨ m.queueConsumers[m.queueConsumerIndex]? = none)
    {s' : LockedThreads ε} (hmain : s'.shared.main = m.dropCalled)
    (hput : s'.shared.put = s.shared.put) (hcallbacks : s'.shared.callbacks = s.shared.callbacks)
    (hlog : s'.shared.log = s.shared.log) (hwaiters : s'.waiters = s.waiters) :
    Threads.machine.Reaches A s'.threads := by
  have hone : A.step (c.task.step c.answers) =
      some { main := m.dropCalled, clients := C, put := A.put ++ c.task.events } := by
    rw [Task.step_eq h.task, h.loop.finish hend]
    rfl
  have hchain : List.Forall₂ (Relation.ReflTransGen Waiter.Advance) C.waiters
      (s.waiters.map (·.waiter)) := by
    refine List.forall₂_iff_get.mpr ⟨by simp [h.length], fun w hw hw' => ?_⟩
    have hlt : w < s.waiters.length := by simpa using hw'
    obtain ⟨hadv, -⟩ := h.waiters w C.waiters[w] s.waiters[w] (List.getElem?_eq_getElem hw)
      (List.getElem?_eq_getElem hlt)
    simpa using hadv
  refine .trans (.single (Option.map_eq_some_iff.mpr ⟨_, hone, rfl⟩)) ?_
  have hlast := Threads.reaches_of_chain
    (s := { main := m.dropCalled, clients := C, put := A.put ++ c.task.events })
    (ListUpdate.chain_of_forall₂ hchain)
  simpa only [LockedThreads.threads, hmain, hput, hcallbacks, hlog, hwaiters, h.put,
    ← h.callbacks, ← h.calls] using hlast

/-- A waiter goes on by itself while the section is in progress. -/
theorem advance (h : InLoop s A n c m called C) {w : Nat} {x z : WaitCall ε}
    (hw : s.waiters[w]? = some x)
    (hadv : Relation.ReflTransGen Waiter.Advance x.waiter z.waiter) {s' : LockedThreads ε}
    (hs' : s' = s.setWaiter w z) :
    ∃ A' C', Threads.machine.Reaches A A' ∧ InLoop s' A' n c m called C' := by
  subst hs'
  have hlt := (List.getElem?_eq_some_iff.mp hw).1
  obtain ⟨y, hy, hyx, hsame⟩ := h.waiter hw
  by_cases hcalled : .returning w ∈ called
  · -- the step comes behind the section
    refine ⟨A, C, .refl A, { h with length := ?_, waiters := ?_ }⟩
    · simpa [LockedThreads.setWaiter] using h.length
    · intro v y' x' hy' hx'
      by_cases hv : w = v
      · subst hv
        have hz : (s.waiters.set w z)[w]? = some z := List.getElem?_set_self hlt
        cases hz.symm.trans hx'
        cases hy.symm.trans hy'
        exact ⟨hyx.trans hadv, fun hno => absurd hcalled hno⟩
      · exact h.waiters v y' x' hy' ((List.getElem?_set_ne hv).symm.trans hx')
  · -- the step comes in front of it
    obtain rfl := hsame hcalled
    have hA : A.clients.waiters[w]? = some x.waiter := (h.loop.waiter hcalled).symm.trans hy
    refine ⟨A.setWaiter w z.waiter, C.setWaiter w z.waiter,
      Threads.reaches_of_chain (ListUpdate.chain_set hA hadv), { h with
        loop := ?_, length := ?_, waiters := ?_ }⟩
    · refine h.loop.frame (·.setWaiter w z.waiter) fun k hk e t b t' hc => ?_
      refine consume_setWaiter (fun he => hcalled ?_) _ hc
      rwa [← he]
    · simpa [LockedThreads.setWaiter, Clients.setWaiter] using h.length
    · intro v y' x' hy' hx'
      by_cases hv : w = v
      · subst hv
        have hz : (s.waiters.set w z)[w]? = some z := List.getElem?_set_self hlt
        have hz' : (C.waiters.set w z.waiter)[w]? = some z.waiter :=
          List.getElem?_set_self (List.getElem?_eq_some_iff.mp hy).1
        cases hz.symm.trans hx'
        cases hz'.symm.trans hy'
        exact ⟨.refl, fun _ => rfl⟩
      · exact h.waiters v y' x' ((List.getElem?_set_ne hv).symm.trans hy')
          ((List.getElem?_set_ne hv).symm.trans hx')

/-- A waiter begins. -/
theorem waitEvent (h : InLoop s A n c m called C) (timed : Bool) :
    ∃ A' C', Threads.machine.Reaches A A' ∧
      InLoop { s with waiters := s.waiters ++ [{ timed }] } A' n c m called C' := by
  refine ⟨{ A with clients := { A.clients with waiters := A.clients.waiters ++ [{ timed }] } },
    { C with waiters := C.waiters ++ [{ timed }] },
    .single (a := .waitEvent timed) (o := ()) rfl, { h with
      loop := ?_, length := by simp [h.length], waiters := ?_ }⟩
  · exact h.loop.frame (fun c => { c with waiters := c.waiters ++ [{ timed }] })
      fun k _ e t b t' hc => consume_begin timed hc
  · intro w y x hy hx
    rcases ListUpdate.getElem?_snoc C.waiters { timed } w with hold | ⟨hnone, hnew⟩
    · have hlt : w < s.waiters.length := by
        rw [← h.length]
        exact (List.getElem?_eq_some_iff.mp (hold.symm.trans hy)).1
      exact h.waiters w y x (hold.symm.trans hy) ((List.getElem?_append_left hlt).symm.trans hx)
    · have hge : s.waiters.length ≤ w := by
        rw [← h.length]
        exact List.getElem?_eq_none_iff.mp hnone
      cases hnew.symm.trans hy
      rw [List.getElem?_append_right hge] at hx
      obtain rfl := List.mem_singleton.mp (List.mem_of_getElem? hx)
      exact ⟨.refl, fun _ => rfl⟩

/-- The next consumer was not called in this section. -/
theorem not_called (h : InLoop s A n c m called C) (hA : Threads.machine.Reaches {} A)
    {k : Consumer} (hk : m.queueConsumers[m.queueConsumerIndex]? = some k) : k ∉ called := by
  have hnodup := Threads.remaining_nodup hA
  have hsame : (c.task.enqueue A.main).remaining = A.main.remaining := by cases c.task <;> rfl
  rw [← hsame, h.loop.remaining, MainQueue.remaining_cons hk] at hnodup
  exact fun hmem => (List.nodup_append.mp hnodup).2.2 k hmem k List.mem_cons_self rfl

/-- A callback is called. -/
theorem callback (h : InLoop s A n c m called C) (hp : c.point = .loop) {e : ε} {rest : List ε}
    {i : Nat} (hq : s.shared.main.queue = e :: rest)
    (hk : s.shared.main.queueConsumers[s.shared.main.queueConsumerIndex]? = some (.callback i))
    {s' : LockedThreads ε} (hs' : s' = {
      shared := s.shared.next.callback c.answers i e
      waiters := s.waiters, users := s.users.set n { c with point := .loop } }) :
    ∃ m' called' C', InLoop s' A n { c with point := .loop } m' called' C' := by
  subst hs'
  have hm : s.shared.main = m := by simpa [UserPoint.Place, hp] using h.place
  subst hm
  have hlt := (List.getElem?_eq_some_iff.mp h.user).1
  refine ⟨_, called ++ [.callback i], { C with calls := C.calls ++ [(i, e, c.answers i e)] }, {
    user := List.getElem?_set_self hlt
    task := h.task
    place := rfl
    loop := ?_
    put := h.put
    callbacks := h.callbacks
    calls := by simp [Shared.callback, Shared.next, h.calls]
    length := h.length
    waiters := fun w y x hy hx => ?_ }⟩
  · have hcall := h.loop.call hq hk (rfl : consume c.answers (.callback i) e C = _)
    cases hanswer : c.answers i e <;> simpa [Shared.callback, Shared.next, hanswer, hq] using hcall
  · obtain ⟨hadv, hsame⟩ := h.waiters w y x hy hx
    exact ⟨hadv, fun hno => hsame fun hmem => hno (List.mem_append_left _ hmem)⟩

/-- The consumer of a waiter has rejected the event: the waiter that it concerns does not await
one. -/
theorem reject (h : InLoop s A n c m called C) (hA : Threads.machine.Reaches {} A) {e : ε}
    {rest : List ε} {w : Nat} (hq : m.queue = e :: rest)
    (hk : m.queueConsumers[m.queueConsumerIndex]? = some (.returning w))
    (hno : ∀ x : WaitCall ε, s.waiters[w]? = some x →
      ¬(x.waiter.alive = true ∧ x.waiter.awaitsEvent = true)) :
    MainQueue.Called (consume c.answers) (c.task.enqueue A.main) A.clients
      (called ++ [.returning w]) { m with queueConsumerIndex := m.queueConsumerIndex + 1 } C := by
  have hc : consume c.answers (.returning w) e C = .ok false C := by
    unfold consume
    dsimp only
    split
    · rfl
    · rename_i y hy
      have hlt : w < s.waiters.length := by
        rw [← h.length]
        exact (List.getElem?_eq_some_iff.mp hy).1
      have hx := List.getElem?_eq_getElem hlt
      obtain rfl := (h.waiters w y _ hy hx).2 (h.not_called hA hk)
      rw [if_neg (hno _ hx)]
  simpa using h.loop.call hq hk hc

/-- The consumer of a waiter takes the event. -/
theorem take (h : InLoop s A n c m called C) (hA : Threads.machine.Reaches {} A) (hs : s.Inv)
    {e : ε} {w : Nat} {x : WaitCall ε} (hp : c.point = .consumer w e)
    (hw : s.waiters[w]? = some x) (hawaits : x.awaitsEvent = true) {s' : LockedThreads ε}
    (hs' : s' = {
      shared := { s.shared with
        main := { s.shared.main with queue := s.shared.main.queue.tail } }
      waiters := s.waiters.set w { x.give e with
        awaitsEvent := false, mutex := none, point := x.point.notifyAll }
      users := s.users.set n { c with point := .loop } }) :
    ∃ m' called' C', InLoop s' A n { c with point := .loop } m' called' C' := by
  subst hs'
  have hplace := h.place
  simp only [UserPoint.Place, hp] at hplace
  obtain ⟨⟨rest, hq⟩, hk, hmain⟩ := hplace
  obtain ⟨-, x', hx', -, hwaits⟩ := hs.consumer h.user hp
  cases hw.symm.trans hx'
  obtain ⟨-, hpoint⟩ := hwaits hawaits
  have hphase : x.waiter.phase = .waiting ∧ x.point.waits = true ∧
      x.point.notifyAll.phase = .waiting ∧ x.point.notifyAll.waits = true := by
    rcases hpoint with hp | hp | hp <;>
      simp [WaitCall.waiter, WaitPoint.phase, WaitPoint.waits, WaitPoint.notifyAll, hp]
  obtain ⟨y, hy, -, hsame⟩ := h.waiter hw
  obtain rfl := hsame (h.not_called hA hk)
  have hc : consume c.answers (.returning w) e C =
      .ok true (C.setWaiter w { x.waiter.give e with awaitsEvent := false }) := by
    have hready : x.waiter.alive = true ∧ x.waiter.awaitsEvent = true :=
      ⟨by simp [Waiter.alive, hphase.1], by simp [WaitCall.waiter, hphase.2.1, hawaits]⟩
    unfold consume
    simp only [hy, if_pos hready]
    rfl
  have hlt := (List.getElem?_eq_some_iff.mp hw).1
  refine ⟨_, called ++ [.returning w],
    C.setWaiter w { x.waiter.give e with awaitsEvent := false }, {
    user := List.getElem?_set_self (List.getElem?_eq_some_iff.mp h.user).1
    task := h.task
    place := rfl
    loop := ?_
    put := h.put
    callbacks := h.callbacks
    calls := h.calls
    length := by simpa [Clients.setWaiter] using h.length
    waiters := fun v y' x' hy' hx' => ?_ }⟩
  · simpa [hmain, hq] using h.loop.call hq hk hc
  · by_cases hv : w = v
    · subst hv
      rw [List.getElem?_set_self hlt] at hx'
      have hy₁ : (C.waiters.set w { x.waiter.give e with awaitsEvent := false })[w]? = some _ :=
        List.getElem?_set_self (List.getElem?_eq_some_iff.mp hy).1
      cases hx'
      cases hy₁.symm.trans hy'
      have hafter : { x.waiter.give e with awaitsEvent := false } = WaitCall.waiter
          { x.give e with awaitsEvent := false, mutex := none, point := x.point.notifyAll } := by
        have hphase' : x.point.phase = .waiting := hphase.1
        simp [WaitCall.waiter, WaitCall.give, Waiter.give, hphase.2.2.1, hphase']
      rw [hafter]
      exact ⟨.refl, fun _ => rfl⟩
    · obtain ⟨hadv, hold⟩ := h.waiters v y' x' ((List.getElem?_set_ne hv).symm.trans hy')
        ((List.getElem?_set_ne hv).symm.trans hx')
      exact ⟨hadv, fun hno => hold fun hmem => hno (List.mem_append_left _ hmem)⟩

/-- **The user goes on**: it stays inside the loop, or its section is over. -/
theorem move (h : InLoop s A n c m called C) (hA : Threads.machine.Reaches {} A) (hs : s.Inv)
    {q : Shared ε} {ws : List (WaitCall ε)} {p : UserPoint ε}
    (hm : c.Moves n s.shared s.waiters q ws p) {s' : LockedThreads ε}
    (hs' : s' = { shared := q, waiters := ws, users := s.users.set n { c with point := p } }) :
    (∃ m' called' C', InLoop s' A n { c with point := p } m' called' C') ∨
      p = .returned ∧ Threads.machine.Reaches A s'.threads := by
  have hplace := h.place
  have huser : (s.users.set n { c with point := p })[n]? = some { c with point := p } :=
    List.getElem?_set_self (List.getElem?_eq_some_iff.mp h.user).1
  cases hm with
  | lockQueue hp | registerCallback hp | callCallback hp | enqueue hp =>
    simp [UserPoint.Place, hp] at hplace
  | callback hp hq hk => exact .inl (h.callback hp hq hk hs')
  | take hp hw hawaits => exact .inl (h.take hA hs hp hw hawaits hs')
  | finish hp hend =>
    obtain rfl : s.shared.main = m := by simpa [UserPoint.Place, hp] using hplace
    exact .inr ⟨rfl, h.finish hend (by rw [hs']) (by rw [hs']) (by rw [hs']) (by rw [hs'])
      (by rw [hs'])⟩
  | @returning e rest w hp hq hk =>
    obtain rfl : s.shared.main = m := by simpa [UserPoint.Place, hp] using hplace
    subst hs'
    by_cases hreach : reachable s.waiters w = true
    · -- its mutex comes next
      refine .inl ⟨s.shared.main, called, C, { h with user := huser, place := ?_ }⟩
      rw [if_pos hreach]
      exact ⟨⟨rest, hq⟩, hk, rfl⟩
    · refine .inl ⟨_, called ++ [.returning w], C, { h with
        user := huser
        place := by rw [if_neg hreach]; exact rfl
        loop := h.reject hA hq hk fun x hw halive => ?_
        waiters := fun v y x hy hx => ?_ }⟩
      · have hdead : x.alive = false := by simpa [reachable, hw] using hreach
        cases hpx : x.point <;>
          simp_all [WaitCall.alive, Waiter.alive, WaitCall.waiter, WaitPoint.phase]
      · obtain ⟨hadv, hsame⟩ := h.waiters v y x hy hx
        exact ⟨hadv, fun hno => hsame fun hmem => hno (List.mem_append_left _ hmem)⟩
  | @lockData w e x hp hw hfree =>
    subst hs'
    refine .inl ⟨m, called, C, { h with
      user := huser
      place := by simpa [UserPoint.Place, hp] using hplace
      length := by simp [h.length]
      waiters := fun v y x' hy hx' => ?_ }⟩
    by_cases hv : w = v
    · subst hv
      rw [List.getElem?_set_self (List.getElem?_eq_some_iff.mp hw).1] at hx'
      cases hx'
      exact h.waiters w y x hy hw
    · exact h.waiters v y x' hy ((List.getElem?_set_ne hv).symm.trans hx')
  | @reject w e x hp hw hno =>
    subst hs'
    simp only [UserPoint.Place, hp] at hplace
    obtain ⟨⟨rest, hq⟩, hk, hmain⟩ := hplace
    refine .inl ⟨_, called ++ [.returning w], C, { h with
      user := huser
      place := hmain
      loop := h.reject hA hq hk fun x' hx' halive => ?_
      length := by simp [h.length]
      waiters := fun v y x' hy hx' => ?_ }⟩
    · cases hw.symm.trans hx'
      simp [WaitCall.waiter, hno] at halive
    · by_cases hv : w = v
      · subst hv
        rw [List.getElem?_set_self (List.getElem?_eq_some_iff.mp hw).1] at hx'
        cases hx'
        obtain ⟨hadv, hsame⟩ := h.waiters w y x hy hw
        exact ⟨hadv, fun hout => hsame fun hmem => hout (List.mem_append_left _ hmem)⟩
      · obtain ⟨hadv, hsame⟩ := h.waiters v y x' hy ((List.getElem?_set_ne hv).symm.trans hx')
        exact ⟨hadv, fun hout => hsame fun hmem => hout (List.mem_append_left _ hmem)⟩

theorem holds (h : InLoop s A n c m called C) : s.Holds (.user n) .queue := by
  simp [LockedThreads.Holds, h.user, UserPoint.holdsQueue_of_inLoop h.place.inLoop]

/-- While a section is in progress, no other thread is in one. -/
theorem alone (h : InLoop s A n c m called C) (hs : s.Inv) {t : Caller}
    (ht : s.Holds t .queue) : t = .user n :=
  hs.agree.unique ht h.holds

theorem owner_ne (h : InLoop s A n c m called C) (hs : s.Inv) : s.shared.owner ≠ none := by
  have howner := (hs.agree _ _).mp h.holds
  simp [LockedThreads.owner] at howner
  simp [howner]

end InLoop

/-! ## All runs -/

/-- What a waiter does outside of the sections under `queue_mutex`. -/
theorem WaitCall.Moves.advance {w : Nat} {q q' : Shared ε} {x y : WaitCall ε}
    (h : x.Moves w q q' y) (hx : x.Inv) (hout : x.point.holdsQueue = false) :
    Relation.ReflTransGen Waiter.Advance x.waiter y.waiter := by
  have hsame : y.waiter = x.waiter → Relation.ReflTransGen Waiter.Advance x.waiter y.waiter :=
    fun he => he ▸ .refl
  cases h with
  | front hp | noFront hp | frontAgain hp | register hp =>
    simp [WaitPoint.holdsQueue, hp] at hout
  | stop hp hno =>
    have hadv := Waiter.Advance.wake (x := x.waiter)
      (by simp [WaitCall.waiter, hp, WaitPoint.phase]) (by simp [WaitCall.waiter, hno])
    refine .single ?_
    simpa [WaitCall.waiter, hno, WaitPoint.phase, WaitPoint.waits] using hadv
  | late hp =>
    have hadv := Waiter.Advance.timeout (x := x.waiter)
      (by simp [WaitCall.waiter, hp, WaitPoint.phase]) (hx.late hp)
    refine .single ?_
    simpa [WaitCall.waiter, WaitPoint.phase, WaitPoint.waits] using hadv
  | ret hp =>
    have hadv := Waiter.Advance.ret (x := x.waiter)
      (by simp [WaitCall.waiter, hp, WaitPoint.phase])
    refine .single ?_
    simpa [WaitCall.waiter, hp, WaitPoint.phase, WaitPoint.waits] using hadv
  | lockQueue hp | lockData hp | lockQueueAgain hp | sleep hp | woken hp | leave hp | early hp =>
    exact hsame (by simp [WaitCall.waiter, hp, WaitPoint.phase, WaitPoint.waits])

/-- A sleep that ends without a notification is not seen from outside. -/
theorem WaitCall.waiter_wakes {x : WaitCall ε} (hp : x.point = .asleep) :
    WaitCall.waiter { x with point := .woken } = x.waiter ∧
      WaitCall.waiter { x with point := .late } = x.waiter := by
  simp [WaitCall.waiter, hp, WaitPoint.phase, WaitPoint.waits]

/-- Outside of these sections only the owner of `queue_mutex` changes, and only if it has none. -/
theorem WaitCall.Moves.shared {w : Nat} {q q' : Shared ε} {x y : WaitCall ε}
    (h : x.Moves w q q' y) (hout : x.point.holdsQueue = false) :
    (∃ o, q' = { q with owner := o }) ∧ (q.owner ≠ none → q' = q) := by
  cases h with
  | front hp | noFront hp | frontAgain hp | register hp =>
    simp [WaitPoint.holdsQueue, hp] at hout
  | lockQueue hp hfree | lockQueueAgain hp hfree =>
    exact ⟨⟨_, rfl⟩, fun hne => absurd hfree hne⟩
  | _ => exact ⟨⟨_, rfl⟩, fun _ => rfl⟩

/-! ### The sections of a waiter -/

theorem WaitCall.waiter_take {x : WaitCall ε} (hx : x.point.waits = false) (e : ε)
    {p : WaitPoint ε} (hp : p = .unlocked ∨ p = .early) :
    WaitCall.waiter { x.give e with point := p } =
      { x.waiter.give e with phase := .leaving } := by
  rcases hp with rfl | rfl <;>
    simp only [WaitCall.waiter, WaitCall.give, Waiter.give, hx, Bool.false_and] <;> rfl

theorem WaitCall.waiter_empty {x : WaitCall ε} (hx : x.point.waits = false) :
    WaitCall.waiter { x with point := .lockData, awaitsEvent := true } =
      { x.waiter with phase := .empty } := by
  simp only [WaitCall.waiter, hx, Bool.false_and]
  rfl

theorem WaitCall.waiter_register {x : WaitCall ε} (hawaits : x.awaitsEvent = true) :
    WaitCall.waiter { x with point := .testing } =
      { x.waiter with phase := .waiting, awaitsEvent := true } := by
  simp [WaitCall.waiter, hawaits, WaitPoint.phase, WaitPoint.waits]

namespace LockedThreads

/-- What is left of a state after one waiter and the queue have changed. -/
theorem threads_set (s : LockedThreads ε) (w : Nat) (y : WaitCall ε) (q : Shared ε) :
    threads { s with shared := q, waiters := s.waiters.set w y } =
      { main := q.main
        clients := { waiters := s.threads.clients.waiters.set w y.waiter, callbacks := q.callbacks,
                     calls := q.log }
        put := q.put } := by
  simp [threads, List.map_set]

theorem takeFront_front {s : LockedThreads ε} {A : Threads ε} {w : Nat} {x : Waiter ε} {e : ε}
    {main : MainQueue ε Consumer} (h : s.shared.main.popFront = some (e, main)) :
    s.threads.takeFront w x A =
      { s.threads with main }.setWaiter w { x.give e with phase := .leaving } :=
  Threads.takeFront_some h

/-- A step of a waiter while no section is in progress. -/
theorem threads_waiter {s : LockedThreads ε} {w : Nat} {x y : WaitCall ε} {q : Shared ε}
    (hx : x.Inv) (hw : s.waiters[w]? = some x) (hm : x.Moves w s.shared q y)
    {s' : LockedThreads ε} (hs' : s' = { s with shared := q, waiters := s.waiters.set w y }) :
    Threads.machine.Reaches s.threads s'.threads := by
  subst hs'
  have hwaiter : s.threads.clients.waiters[w]? = some x.waiter := by simp [threads, hw]
  have hstep : ∀ {a : ThreadStep ε} {A : Threads ε}, s.threads.step a = some A →
      Threads.machine.Reaches s.threads A := fun ha =>
    .single (Option.map_eq_some_iff.mpr ⟨_, ha, rfl⟩)
  by_cases hout : x.point.holdsQueue = false
  · obtain ⟨⟨o, rfl⟩, -⟩ := hm.shared hout
    have hadv := Threads.reaches_of_chain (s := s.threads)
      (ListUpdate.chain_set hwaiter (hm.advance hx hout))
    simpa [threads, List.map_set] using hadv
  · cases hm with
    | @front e main hp hpop =>
      refine hstep (a := .tryFront w) ?_
      rw [Threads.step_tryFront hwaiter (by simp [WaitCall.waiter, hp, WaitPoint.phase]),
        takeFront_front hpop, threads_set,
        WaitCall.waiter_take (by simp [hp, WaitPoint.waits]) e (.inl rfl)]
      rfl
    | noFront hp hpop =>
      refine hstep (a := .tryFront w) ?_
      rw [Threads.step_tryFront hwaiter (by simp [WaitCall.waiter, hp, WaitPoint.phase]),
        Threads.takeFront_none hpop, threads_set,
        WaitCall.waiter_empty (by simp [hp, WaitPoint.waits])]
      rfl
    | @frontAgain e main hp hpop =>
      refine hstep (a := .register w) ?_
      rw [Threads.step_register hwaiter (by simp [WaitCall.waiter, hp, WaitPoint.phase]),
        takeFront_front hpop, threads_set,
        WaitCall.waiter_take (by simp [hp, WaitPoint.waits]) e (.inr rfl)]
      rfl
    | register hp hpop =>
      refine hstep (a := .register w) ?_
      rw [Threads.step_register hwaiter (by simp [WaitCall.waiter, hp, WaitPoint.phase]),
        Threads.takeFront_none hpop, threads_set,
        WaitCall.waiter_register (hx.made (.inr (.inr hp)))]
      rfl
    | _ => simp_all [WaitPoint.holdsQueue]

/-- The section of `wait_event(callback)` while no other section is in progress. -/
theorem threads_waitCallback {s : LockedThreads ε} {c : UserCall ε} {q : Shared ε}
    (hq : (s.shared.main.queue = [] ∧ q = { s.shared with
          main := s.shared.main.register (.callback s.shared.callbacks)
          callbacks := s.shared.callbacks + 1, owner := none }) ∨
        ∃ e rest, s.shared.main.queue = e :: rest ∧
          q = { s.shared.callback c.answers s.shared.callbacks e with
            callbacks := s.shared.callbacks + 1, owner := none }) (users : List (UserCall ε)) :
    s.threads.step (.waitCallback c.answers) =
      some (threads { shared := q, waiters := s.waiters, users := users }) := by
  have hmain : s.threads.main = s.shared.main := rfl
  rcases hq with ⟨hnil, rfl⟩ | ⟨e, rest, hcons, rfl⟩
  · simp only [Threads.step, hmain, MainQueue.offer_nil _ _ hnil]
    rfl
  · have hcall : consume c.answers (.callback s.shared.callbacks) e
        { s.threads.clients with callbacks := s.shared.callbacks + 1 } = _ := rfl
    have hconsume := MainQueue.offer_cons hcons hcall
    have hcallbacks : s.threads.clients.callbacks = s.shared.callbacks := rfl
    simp only [Threads.step, hmain, hcallbacks, hconsume]
    cases hanswer : c.answers s.shared.callbacks e <;>
      simp [Threads.after, threads, Shared.callback, hanswer, hcons]

/-- The state `A` of `Threads` stands for `s`: no section is in progress, or one is, on top of
`A`. -/
inductive Sim (s : LockedThreads ε) (A : Threads ε) : Prop where
  | apart : (∀ (n : Nat) (c : UserCall ε), s.users[n]? = some c → c.point.inLoop = false) →
    s.threads = A → Sim s A
  | inLoop {n : Nat} {c : UserCall ε} {m : MainQueue ε Consumer} {called : List Consumer}
    {C : Clients ε} : InLoop s A n c m called C → Sim s A

/-- The users are outside of the loops, the `n`th one at its new point. -/
theorem apart_set {users : List (UserCall ε)} {n : Nat} {d : UserCall ε}
    (hd : d.point.inLoop = false) (hothers : ∀ (m : Nat) (c : UserCall ε), m ≠ n →
      users[m]? = some c → c.point.inLoop = false) (m : Nat) (c : UserCall ε)
    (hm : (users.set n d)[m]? = some c) : c.point.inLoop = false := by
  by_cases hmn : n = m
  · subst hmn
    rw [List.getElem?_set] at hm
    simp only [if_true] at hm
    split at hm <;> cases hm
    exact hd
  · rw [List.getElem?_set_ne hmn] at hm
    exact hothers m c (Ne.symm hmn) hm

/-- A step while no section is in progress. -/
theorem Sim.step_apart {s s' : LockedThreads ε} (hs : s.Inv) {a : LockStep ε}
    (hst : s.step a = some s')
    (hout : ∀ (n : Nat) (c : UserCall ε), s.users[n]? = some c → c.point.inLoop = false) :
    ∃ A', Threads.machine.Reaches s.threads A' ∧ Sim s' A' := by
  cases step_effect hst with
  | @waitEvent timed =>
    refine ⟨_, .single (a := .waitEvent timed) (o := ()) rfl, .apart hout ?_⟩
    simp [threads, WaitCall.waiter, WaitPoint.phase, WaitPoint.waits]
  | call =>
    refine ⟨_, .refl _, .apart (fun n c hn => ?_) rfl⟩
    rcases ListUpdate.getElem?_snoc s.users _ n with hold | ⟨-, hnew⟩
    · exact hout n c (hold.symm.trans hn)
    · cases hnew.symm.trans hn
      rfl
  | waiter hw hm =>
    exact ⟨_, threads_waiter (hs.waiters _ (List.mem_of_getElem? hw)) hw hm rfl, .apart hout rfl⟩
  | spurious hw hp =>
    refine ⟨_, .refl _, .apart hout ?_⟩
    simp only [threads, setWaiter, ListUpdate.map_set_same hw (WaitCall.waiter_wakes hp).1]
  | expire hw hp =>
    refine ⟨_, .refl _, .apart hout ?_⟩
    simp only [threads, setWaiter, ListUpdate.map_set_same hw (WaitCall.waiter_wakes hp).2]
  | @user n c q ws p hn hm =>
    have hc := hout n c hn
    have hothers : ∀ (m : Nat) (d : UserCall ε), m ≠ n → s.users[m]? = some d →
        d.point.inLoop = false := fun m d _ hd => hout m d hd
    cases hm with
    | lockQueue hp => exact ⟨_, .refl _, .apart (apart_set rfl hothers) rfl⟩
    | registerCallback hp htask hq =>
      have hone := threads_waitCallback (c := c) (.inl ⟨hq, rfl⟩)
        (s.users.set n { c with point := .returned })
      exact ⟨_, .single (Option.map_eq_some_iff.mpr ⟨_, hone, rfl⟩),
        .apart (apart_set rfl hothers) rfl⟩
    | callCallback hp htask hq =>
      have hone := threads_waitCallback (c := c) (.inr ⟨_, _, hq, rfl⟩)
        (s.users.set n { c with point := .returned })
      exact ⟨_, .single (Option.map_eq_some_iff.mpr ⟨_, hone, rfl⟩),
        .apart (apart_set rfl hothers) rfl⟩
    | enqueue hp htask =>
      -- the section begins
      refine ⟨s.threads, .refl _, .inLoop (n := n) (m := c.task.enqueue s.shared.main) {
        user := List.getElem?_set_self (List.getElem?_eq_some_iff.mp hn).1
        task := htask
        place := rfl
        loop := .start
        put := rfl
        callbacks := rfl
        calls := rfl
        length := by simp [threads]
        waiters := fun w y x hy hx => ?_ }⟩
      have hsame : y = x.waiter := by
        have hy' : (s.waiters.map (·.waiter))[w]? = some y := hy
        rw [List.getElem?_map, hx] at hy'
        exact (Option.some.inj hy').symm
      exact ⟨hsame ▸ .refl, fun _ => hsame⟩
    | callback hp | returning hp | finish hp | lockData hp | take hp | reject hp =>
      simp [hp, UserPoint.inLoop] at hc

/-- A step while a section is in progress. -/
theorem Sim.step_inLoop {s s' : LockedThreads ε} {A : Threads ε} {n : Nat} {c : UserCall ε}
    {m : MainQueue ε Consumer} {called : List Consumer} {C : Clients ε}
    (h : InLoop s A n c m called C) (hA : Threads.machine.Reaches {} A) (hs : s.Inv)
    {a : LockStep ε} (hst : s.step a = some s') :
    ∃ A', Threads.machine.Reaches A A' ∧ Sim s' A' := by
  have hlt := (List.getElem?_eq_some_iff.mp h.user).1
  cases step_effect hst with
  | @waitEvent timed =>
    obtain ⟨A', C', hA', h'⟩ := h.waitEvent timed
    exact ⟨A', hA', .inLoop h'⟩
  | call =>
    exact ⟨A, .refl A, .inLoop { h with
      user := (List.getElem?_append_left hlt).trans h.user }⟩
  | @waiter w x y q hw hm =>
    have hx := hs.waiters x (List.mem_of_getElem? hw)
    have hout : x.point.holdsQueue = false := by
      by_contra hin
      have := h.alone hs (t := .waiter w) (by simpa [Holds, hw] using hin)
      cases this
    obtain rfl := (hm.shared hout).2 (h.owner_ne hs)
    obtain ⟨A', C', hA', h'⟩ := h.advance hw (hm.advance hx hout) rfl
    exact ⟨A', hA', .inLoop h'⟩
  | spurious hw hp =>
    obtain ⟨A', C', hA', h'⟩ := h.advance hw (by rw [(WaitCall.waiter_wakes hp).1]) rfl
    exact ⟨A', hA', .inLoop h'⟩
  | expire hw hp =>
    obtain ⟨A', C', hA', h'⟩ := h.advance hw (by rw [(WaitCall.waiter_wakes hp).2]) rfl
    exact ⟨A', hA', .inLoop h'⟩
  | @user i d q ws p hi hm =>
    by_cases hin : i = n
    · subst hin
      cases hi.symm.trans h.user
      rcases h.move hA hs hm rfl with ⟨m', called', C', h'⟩ | ⟨rfl, hend⟩
      · exact ⟨A, .refl A, .inLoop h'⟩
      · refine ⟨_, hend, .apart (apart_set rfl fun j e hj he => ?_) rfl⟩
        by_contra hloop
        have := h.alone hs (t := .user j) (by
          simpa [Holds, he] using UserPoint.holdsQueue_of_inLoop (by simpa using hloop))
        cases this
        exact hj rfl
    · -- another user wants the mutex that this one holds, or has returned
      have hout : d.point.holdsQueue = false := by
        by_contra hholds
        have := h.alone hs (t := .user i) (by simpa [Holds, hi] using hholds)
        cases this
        exact hin rfl
      cases hm with
      | lockQueue hp hfree => exact absurd hfree (h.owner_ne hs)
      | registerCallback hp | callCallback hp | enqueue hp | callback hp | returning hp | finish hp
      | lockData hp | take hp | reject hp =>
        simp [UserPoint.holdsQueue, hp] at hout

theorem sim_init : Sim ({} : LockedThreads ε) {} :=
  .apart (by simp) rfl

theorem sim_of_reaches {s : LockedThreads ε} (h : machine.Reaches {} s) :
    ∃ A, Threads.machine.Reaches {} A ∧ Sim s A := by
  refine (h.inv (P := fun s => s.Inv ∧ ∃ A, Threads.machine.Reaches {} A ∧ Sim s A)
    (fun s a o s' hs hst => ?_) ⟨inv_init, {}, .refl _, sim_init⟩).2
  obtain ⟨hinv, A, hA, hsim⟩ := hs
  obtain ⟨t, ht, he⟩ := Option.map_eq_some_iff.mp hst
  cases he
  refine ⟨hinv.step ht, ?_⟩
  cases hsim with
  | apart hout hthreads =>
    subst hthreads
    obtain ⟨A', hA', hsim'⟩ := Sim.step_apart hinv ht hout
    exact ⟨A', hA.trans hA', hsim'⟩
  | inLoop hloop =>
    obtain ⟨A', hA', hsim'⟩ := Sim.step_inLoop hloop hA hinv ht
    exact ⟨A', hA.trans hA', hsim'⟩

/-- Whenever no call is inside the loop of `try_unqueue`, the threads are in a state that they also
reach with whole sections as steps. -/
theorem threads_reached {s : LockedThreads ε} (h : machine.Reaches {} s)
    (hout : ∀ c ∈ s.users, c.point.inLoop = false) : Threads.machine.Reaches {} s.threads := by
  obtain ⟨A, hA, hsim⟩ := sim_of_reaches h
  cases hsim with
  | apart _ hthreads => rwa [hthreads]
  | inLoop hloop =>
    have hin := hout _ (List.mem_of_getElem? hloop.user)
    rw [hloop.place.inLoop] at hin
    cases hin

end LockedThreads

end Slirc
