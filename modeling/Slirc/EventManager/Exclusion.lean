import Slirc.EventManager.Locking
import Slirc.Lib.Locks
import Slirc.Lib.ListUpdate

/-!
# What the mutexes of the main queue protect

`Holds` tells from the points of the calls which mutexes a thread holds. Along all runs these are
the mutexes whose owner it is (`LockedThreads.Inv.agree`), so no two threads are in sections of one
mutex.

A waiter is `Registered` from the section that makes its consumer known. It holds its own mutex
there, and gives it up only together with the begin of its sleep. So a consumer that finds
`awaits_event` set finds a thread in `condvar.wait` (`WaitCall.Inv`, `WaitCall.Registered`): it
stores its event in a frame that is still there and holds none, and its notification is not lost.

Callbacks are taken to return, and not to call the queue themselves (`Slirc.EventManager.Locking`).
-/

namespace Slirc

variable {ε : Type}

/-! ## Who holds what -/

def WaitPoint.holdsQueue : WaitPoint ε → Bool
  | .tryFront | .register => true
  | _ => false

def WaitPoint.holdsData : WaitPoint ε → Bool
  | .lockQueueAgain | .register | .testing | .leaving | .early => true
  | _ => false

def UserPoint.holdsQueue : UserPoint ε → Bool
  | .body | .loop | .lockData _ _ | .consumer _ _ => true
  | .lockQueue | .returned => false

def UserPoint.holdsData (w : Nat) : UserPoint ε → Bool
  | .consumer v _ => v == w
  | _ => false

@[simp] theorem WaitPoint.holdsQueue_notifyAll (p : WaitPoint ε) :
    p.notifyAll.holdsQueue = p.holdsQueue := by
  cases p <;> rfl

@[simp] theorem WaitPoint.holdsData_notifyAll (p : WaitPoint ε) :
    p.notifyAll.holdsData = p.holdsData := by
  cases p <;> rfl

namespace LockedThreads

/-- By its point the thread is in a section of the mutex. -/
def Holds (s : LockedThreads ε) : Caller → Mutex → Prop
  | .waiter w, .queue => s.waiters[w]?.map (·.point.holdsQueue) = some true
  | .waiter w, .data v => w = v ∧ s.waiters[w]?.map (·.point.holdsData) = some true
  | .user n, .queue => s.users[n]?.map (·.point.holdsQueue) = some true
  | .user n, .data w => s.users[n]?.map (·.point.holdsData w) = some true

def owner (s : LockedThreads ε) : Mutex → Option Caller
  | .queue => s.shared.owner
  | .data w => s.waiters[w]?.bind (·.mutex)

end LockedThreads

/-! ### What the moves do with the mutexes -/

/-- Nothing, or the mutex is taken while it is free, or it is given back: with the owners before and
after, and whether the points are in a section. -/
def Takes (t : Caller) (before after : Option Caller) (holds holds' : Bool) : Prop :=
  (after = before ∧ holds' = holds) ∨ (before = none ∧ after = some t ∧ holds' = true) ∨
    (holds = true ∧ after = none ∧ holds' = false)

theorem WaitCall.Moves.queue {w : Nat} {q q' : Shared ε} {x y : WaitCall ε}
    (h : x.Moves w q q' y) :
    Takes (.waiter w) q.owner q'.owner x.point.holdsQueue y.point.holdsQueue := by
  cases h <;> simp [Takes, WaitPoint.holdsQueue, *]

theorem WaitCall.Moves.data {w : Nat} {q q' : Shared ε} {x y : WaitCall ε}
    (h : x.Moves w q q' y) :
    Takes (.waiter w) x.mutex y.mutex x.point.holdsData y.point.holdsData := by
  cases h <;> simp [Takes, WaitPoint.holdsData, WaitCall.give, *]

theorem UserCall.Moves.queue {n : Nat} {q q' : Shared ε} {ws ws' : List (WaitCall ε)}
    {c : UserCall ε} {p : UserPoint ε} (h : c.Moves n q ws q' ws' p) :
    Takes (.user n) q.owner q'.owner c.point.holdsQueue p.holdsQueue := by
  cases h with
  | enqueue hp =>
    exact .inl ⟨rfl, by simp [UserPoint.holdsQueue, hp]⟩
  | returning hp =>
    refine .inl ⟨rfl, ?_⟩
    split <;> simp [UserPoint.holdsQueue, hp]
  | _ => simp [Takes, UserPoint.holdsQueue, Shared.callback, Shared.next, *]

theorem UserCall.Moves.data {n : Nat} {q q' : Shared ε} {ws ws' : List (WaitCall ε)}
    {c : UserCall ε} {p : UserPoint ε} (h : c.Moves n q ws q' ws' p) (v : Nat) :
    Takes (.user n) (ws[v]?.bind (·.mutex)) (ws'[v]?.bind (·.mutex)) (c.point.holdsData v)
      (p.holdsData v) := by
  cases h with
  | @lockData w e x hp hw hfree =>
    have hlt := (List.getElem?_eq_some_iff.mp hw).1
    by_cases hv : w = v
    · subst hv
      exact .inr (.inl ⟨by simp [hw, hfree], by simp [hlt], by simp [UserPoint.holdsData]⟩)
    · simp [Takes, UserPoint.holdsData, hp, List.getElem?_set_ne hv, hv]
  | @take w e x hp hw | @reject w e x hp hw =>
    have hlt := (List.getElem?_eq_some_iff.mp hw).1
    by_cases hv : w = v
    · subst hv
      simp [Takes, UserPoint.holdsData, hp, hlt]
    · simp [Takes, UserPoint.holdsData, hp, List.getElem?_set_ne hv, hv]
  | returning hp =>
    refine .inl ⟨rfl, ?_⟩
    split <;> simp [UserPoint.holdsData, hp]
  | _ => simp [Takes, UserPoint.holdsData, *]

/-- A consumer leaves the waiters in their sections. -/
theorem UserCall.Moves.sections {n : Nat} {q q' : Shared ε} {ws ws' : List (WaitCall ε)}
    {c : UserCall ε} {p : UserPoint ε} (h : c.Moves n q ws q' ws' p) :
    ws'.map (·.point.holdsQueue) = ws.map (·.point.holdsQueue) ∧
      ws'.map (·.point.holdsData) = ws.map (·.point.holdsData) := by
  cases h with
  | lockData hp hw | take hp hw | reject hp hw =>
    constructor <;> exact ListUpdate.map_set_same hw (by simp)
  | _ => exact ⟨rfl, rfl⟩

/-! ### The owners are the holders -/

namespace LockedThreads

/-- What the library calls the use of a lock. -/
theorem uses_of_takes {s s' : LockedThreads ε} {t : Caller} {i : Mutex} {b c : Bool}
    (h : Takes t (s.owner i) (s'.owner i) b c) (hb : s.Holds t i ↔ b = true)
    (hb' : s'.Holds t i ↔ c = true) : Locks.Uses s.Holds s'.Holds s.owner s'.owner t i := by
  rcases h with ⟨howner, hsame⟩ | ⟨hfree, howner, hnew⟩ | ⟨hheld, howner, hgone⟩
  · exact .inl ⟨howner, by rw [hb, hb', hsame]⟩
  · exact .inr (.inl ⟨hfree, howner, hb'.mpr hnew⟩)
  · exact .inr (.inr ⟨hb.mpr hheld, howner, by simp [hb', hgone]⟩)

theorem agree_waiter {s : LockedThreads ε} (h : Locks.Agree s.Holds s.owner) {w : Nat}
    {x y : WaitCall ε} {q : Shared ε} (hw : s.waiters[w]? = some x)
    (hm : x.Moves w s.shared q y) {s' : LockedThreads ε}
    (hs' : s' = { s with shared := q, waiters := s.waiters.set w y }) :
    Locks.Agree s'.Holds s'.owner := by
  subst hs'
  have hlt := (List.getElem?_eq_some_iff.mp hw).1
  refine h.step (t := .waiter w) (fun u hu i => ?_) fun i => ?_
  · cases u with
    | waiter v =>
      have hne : w ≠ v := fun he => hu (congrArg _ he.symm)
      cases i <;> simp [Holds, List.getElem?_set_ne hne]
    | user n => cases i <;> rfl
  · cases i with
    | queue => exact uses_of_takes hm.queue (by simp [Holds, hw]) (by simp [Holds, hlt])
    | data v =>
      by_cases hv : w = v
      · subst hv
        refine uses_of_takes (b := x.point.holdsData) (c := y.point.holdsData) ?_
          (by simp [Holds, hw]) (by simp [Holds, hlt])
        have hafter : (s.waiters.set w y)[w]? = some y := List.getElem?_set_self hlt
        simpa only [owner, hw, hafter, Option.bind_some] using hm.data
      · exact .inl ⟨by simp [owner, List.getElem?_set_ne hv], by simp [Holds, hv]⟩

theorem agree_user {s : LockedThreads ε} (h : Locks.Agree s.Holds s.owner) {n : Nat}
    {c : UserCall ε} {q : Shared ε} {ws : List (WaitCall ε)} {p : UserPoint ε}
    (hn : s.users[n]? = some c) (hm : c.Moves n s.shared s.waiters q ws p) {s' : LockedThreads ε}
    (hs' : s' = { shared := q, waiters := ws, users := s.users.set n { c with point := p } }) :
    Locks.Agree s'.Holds s'.owner := by
  subst hs'
  have hlt := (List.getElem?_eq_some_iff.mp hn).1
  obtain ⟨hqueue, hdata⟩ := hm.sections
  refine h.step (t := .user n) (fun u hu i => ?_) fun i => ?_
  · cases u with
    | waiter v =>
      cases i <;> simp only [Holds, ← List.getElem?_map, hqueue, hdata]
    | user m =>
      have hne : n ≠ m := fun he => hu (congrArg _ he.symm)
      cases i <;> simp [Holds, List.getElem?_set_ne hne]
  · cases i with
    | queue => exact uses_of_takes hm.queue (by simp [Holds, hn]) (by simp [Holds, hlt])
    | data v => exact uses_of_takes (hm.data v) (by simp [Holds, hn]) (by simp [Holds, hlt])

end LockedThreads

/-! ## What is true of the waiters -/

/-- Before the second section is over. -/
def WaitPoint.fresh : WaitPoint ε → Bool
  | .lockQueue | .tryFront | .lockData | .lockQueueAgain | .register => true
  | _ => false

/-- In `condvar.wait`. -/
def WaitPoint.waits : WaitPoint ε → Bool
  | .testing | .asleep | .woken | .late => true
  | _ => false

structure WaitCall.Inv (x : WaitCall ε) : Prop where
  fresh : x.point.fresh = true → x.event = none
  waits : x.point.waits = true → x.awaitsEvent = true → x.event = none
  asleep : x.point = .asleep → x.awaitsEvent = true
  late : x.point = .late → x.timed = true
  /-- The data is made with the flag set. -/
  made : x.point = .lockData ∨ x.point = .lockQueueAgain ∨ x.point = .register →
    x.awaitsEvent = true

/-- The second section has made the consumer known. Then the call awaits an event only in
`condvar.wait`, and behind it until a timed wait clears the flag. -/
def WaitCall.Registered (x : WaitCall ε) : Prop :=
  match x.point with
  | .testing | .asleep | .woken | .late => True
  | .leaving => x.timed = true ∨ x.awaitsEvent = false
  | .unlocked | .returned _ => x.awaitsEvent = false
  | _ => False

theorem WaitCall.Moves.inv {w : Nat} {q q' : Shared ε} {x y : WaitCall ε}
    (h : x.Moves w q q' y) (hx : x.Inv) : y.Inv := by
  obtain ⟨hfresh, hwaits, hasleep, hlate, hmade⟩ := hx
  cases h <;> constructor <;>
    simp_all [WaitPoint.fresh, WaitPoint.waits, WaitCall.give]

theorem WaitCall.Moves.registered {w : Nat} {q q' : Shared ε} {x y : WaitCall ε}
    (h : x.Moves w q q' y) (hx : x.Inv) (hreg : x.Registered) : y.Registered := by
  have hlate := hx.late
  cases h with
  | leave hp =>
    cases ht : x.timed <;> simp_all [WaitCall.Registered]
  | _ => simp_all [WaitCall.Registered]

/-- The section that registers the consumer. -/
theorem WaitCall.Moves.consumers {w v : Nat} {q q' : Shared ε} {x y : WaitCall ε}
    (h : x.Moves w q q' y) (hv : .returning v ∈ q'.main.queueConsumers) :
    .returning v ∈ q.main.queueConsumers ∨ v = w ∧ y.Registered := by
  cases h with
  | front hp hpop | frontAgain hp hpop =>
    obtain ⟨-, hmain⟩ := MainQueue.popFront_eq_some hpop
    rw [hmain] at hv
    exact .inl hv
  | register =>
    rcases List.mem_append.mp hv with hv | hv
    · exact .inl hv
    · have heq : v = w := by simpa using hv
      exact .inr ⟨heq, trivial⟩
  | _ => exact .inl hv

/-- Only a thread in a section changes the deque. -/
theorem WaitCall.Moves.main {w : Nat} {q q' : Shared ε} {x y : WaitCall ε}
    (h : x.Moves w q q' y) :
    q'.main.queue = q.main.queue ∨ x.point.holdsQueue = true := by
  cases h <;> simp [WaitPoint.holdsQueue, MainQueue.register, *]

theorem UserCall.Moves.main {n : Nat} {q q' : Shared ε} {ws ws' : List (WaitCall ε)}
    {c : UserCall ε} {p : UserPoint ε} (h : c.Moves n q ws q' ws' p) :
    q'.main.queue = q.main.queue ∨ c.point.holdsQueue = true := by
  cases h <;> simp [UserPoint.holdsQueue, *]

theorem UserCall.Moves.consumers {n v : Nat} {q q' : Shared ε} {ws ws' : List (WaitCall ε)}
    {c : UserCall ε} {p : UserPoint ε} (h : c.Moves n q ws q' ws' p)
    (hv : .returning v ∈ q'.main.queueConsumers) : .returning v ∈ q.main.queueConsumers := by
  cases h with
  | registerCallback =>
    simpa [MainQueue.register] using hv
  | enqueue =>
    cases hc : c.task <;> simpa [Shared.enqueue, Task.enqueue, hc] using hv
  | callCallback | callback =>
    unfold Shared.callback at hv
    dsimp only at hv
    split at hv <;> exact hv
  | finish =>
    simp only [MainQueue.dropCalled] at hv
    split at hv
    · cases hv
    · exact hv
  | _ => exact hv

/-- The consumer of a waiter that is being called, and the event it is called with. -/
def UserPoint.calls : UserPoint ε → Option (Nat × ε)
  | .lockData w e | .consumer w e => some (w, e)
  | _ => none

theorem UserPoint.holdsQueue_of_calls {p : UserPoint ε} {r : Nat × ε} (h : p.calls = some r) :
    p.holdsQueue = true := by
  cases p <;> first | rfl | cases h

/-- A consumer takes an event. -/
theorem WaitCall.Registered.take {x : WaitCall ε} (h : x.Registered) (e : ε)
    {y : WaitCall ε}
    (hy : y = { x.give e with
      awaitsEvent := false, mutex := none, point := x.point.notifyAll })
    (hx : x.Inv) : y.Inv ∧ y.Registered := by
  subst hy
  have hlate := hx.late
  cases hp : x.point <;> simp only [WaitCall.Registered, hp] at h
  all_goals
    refine ⟨⟨?_, ?_, ?_, ?_, ?_⟩, ?_⟩ <;>
      simp_all [WaitCall.Registered, WaitCall.give, WaitPoint.notifyAll, WaitPoint.fresh]

/-- A waiter whose mutex changes hands. -/
theorem WaitCall.Inv.mutex {x : WaitCall ε} (hx : x.Inv) (t : Option Caller) :
    ({ x with mutex := t } : WaitCall ε).Inv :=
  ⟨hx.fresh, hx.waits, hx.asleep, hx.late, hx.made⟩

namespace LockedThreads

def Registered (s : LockedThreads ε) (w : Nat) : Prop :=
  ∃ x : WaitCall ε, s.waiters[w]? = some x ∧ x.Registered

structure Inv (s : LockedThreads ε) : Prop where
  agree : Locks.Agree s.Holds s.owner
  waiters : ∀ x ∈ s.waiters, x.Inv
  registered : ∀ w, .returning w ∈ s.shared.main.queueConsumers → s.Registered w
  called : ∀ (n : Nat) (c : UserCall ε) (w : Nat) (e : ε), s.users[n]? = some c →
    c.point.calls = some (w, e) →
    s.Registered w ∧ s.shared.main.queue.head? = some e

/-- A registered waiter stays one. -/
theorem Registered.set {s s' : LockedThreads ε} {v w : Nat} {x y : WaitCall ε}
    (h : s.Registered v) (hw : s.waiters[w]? = some x) (hs' : s'.waiters = s.waiters.set w y)
    (hy : x.Registered → y.Registered) : s'.Registered v := by
  have hlt := (List.getElem?_eq_some_iff.mp hw).1
  obtain ⟨x', hx', hreg⟩ := h
  by_cases hv : w = v
  · subst hv
    cases hw.symm.trans hx'
    exact ⟨y, by rw [hs', List.getElem?_set_self hlt], hy hreg⟩
  · exact ⟨x', by rwa [hs', List.getElem?_set_ne hv], hreg⟩

theorem inv_init : Inv ({} : LockedThreads ε) where
  agree t i := by cases t <;> cases i <;> simp [Holds, owner]
  waiters := by simp
  registered := by simp
  called := by simp

/-- While a consumer is called, no other thread changes the deque. -/
theorem Inv.calls_alone {s : LockedThreads ε} (h : s.Inv) {n : Nat} {c : UserCall ε}
    {r : Nat × ε} (hn : s.users[n]? = some c) (hc : c.point.calls = some r) {t : Caller}
    (ht : s.Holds t .queue) : t = .user n := by
  refine h.agree.unique ht ?_
  simp [Holds, hn, UserPoint.holdsQueue_of_calls hc]

theorem Inv.waiter {s : LockedThreads ε} (h : s.Inv) {w : Nat} {x y : WaitCall ε}
    {q : Shared ε} (hw : s.waiters[w]? = some x) (hm : x.Moves w s.shared q y) :
    Inv { s with shared := q, waiters := s.waiters.set w y } := by
  have hlt := (List.getElem?_eq_some_iff.mp hw).1
  have hx := h.waiters x (List.mem_of_getElem? hw)
  have hkeep : ∀ v, s.Registered v →
      Registered { s with shared := q, waiters := s.waiters.set w y } v := fun v hv =>
    hv.set hw rfl (hm.registered hx)
  refine ⟨agree_waiter h.agree hw hm rfl, ListUpdate.forall_mem_set h.waiters (hm.inv hx), ?_, ?_⟩
  · intro v hv
    rcases hm.consumers hv with hv | ⟨rfl, hy⟩
    · exact hkeep v (h.registered v hv)
    · exact ⟨y, List.getElem?_set_self hlt, hy⟩
  · intro n c v e hn hc
    obtain ⟨hreg, hhead⟩ := h.called n c v e hn hc
    refine ⟨hkeep v hreg, ?_⟩
    rcases hm.main with hq | hholds
    · rw [hq, hhead]
    · have := h.calls_alone hn hc (t := .waiter w) (by simp [Holds, hw, hholds])
      cases this

/-- What a user's move leaves of the waiters. -/
theorem Inv.user_waiters {s : LockedThreads ε} (h : s.Inv) {n : Nat} {c : UserCall ε}
    {q : Shared ε} {ws : List (WaitCall ε)} {p : UserPoint ε} (hn : s.users[n]? = some c)
    (hm : c.Moves n s.shared s.waiters q ws p) :
    (∀ x ∈ ws, x.Inv) ∧
      ∀ s' : LockedThreads ε, s'.waiters = ws → ∀ v, s.Registered v → s'.Registered v := by
  cases hm with
  | lockData hp hw | reject hp hw =>
    refine ⟨ListUpdate.forall_mem_set h.waiters ?_, fun s' hs' v hv => hv.set hw hs' id⟩
    exact (h.waiters _ (List.mem_of_getElem? hw)).mutex _
  | @take w e x hp hw hawaits =>
    obtain ⟨⟨x', hx', hreg⟩, -⟩ := h.called n c w e hn (by simp [UserPoint.calls, hp])
    cases hw.symm.trans hx'
    obtain ⟨hinv, hyreg⟩ := hreg.take e rfl (h.waiters x (List.mem_of_getElem? hw))
    refine ⟨ListUpdate.forall_mem_set h.waiters hinv, fun s' hs' v hv => ?_⟩
    exact hv.set hw hs' fun _ => hyreg
  | _ =>
    refine ⟨h.waiters, fun s' hs' v hv => ?_⟩
    obtain ⟨x, hx, hreg⟩ := hv
    exact ⟨x, by rwa [hs'], hreg⟩

theorem Inv.user {s : LockedThreads ε} (h : s.Inv) {n : Nat} {c : UserCall ε} {q : Shared ε}
    {ws : List (WaitCall ε)} {p : UserPoint ε} (hn : s.users[n]? = some c)
    (hm : c.Moves n s.shared s.waiters q ws p) :
    Inv { shared := q, waiters := ws, users := s.users.set n { c with point := p } } := by
  have hlt := (List.getElem?_eq_some_iff.mp hn).1
  obtain ⟨hinv, hkeep⟩ := h.user_waiters hn hm
  refine ⟨agree_user h.agree hn hm rfl, hinv,
    fun v hv => hkeep _ rfl v (h.registered v (hm.consumers hv)), fun m d v e hd hcalls => ?_⟩
  by_cases hmn : n = m
  · subst hmn
    rw [List.getElem?_set_self hlt] at hd
    cases hd
    -- a consumer is about to be called, or its mutex was taken
    cases hm with
    | returning hp hq hk =>
      dsimp only at hcalls
      split at hcalls
      · cases hcalls
        exact ⟨hkeep _ rfl v (h.registered v (List.mem_of_getElem? hk)), by simp [Shared.next, hq]⟩
      · cases hcalls
    | lockData hp hw =>
      cases hcalls
      obtain ⟨hreg, hhead⟩ := h.called n c v e hn (by simp [UserPoint.calls, hp])
      exact ⟨hkeep _ rfl v hreg, hhead⟩
    | _ => cases hcalls
  · rw [List.getElem?_set_ne hmn] at hd
    obtain ⟨hreg, hhead⟩ := h.called m d v e hd hcalls
    refine ⟨hkeep _ rfl v hreg, ?_⟩
    rcases hm.main with hq | hholds
    · rw [hq, hhead]
    · have := h.calls_alone hd hcalls (t := .user n) (by simp [Holds, hn, hholds])
      cases this
      exact absurd rfl hmn

/-- A waiter leaves its sleep. -/
theorem Inv.leaveSleep {s : LockedThreads ε} (h : s.Inv) {w : Nat} {x y : WaitCall ε}
    (hw : s.waiters[w]? = some x) (hp : x.point = .asleep)
    (hy : y = { x with point := .woken } ∨ y = { x with point := .late } ∧ x.timed = true) :
    Inv (s.setWaiter w y) := by
  have hx := h.waiters x (List.mem_of_getElem? hw)
  have hawaits := hx.asleep hp
  have hnone := hx.waits (by simp [WaitPoint.waits, hp]) hawaits
  have hinv : y.Inv := by
    rcases hy with rfl | ⟨rfl, htimed⟩ <;> constructor <;> simp_all [WaitPoint.fresh]
  have hreg : y.Registered := by
    rcases hy with rfl | ⟨rfl, -⟩ <;> trivial
  have hsame : y.point.holdsQueue = x.point.holdsQueue ∧ y.point.holdsData = x.point.holdsData ∧
      y.mutex = x.mutex := by
    rcases hy with rfl | ⟨rfl, -⟩ <;> simp [WaitPoint.holdsQueue, WaitPoint.holdsData, hp]
  have hkeep : ∀ v, s.Registered v → (s.setWaiter w y).Registered v := fun v hv =>
    hv.set hw rfl fun _ => hreg
  refine ⟨?_, ListUpdate.forall_mem_set h.waiters hinv, fun v hv => hkeep v (h.registered v hv),
    fun n c v e hn hc => ?_⟩
  · have hqueue : (s.waiters.set w y).map (·.point.holdsQueue) =
        s.waiters.map (·.point.holdsQueue) := ListUpdate.map_set_same hw hsame.1
    have hdata : (s.waiters.set w y).map (·.point.holdsData) =
        s.waiters.map (·.point.holdsData) := ListUpdate.map_set_same hw hsame.2.1
    have hlt := (List.getElem?_eq_some_iff.mp hw).1
    refine h.agree.congr (fun t i => ?_) fun i => ?_
    · cases t <;> cases i <;> simp only [Holds, setWaiter, ← List.getElem?_map, hqueue, hdata]
    · cases i with
      | queue => rfl
      | data v =>
        by_cases hv : w = v
        · subst hv
          have hafter : (s.waiters.set w y)[w]? = some y := List.getElem?_set_self hlt
          simp only [owner, setWaiter, hafter, hw, Option.bind_some, hsame.2.2]
        · simp only [owner, setWaiter, List.getElem?_set_ne hv]
  · obtain ⟨hv, hhead⟩ := h.called n c v e hn hc
    exact ⟨hkeep v hv, hhead⟩

theorem Inv.waitEvent {s : LockedThreads ε} (h : s.Inv) (timed : Bool) :
    Inv { s with waiters := s.waiters ++ [{ timed }] } := by
  have hkeep : ∀ v, s.Registered v →
      Registered { s with waiters := s.waiters ++ [{ timed }] } v := by
    rintro v ⟨x, hx, hreg⟩
    exact ⟨x, (List.getElem?_append_left (List.getElem?_eq_some_iff.mp hx).1).trans hx, hreg⟩
  refine ⟨h.agree.congr (fun t i => ?_) fun i => ?_, fun x hx => ?_,
    fun v hv => hkeep v (h.registered v hv), fun n c v e hn hc => ?_⟩
  · cases t with
    | user n => cases i <;> rfl
    | waiter w =>
      rcases ListUpdate.getElem?_snoc s.waiters { timed } w with hw | ⟨hold, hw⟩
      · cases i <;> simp only [Holds, hw]
      · cases i <;> simp [Holds, hw, hold, WaitPoint.holdsQueue, WaitPoint.holdsData]
  · cases i with
    | queue => rfl
    | data v =>
      rcases ListUpdate.getElem?_snoc s.waiters { timed } v with hv | ⟨hold, hv⟩
      · simp only [owner, hv]
      · simp [owner, hv, hold]
  · rcases List.mem_append.mp hx with hx | hx
    · exact h.waiters x hx
    · obtain rfl : x = { timed } := by simpa using hx
      exact ⟨fun _ => rfl, by simp, by simp, by simp, by simp⟩
  · obtain ⟨hv, hhead⟩ := h.called n c v e hn hc
    exact ⟨hkeep v hv, hhead⟩

theorem Inv.call {s : LockedThreads ε} (h : s.Inv) (task : Task ε) (answers : Nat → ε → Bool) :
    Inv { s with users := s.users ++ [{ task, answers }] } := by
  refine ⟨h.agree.congr (fun t i => ?_) fun i => by cases i <;> rfl, h.waiters, h.registered,
    fun n c v e hn hc => ?_⟩
  · cases t with
    | waiter w => cases i <;> rfl
    | user n =>
      rcases ListUpdate.getElem?_snoc s.users { task, answers } n with hn | ⟨hold, hn⟩
      · cases i <;> simp only [Holds, hn]
      · cases i <;> simp [Holds, hn, hold, UserPoint.holdsQueue, UserPoint.holdsData]
  · rcases ListUpdate.getElem?_snoc s.users { task, answers } n with hold | ⟨-, hnew⟩
    · exact h.called n c v e (hold.symm.trans hn) hc
    · cases hnew.symm.trans hn
      cases hc

/-- **Every step keeps the invariant.** -/
theorem Inv.step {s s' : LockedThreads ε} (h : s.Inv) {a : LockStep ε}
    (hst : s.step a = some s') : s'.Inv := by
  cases step_effect hst with
  | waitEvent => exact h.waitEvent _
  | call => exact h.call _ _
  | waiter hw hm => exact h.waiter hw hm
  | user hn hm => exact h.user hn hm
  | spurious hw hp => exact h.leaveSleep hw hp (.inl rfl)
  | expire hw hp htimed => exact h.leaveSleep hw hp (.inr ⟨rfl, htimed⟩)

theorem Inv.reaches {s s' : LockedThreads ε} (hs : s.Inv) (h : machine.Reaches s s') :
    s'.Inv := by
  refine h.inv (fun s a o s' hs hst => ?_) hs
  obtain ⟨t, ht, he⟩ := Option.map_eq_some_iff.mp hst
  cases he
  exact hs.step ht

theorem inv_of_reaches {s : LockedThreads ε} (h : machine.Reaches {} s) : s.Inv :=
  inv_init.reaches h

/-- The consumer of a waiter is called, with the mutex of the waiter. -/
theorem Inv.consumer {s : LockedThreads ε} (hs : s.Inv) {n w : Nat} {c : UserCall ε} {e : ε}
    (hn : s.users[n]? = some c) (hc : c.point = .consumer w e) :
    s.shared.main.queue.head? = some e ∧ ∃ x : WaitCall ε, s.waiters[w]? = some x ∧
      x.mutex = some (.user n) ∧ (x.awaitsEvent = true → x.event = none ∧
        (x.point = .asleep ∨ x.point = .woken ∨ x.point = .late)) := by
  obtain ⟨⟨x, hw, hreg⟩, hhead⟩ := hs.called n c w e hn (by simp [UserPoint.calls, hc])
  have hholds : s.Holds (.user n) (.data w) := by simp [Holds, hn, UserPoint.holdsData, hc]
  have howner := (hs.agree _ _).mp hholds
  refine ⟨hhead, x, hw, by simpa [owner, hw] using howner, fun hawaits => ?_⟩
  -- the waiter itself is outside of its sections
  have hout : x.point.holdsData = false := by
    by_contra hin
    have := hs.agree.unique (t := .waiter w) (u := .user n) (i := .data w)
      (by simpa [Holds, hw] using hin) hholds
    cases this
  have hx := hs.waiters x (List.mem_of_getElem? hw)
  have hwaits : x.point = .asleep ∨ x.point = .woken ∨ x.point = .late := by
    cases hp : x.point <;> simp_all [WaitCall.Registered, WaitPoint.holdsData]
  refine ⟨hx.waits ?_ hawaits, hwaits⟩
  rcases hwaits with hp | hp | hp <;> simp [WaitPoint.waits, hp]

/-- **What the mutexes of the main queue protect.** In every state of every run: no two threads are
in sections of one mutex. A thread that sleeps awaits an event and has none, so a notification is
never lost. A consumer that was called holds the mutex of its waiter and was given the front of the
deque; if the waiter awaits an event, its thread is in `condvar.wait` and holds none, so that the
store goes to a frame that is still there. -/
theorem sections_exclude {s : LockedThreads ε} (h : machine.Reaches {} s) :
    (∀ t u i, s.Holds t i → s.Holds u i → t = u) ∧
    (∀ x ∈ s.waiters, x.point = .asleep → x.awaitsEvent = true ∧ x.event = none) ∧
    ∀ (n : Nat) (c : UserCall ε) (w : Nat) (e : ε), s.users[n]? = some c →
      c.point = .consumer w e → s.shared.main.queue.head? = some e ∧
      ∃ x : WaitCall ε, s.waiters[w]? = some x ∧ x.mutex = some (.user n) ∧
        (x.awaitsEvent = true → x.event = none ∧
          (x.point = .asleep ∨ x.point = .woken ∨ x.point = .late)) := by
  have hs := inv_of_reaches h
  refine ⟨fun t u i ht hu => hs.agree.unique ht hu, fun x hx hp => ?_, fun n c w e hn hc => ?_⟩
  · have hawaits := (hs.waiters x hx).asleep hp
    exact ⟨hawaits, (hs.waiters x hx).waits (by simp [WaitPoint.waits, hp]) hawaits⟩
  · exact hs.consumer hn hc

/-- A waiter sleeps, and its consumer has been called with a new event. -/
def delivering : LockedThreads Nat where
  shared :=
    { main := { queue := [7], queueConsumers := [.returning 0], queueConsumerIndex := 1 }
      owner := some (.user 0), put := [7] }
  waiters :=
    [{ timed := false, point := .asleep, mutex := some (.user 0), awaitsEvent := true }]
  users := [{ task := .queue 7, answers := fun _ _ => false, point := .consumer 0 7 }]

theorem delivering_reached : machine.Reaches {} delivering :=
  ⟨.waitEvent false :: List.replicate 6 (.run (.waiter 0)) ++
    .call (.queue 7) (fun _ _ => false) :: List.replicate 4 (.run (.user 0)),
    List.replicate 12 (), rfl⟩

theorem sections_exclude_delivering : ∃ x : WaitCall Nat,
    delivering.waiters[0]? = some x ∧ x.mutex = some (.user 0) ∧ (x.awaitsEvent = true →
      x.event = none ∧ (x.point = .asleep ∨ x.point = .woken ∨ x.point = .late)) :=
  ((sections_exclude delivering_reached).2.2 0 _ 0 7 rfl rfl).2

end LockedThreads

end Slirc
