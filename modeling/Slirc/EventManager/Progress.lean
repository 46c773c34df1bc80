import Mathlib.Data.Fintype.EquivFin
import Slirc.EventManager.Atomic

/-!
# The main queue never locks up

It does not for callbacks that return and do not call `queue`, `handle` or `wait_event` themselves,
as `Slirc.EventManager.Locking` takes them to be: one that does waits for `queue_mutex`, which its
own thread has.

The mutexes are taken in two orders: a waiter locks `queue_mutex` while it holds its own mutex, and
`try_unqueue` calls consumers, which lock the mutexes of waiters, under `queue_mutex`. This is no
deadlock, since a waiter does the former only until its consumer is known: the rank of its mutex
depends on where it is (`rank`).

* `no_deadlock`: no thread waits for itself, and every call that is not asleep or over waits for one
  that can go on.
* `budget`: every step of a call lowers it, apart from a wake-up without reason.
* `calls_end`: so the calls that have begun end, under every schedule, but for waiters without a
  timeout that sleep; and while one sleeps, the deque is empty.
-/

namespace Slirc

variable {ε : Type}

/-! ## Who waits for whom -/

def WaitPoint.wantsQueue : WaitPoint ε → Bool
  | .lockQueue | .lockQueueAgain => true
  | _ => false

def WaitPoint.wantsData : WaitPoint ε → Bool
  | .lockData | .woken | .late => true
  | _ => false

def UserPoint.wantsQueue : UserPoint ε → Bool
  | .lockQueue => true
  | _ => false

def UserPoint.wantsData (w : Nat) : UserPoint ε → Bool
  | .lockData v _ => v == w
  | _ => false

/-- Neither asleep nor over. -/
def WaitPoint.active : WaitPoint ε → Bool
  | .asleep | .returned _ => false
  | _ => true

def UserPoint.active : UserPoint ε → Bool
  | .returned => false
  | _ => true

theorem WaitPoint.eq_of_not_active {p : WaitPoint ε} (h : p.active = false) :
    p = .asleep ∨ ∃ r, p = .returned r := by
  cases p with
  | asleep => exact .inl rfl
  | returned r => exact .inr ⟨r, rfl⟩
  | _ => cases h

/-- A waiter whose mutexes are free goes on. -/
theorem WaitCall.run_isSome {w : Nat} {q : Shared ε} {x : WaitCall ε}
    (hp : x.point.active = true) (hqueue : x.point.wantsQueue = true → q.owner = none)
    (hdata : x.point.wantsData = true → x.mutex = none) : (x.run w q).isSome = true := by
  cases hx : x.point with
  | asleep | returned r =>
    rw [hx] at hp
    cases hp
  | tryFront | register | testing =>
    simp only [run, hx]
    split <;> rfl
  | lockQueue | lockQueueAgain =>
    have hfree := hqueue (by rw [hx]; rfl)
    simp [run, hx, Shared.lock, hfree]
  | lockData | woken | late =>
    have hfree := hdata (by rw [hx]; rfl)
    simp [run, hx, WaitCall.lock, hfree]
  | leaving | early | unlocked => simp only [run, hx, Option.isSome_some]

theorem UserCall.run_isSome {n : Nat} {q : Shared ε} {ws : List (WaitCall ε)} {c : UserCall ε}
    (hp : c.point.active = true) (hqueue : c.point = .lockQueue → q.owner = none)
    (hwaiter : ∀ r, c.point.calls = some r → ∃ x : WaitCall ε, ws[r.1]? = some x)
    (hdata : ∀ w e x, c.point = .lockData w e → ws[w]? = some x → x.mutex = none) :
    (c.run n q ws).isSome = true := by
  cases hc : c.point with
  | returned =>
    rw [hc] at hp
    cases hp
  | body | loop =>
    simp only [run, hc]
    split <;> rfl
  | lockQueue => simp [run, hc, Shared.lock, hqueue hc]
  | lockData w e =>
    obtain ⟨x, hw⟩ := hwaiter (w, e) (by rw [hc]; rfl)
    simp [run, hc, hw, WaitCall.lock, hdata w e x hc hw]
  | consumer w e =>
    obtain ⟨x, hw⟩ := hwaiter (w, e) (by rw [hc]; rfl)
    simp [run, hc, hw]

namespace LockedThreads

/-- The thread has come to a lock of the mutex. -/
def Wants (s : LockedThreads ε) : Caller → Mutex → Prop
  | .waiter w, .queue => s.waiters[w]?.map (·.point.wantsQueue) = some true
  | .waiter w, .data v => w = v ∧ s.waiters[w]?.map (·.point.wantsData) = some true
  | .user n, .queue => s.users[n]?.map (·.point.wantsQueue) = some true
  | .user n, .data w => s.users[n]?.map (·.point.wantsData w) = some true

def Active (s : LockedThreads ε) : Caller → Prop
  | .waiter w => s.waiters[w]?.map (·.point.active) = some true
  | .user n => s.users[n]?.map (·.point.active) = some true

/-- The order of the mutexes: the one of a waiter comes before `queue_mutex` until its consumer is
known, and behind it from then on. -/
def rank (s : LockedThreads ε) : Mutex → Fin 3
  | .queue => 1
  | .data w => if s.waiters[w]?.map (·.point.fresh) = some true then 0 else 2

theorem holds_waiter {s : LockedThreads ε} {w : Nat} {i : Mutex} (h : s.Holds (.waiter w) i) :
    ∃ x : WaitCall ε, s.waiters[w]? = some x ∧
      (i = .queue ∧ x.point.holdsQueue = true ∨ i = .data w ∧ x.point.holdsData = true) := by
  cases i with
  | queue =>
    obtain ⟨x, hx, hp⟩ := Option.map_eq_some_iff.mp h
    exact ⟨x, hx, .inl ⟨rfl, hp⟩⟩
  | data v =>
    obtain ⟨rfl, h⟩ := h
    obtain ⟨x, hx, hp⟩ := Option.map_eq_some_iff.mp h
    exact ⟨x, hx, .inr ⟨rfl, hp⟩⟩

theorem holds_user {s : LockedThreads ε} {n : Nat} {i : Mutex} (h : s.Holds (.user n) i) :
    ∃ c : UserCall ε, s.users[n]? = some c ∧
      (i = .queue ∧ c.point.holdsQueue = true ∨ ∃ w, i = .data w ∧ c.point.holdsData w = true) := by
  cases i with
  | queue =>
    obtain ⟨c, hc, hp⟩ := Option.map_eq_some_iff.mp h
    exact ⟨c, hc, .inl ⟨rfl, hp⟩⟩
  | data v =>
    obtain ⟨c, hc, hp⟩ := Option.map_eq_some_iff.mp h
    exact ⟨c, hc, .inr ⟨v, rfl, hp⟩⟩

theorem wants_waiter {s : LockedThreads ε} {w : Nat} {i : Mutex} (h : s.Wants (.waiter w) i)
    {x : WaitCall ε} (hw : s.waiters[w]? = some x) :
    i = .queue ∧ x.point.wantsQueue = true ∨ i = .data w ∧ x.point.wantsData = true := by
  cases i with
  | queue => exact .inl ⟨rfl, by simpa [Wants, hw] using h⟩
  | data v =>
    obtain ⟨rfl, h⟩ := h
    exact .inr ⟨rfl, by simpa [hw] using h⟩

theorem wants_user {s : LockedThreads ε} {n : Nat} {i : Mutex} (h : s.Wants (.user n) i)
    {c : UserCall ε} (hn : s.users[n]? = some c) :
    i = .queue ∧ c.point = .lockQueue ∨ ∃ w e, i = .data w ∧ c.point = .lockData w e := by
  cases i with
  | queue =>
    have hp : c.point.wantsQueue = true := by simpa [Wants, hn] using h
    cases hc : c.point <;> simp_all [UserPoint.wantsQueue]
  | data v =>
    have hp : c.point.wantsData v = true := by simpa [Wants, hn] using h
    cases hc : c.point <;> simp_all [UserPoint.wantsData]

theorem Inv.ordered {s : LockedThreads ε} (h : s.Inv) :
    Locks.Ordered s.Holds s.Wants s.rank := by
  intro t i j hholds hwants
  cases t with
  | waiter w =>
    obtain ⟨x, hw, hi⟩ := holds_waiter hholds
    have hj := wants_waiter hwants hw
    -- holding one mutex, a waiter wants another one only before its second section
    have hp : x.point = .lockQueueAgain := by
      cases hp : x.point <;>
        simp_all [WaitPoint.holdsQueue, WaitPoint.holdsData, WaitPoint.wantsQueue,
          WaitPoint.wantsData]
    have hlow : i = .data w ∧ j = .queue := by
      simp_all [WaitPoint.holdsQueue, WaitPoint.wantsData]
    obtain ⟨rfl, rfl⟩ := hlow
    have hrank : s.rank (.data w) = 0 := by simp [rank, hw, hp, WaitPoint.fresh]
    rw [hrank]
    exact (by decide : (0 : Fin 3) < 1)
  | user n =>
    obtain ⟨c, hn, hi⟩ := holds_user hholds
    rcases wants_user hwants hn with ⟨-, hp⟩ | ⟨w, e, rfl, hp⟩
    · rcases hi with ⟨-, hholds⟩ | ⟨v, -, hholds⟩ <;> rw [hp] at hholds <;> cases hholds
    · have hq : i = .queue := by
        rcases hi with ⟨rfl, -⟩ | ⟨v, -, hholds⟩
        · rfl
        · rw [hp] at hholds
          cases hholds
      subst hq
      -- the waiter is behind its second section
      obtain ⟨⟨x, hw, hreg⟩, -⟩ := h.called n c w e hn (by simp [UserPoint.calls, hp])
      have hfresh : x.point.fresh = false := by
        cases hx : x.point <;> simp_all [WaitCall.Registered, WaitPoint.fresh]
      have hrank : s.rank (.data w) = 2 := by simp [rank, hw, hfresh]
      rw [hrank]
      exact (by decide : (1 : Fin 3) < 2)

/-- A call that waits for nobody goes on. -/
theorem Inv.goes_on {s : LockedThreads ε} (h : s.Inv) {t : Caller} (ht : s.Active t)
    (hfree : ∀ u, ¬Locks.WaitsFor s.Holds s.Wants t u) : ∃ s', s.step (.run t) = some s' := by
  -- a mutex that it wants has no owner
  have hnone : ∀ i, s.Wants t i → s.owner i = none := by
    intro i hi
    by_contra howner
    obtain ⟨u, hu⟩ := Option.ne_none_iff_exists'.mp howner
    exact hfree u ⟨i, hi, (h.agree u i).mpr hu⟩
  cases t with
  | waiter w =>
    obtain ⟨x, hw, hp⟩ := Option.map_eq_some_iff.mp ht
    have hqueue : x.point.wantsQueue = true → s.shared.owner = none := fun hq =>
      hnone .queue (by simp [Wants, hw, hq])
    have hdata : x.point.wantsData = true → x.mutex = none := fun hd => by
      have := hnone (.data w) (by simp [Wants, hw, hd])
      simpa [owner, hw] using this
    obtain ⟨r, hr⟩ := Option.isSome_iff_exists.mp (WaitCall.run_isSome (w := w) hp hqueue hdata)
    exact ⟨_, by simp only [LockedThreads.step, hw, Option.bind_some, hr, Option.map_some]; rfl⟩
  | user n =>
    obtain ⟨c, hn, hp⟩ := Option.map_eq_some_iff.mp ht
    have hqueue : c.point = .lockQueue → s.shared.owner = none := fun hc =>
      hnone .queue (by simp [Wants, hn, hc, UserPoint.wantsQueue])
    have hwaiter : ∀ r, c.point.calls = some r → ∃ x : WaitCall ε, s.waiters[r.1]? = some x :=
      fun r hr => by
        obtain ⟨⟨x, hw, -⟩, -⟩ := h.called n c r.1 r.2 hn hr
        exact ⟨x, hw⟩
    have hdata : ∀ w e x, c.point = .lockData w e → s.waiters[w]? = some x → x.mutex = none :=
      fun w e x hc hw => by
        have := hnone (.data w) (by simp [Wants, hn, hc, UserPoint.wantsData])
        simpa [owner, hw] using this
    obtain ⟨r, hr⟩ := Option.isSome_iff_exists.mp
      (UserCall.run_isSome (n := n) hp hqueue hwaiter hdata)
    exact ⟨_, by simp only [LockedThreads.step, hn, Option.bind_some, hr, Option.map_some]; rfl⟩

theorem active_of_holds {s : LockedThreads ε} {t : Caller} {i : Mutex} (h : s.Holds t i) :
    s.Active t := by
  cases t with
  | waiter w =>
    obtain ⟨x, hw, hi⟩ := holds_waiter h
    have hp : x.point.active = true := by
      cases hp : x.point <;>
        simp_all [WaitPoint.holdsQueue, WaitPoint.holdsData, WaitPoint.active]
    simp [Active, hw, hp]
  | user n =>
    obtain ⟨c, hn, hi⟩ := holds_user h
    have hp : c.point.active = true := by
      cases hp : c.point <;>
        simp_all [UserPoint.holdsQueue, UserPoint.holdsData, UserPoint.active]
    simp [Active, hn, hp]

/-- A call that waits has a call at the end of its chain that goes on. -/
theorem Inv.exists_goes_on {s : LockedThreads ε} (hs : s.Inv) {t : Caller} (ht : s.Active t) :
    ∃ u, Relation.ReflTransGen (Locks.WaitsFor s.Holds s.Wants) t u ∧
      ∃ s', s.step (.run u) = some s' := by
  obtain ⟨u, hchain, hu, hfree⟩ := hs.ordered.exists_free t
  have hactive : s.Active u := by
    rcases hu with rfl | ⟨i, hi⟩
    · exact ht
    · exact active_of_holds hi
  exact ⟨u, hchain, hs.goes_on hactive hfree⟩

end LockedThreads

/-! ## The steps that are left -/

/-- A bound for the steps of a waiter. The wake-up that follows a notification is counted while it
sleeps; the place of its consumer among the others is counted until it is registered. -/
def WaitCall.budget (x : WaitCall ε) : Nat :=
  match x.point with
  | .lockQueue => 15
  | .tryFront => 14
  | .lockData => 13
  | .lockQueueAgain => 12
  | .register => 11
  | .testing => if x.awaitsEvent then 6 else 3
  | .asleep => 5
  | .woken => if x.awaitsEvent then 7 else 4
  | .late => 4
  | .leaving | .early => 2
  | .unlocked => 1
  | .returned _ => 0

def UserPoint.budget : UserPoint ε → Nat
  | .lockQueue => 8
  | .body => 7
  | .loop => 1
  | .lockData _ _ => 3
  | .consumer _ _ => 2
  | .returned => 0

theorem MainQueue.length_remaining {κ : Type} (m : MainQueue ε κ) :
    m.remaining.length = m.queueConsumers.length - m.queueConsumerIndex :=
  List.length_drop ..

theorem MainQueue.length_remaining_dropCalled {κ : Type} (m : MainQueue ε κ) :
    m.dropCalled.remaining.length = m.remaining.length := by
  rw [length_remaining, length_remaining]
  unfold dropCalled
  split
  · rename_i hall
    simp [hall.2]
  · rfl

theorem MainQueue.length_remaining_register {κ : Type} (m : MainQueue ε κ) (k : κ) :
    (m.register k).remaining.length ≤ m.remaining.length + 1 := by
  simp only [length_remaining, register, List.length_append, List.length_singleton]
  omega

theorem WaitCall.Moves.budget {w : Nat} {q q' : Shared ε} {x y : WaitCall ε}
    (h : x.Moves w q q' y) :
    y.budget + 4 * q'.main.remaining.length < x.budget + 4 * q.main.remaining.length := by
  cases h with
  | @front e main hp hpop | @frontAgain e main hp hpop =>
    obtain ⟨-, hmain⟩ := MainQueue.popFront_eq_some hpop
    have hsame : main.remaining = q.main.remaining := by rw [hmain]; rfl
    simp [WaitCall.budget, hp, hsame]
  | register hp =>
    have hle := MainQueue.length_remaining_register q.main (.returning w)
    have hy : WaitCall.budget { x with point := .testing } ≤ 6 := by
      simp only [WaitCall.budget]
      split <;> omega
    simp only [WaitCall.budget, hp] at hy ⊢
    omega
  | lockQueue hp | noFront hp | lockData hp | lockQueueAgain hp | late hp | leave hp
  | early hp | ret hp => simp [WaitCall.budget, hp]
  | sleep hp hawaits | stop hp hawaits => simp [WaitCall.budget, hp, hawaits]
  | woken hp =>
    cases hawaits : x.awaitsEvent <;> simp [WaitCall.budget, hp, hawaits]

/-- A consumer that takes an event does not raise the bound of its waiter. -/
theorem WaitCall.budget_take {x : WaitCall ε} (e : ε) (hawaits : x.awaitsEvent = true) :
    WaitCall.budget { x.give e with
      awaitsEvent := false, mutex := none, point := x.point.notifyAll } ≤ x.budget := by
  cases hp : x.point <;> simp [WaitCall.budget, WaitPoint.notifyAll, hp, hawaits]

theorem UserCall.Moves.budget {n : Nat} {q q' : Shared ε} {ws ws' : List (WaitCall ε)}
    {c : UserCall ε} {p : UserPoint ε} (h : c.Moves n q ws q' ws' p) :
    ListUpdate.weight WaitCall.budget ws' + p.budget + 4 * q'.main.remaining.length <
      ListUpdate.weight WaitCall.budget ws + c.point.budget + 4 * q.main.remaining.length := by
  cases h with
  | lockQueue hp => simp [UserPoint.budget, hp]
  | registerCallback hp =>
    have hle := MainQueue.length_remaining_register q.main (.callback q.callbacks)
    simp only [UserPoint.budget, hp]
    omega
  | @callCallback e rest hp =>
    have hsame : (q.callback c.answers q.callbacks e).main.remaining = q.main.remaining := by
      simp only [Shared.callback]
      split <;> rfl
    simp [UserPoint.budget, hp, hsame]
  | enqueue hp =>
    have hsame : (q.enqueue c.task).main.remaining = q.main.remaining := by
      cases c.task <;> rfl
    simp [UserPoint.budget, hp, hsame]
  | @callback e rest m hp hq hk =>
    have hcons := congrArg List.length (MainQueue.remaining_cons hk)
    have hsame : (q.next.callback c.answers m e).main.remaining =
        q.main.queueConsumers.drop (q.main.queueConsumerIndex + 1) := by
      simp only [Shared.callback]
      split <;> rfl
    simp only [UserPoint.budget, hp, hsame]
    rw [List.length_cons] at hcons
    omega
  | @returning e rest w hp hq hk =>
    have hcons := congrArg List.length (MainQueue.remaining_cons hk)
    have hsame : q.next.main.remaining =
        q.main.queueConsumers.drop (q.main.queueConsumerIndex + 1) := rfl
    have hle : (if reachable ws w then UserPoint.lockData w e else .loop).budget ≤ 3 := by
      split <;> simp [UserPoint.budget]
    simp only [hp, hsame]
    rw [List.length_cons] at hcons
    simp only [UserPoint.budget] at hle ⊢
    omega
  | finish hp => simp [UserPoint.budget, hp, MainQueue.length_remaining_dropCalled]
  | @lockData w e x hp hw =>
    have hset := ListUpdate.weight_set (f := WaitCall.budget)
      (y := { x with mutex := some (.user n) }) hw
    have hsame : WaitCall.budget { x with mutex := some (.user n) } = x.budget := rfl
    simp only [UserPoint.budget, hp]
    omega
  | @take w e x hp hw hawaits =>
    have hle := WaitCall.budget_take e hawaits
    generalize ({ x.give e with
      awaitsEvent := false, mutex := none, point := x.point.notifyAll } : WaitCall ε) = y at hle ⊢
    have hset := ListUpdate.weight_set (f := WaitCall.budget) (y := y) hw
    have hsame : MainQueue.remaining { q.main with queue := q.main.queue.tail } =
        q.main.remaining := rfl
    simp only [UserPoint.budget, hp, hsame]
    omega
  | @reject w e x hp hw =>
    have hset := ListUpdate.weight_set (f := WaitCall.budget) (y := { x with mutex := none }) hw
    have hsame : WaitCall.budget { x with mutex := none } = x.budget := rfl
    simp only [UserPoint.budget, hp]
    omega

/-- A step of a call that has begun, or the end of its time. -/
def LockStep.goes : LockStep ε → Bool
  | .run _ | .expire _ => true
  | .waitEvent _ | .call _ _ | .spurious _ => false

namespace LockedThreads

/-- A bound for the steps of all calls that have begun. -/
def budget (s : LockedThreads ε) : Nat :=
  ListUpdate.weight WaitCall.budget s.waiters +
    ListUpdate.weight (fun c : UserCall ε => c.point.budget) s.users +
    4 * s.shared.main.remaining.length

/-- **Every step of a call lowers the bound.** -/
theorem step_budget {s s' : LockedThreads ε} {a : LockStep ε} (ha : a.goes = true)
    (hst : s.step a = some s') : s'.budget < s.budget := by
  cases step_effect hst with
  | waitEvent | call | spurious => cases ha
  | @waiter w x y q hw hm =>
    have hset := ListUpdate.weight_set (f := WaitCall.budget) (y := y) hw
    have hlt := hm.budget
    simp only [budget]
    omega
  | @user n c q ws p hn hm =>
    have hset := ListUpdate.weight_set (f := fun c : UserCall ε => c.point.budget)
      (y := { c with point := p }) hn
    have hlt := hm.budget
    simp only [budget] at hset ⊢
    omega
  | @expire w x hw hp =>
    have hset := ListUpdate.weight_set (f := WaitCall.budget)
      (y := { x with point := .late }) hw
    have hx : x.budget = 5 := by simp [WaitCall.budget, hp]
    have hy : WaitCall.budget { x with point := .late } = 4 := rfl
    simp only [budget, setWaiter]
    omega

/-- No call can go on by itself: each is over, or it is a waiter without a timeout that sleeps; no
mutex is held; while a waiter sleeps there is no event for it; and every event that was put on the
queue is there, was given to a waiter, or was accepted by a callback. -/
structure AtRest (s : LockedThreads ε) : Prop where
  users : ∀ c ∈ s.users, c.point = .returned
  waiters : ∀ x ∈ s.waiters, (∃ r, x.point = .returned r) ∨
    x.point = .asleep ∧ x.timed = false ∧ x.awaitsEvent = true
  free : ∀ i, s.owner i = none
  quiet : (∃ x ∈ s.waiters, x.point = .asleep) → s.shared.main.queue = []
  account : s.shared.put.Perm (s.shared.main.queue ++ s.threads.clients.ledger)

theorem atRest_of_stuck {s : LockedThreads ε} (h : machine.Reaches {} s)
    (hstuck : ∀ a : LockStep ε, a.goes = true → s.step a = none) : s.AtRest := by
  have hs := inv_of_reaches h
  have hidle : ∀ t, ¬s.Active t := by
    intro t ht
    obtain ⟨u, -, s', hu⟩ := hs.exists_goes_on ht
    have := hstuck (.run u) rfl
    rw [this] at hu
    cases hu
  have husers : ∀ c ∈ s.users, c.point = .returned := by
    intro c hc
    obtain ⟨n, hn⟩ := List.mem_iff_getElem?.mp hc
    have hno : c.point.active = false := by simpa [Active, hn] using hidle (.user n)
    cases hp : c.point <;> rw [hp] at hno <;> first | rfl | cases hno
  have hwaiters : ∀ x ∈ s.waiters, (∃ r, x.point = .returned r) ∨
      x.point = .asleep ∧ x.timed = false ∧ x.awaitsEvent = true := by
    intro x hx
    obtain ⟨w, hw⟩ := List.mem_iff_getElem?.mp hx
    have hno : x.point.active = false := by simpa [Active, hw] using hidle (.waiter w)
    rcases WaitPoint.eq_of_not_active hno with hp | hp
    · refine .inr ⟨hp, ?_, (hs.waiters x hx).asleep hp⟩
      by_contra htimed
      have hexpire := hstuck (.expire w) rfl
      simp [LockedThreads.step, hw, hp, Bool.eq_true_of_not_eq_false htimed] at hexpire
    · exact .inl hp
  have hA := threads_reached h fun c hc => by rw [husers c hc]; rfl
  refine ⟨husers, hwaiters, fun i => ?_, fun ⟨x, hx, hp⟩ => ?_, (Threads.inv_reaches hA).put⟩
  · by_contra howner
    obtain ⟨t, ht⟩ := Option.ne_none_iff_exists'.mp howner
    exact hidle t (active_of_holds ((hs.agree t i).mpr ht))
  · obtain ⟨log, hlog⟩ := Threads.consistent_of_reaches hA
    obtain ⟨w, hw⟩ := List.mem_iff_getElem?.mp hx
    have hasleep : s.threads.clients.Asleep w := by
      refine ⟨x.waiter, by simp [threads, hw], by simp [WaitCall.waiter, hp, WaitPoint.phase], ?_⟩
      simp [WaitCall.waiter, hp, WaitPoint.waits, (hs.waiters x hx).asleep hp]
    exact hlog.tidy.queue_eq_nil (hlog.asleep w hasleep)

/-- **Every call ends**, for callbacks that return and do not call the queue. From every state of
every run, whatever the schedule: the calls that have begun go on for at most `budget` steps, if no
new call begins and no sleep ends without reason; once none of them can go on, all are over but for
waiters without a timeout, which sleep, and then the deque is empty. It always comes to this. -/
theorem calls_end {s : LockedThreads ε} (h : machine.Reaches {} s) :
    (∀ as os s', (∀ a ∈ as, a.goes = true) → machine.run s as = some (os, s') →
      as.length ≤ s.budget ∧
        ((∀ a : LockStep ε, a.goes = true → s'.step a = none) → s'.AtRest)) ∧
    ∃ as os s', (∀ a ∈ as, a.goes = true) ∧ machine.run s as = some (os, s') ∧ s'.AtRest := by
  have hlower : ∀ (s : LockedThreads ε) (a : LockStep ε) (o : Unit) (s' : LockedThreads ε),
      True → a.goes = true → machine.step s a = some (o, s') → True ∧ s'.budget < s.budget := by
    intro s a o s' _ ha hst
    obtain ⟨t, ht, he⟩ := Option.map_eq_some_iff.mp hst
    cases he
    exact ⟨trivial, step_budget ha ht⟩
  constructor
  · intro as os s' has hrun
    have hle := Machine.run_length_le hlower trivial has hrun
    exact ⟨by omega, fun hstuck => atRest_of_stuck (h.trans ⟨as, os, hrun⟩) hstuck⟩
  · obtain ⟨as, os, s', has, hrun, -, hlast⟩ := Machine.exists_run_to_rest hlower (s := s) trivial
    refine ⟨as, os, s', has, hrun, atRest_of_stuck (h.trans ⟨as, os, hrun⟩) fun a ha => ?_⟩
    exact Option.map_eq_none_iff.mp (hlast a ha)

theorem calls_end_delivering : ∃ as os s',
    (∀ a ∈ as, a.goes = true) ∧ machine.run delivering as = some (os, s') ∧ s'.AtRest :=
  (calls_end delivering_reached).2

end LockedThreads

end Slirc
