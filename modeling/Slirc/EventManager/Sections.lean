import Slirc.EventManager.Atomic

/-!
# Whole sections, mutex by mutex

The other direction of `Slirc.EventManager.Atomic`: a step of `Threads` is made by the threads with
their mutexes as well, one thread at a time. Between such steps they are `Settled`: no mutex is
held, and each waiter is at the point that stands for its phase.

* `reaches_runs`: a waiter goes on as far as its own run says.
* `loop_runs`: a user runs through the loop of `try_unqueue`.
* `sections_atomic`: with whole sections as steps the threads reach exactly the states that they
  reach with their mutexes while no call is inside the loop. As before, callbacks return and do not
  call the queue.
-/

namespace Slirc

variable {ε : Type}

/-! ## Between the steps -/

/-- The points of a waiter that holds no mutex, one for each phase (and flag). -/
def WaitCall.Settled (x : WaitCall ε) : Prop :=
  x.mutex = none ∧
    match x.point with
    | .lockQueue | .lockData | .unlocked | .returned _ => True
    | .asleep => x.awaitsEvent = true
    | .woken => x.awaitsEvent = false
    | _ => False

/-- A waiter that goes on alone. -/
def WaitCall.Runs (w : Nat) : Shared ε × WaitCall ε → Shared ε × WaitCall ε → Prop :=
  Relation.ReflTransGen fun p p' => p.2.run w p.1 = some p'

namespace LockedThreads

structure Settled (s : LockedThreads ε) : Prop where
  owner : s.shared.owner = none
  waiters : ∀ x ∈ s.waiters, x.Settled
  users : ∀ c ∈ s.users, c.point = .returned

theorem reaches_step {s s' : LockedThreads ε} {a : LockStep ε} (h : s.step a = some s') :
    machine.Reaches s s' :=
  .single (Option.map_eq_some_iff.mpr ⟨s', h, rfl⟩)

theorem reaches_runs {s : LockedThreads ε} {w : Nat} {x : WaitCall ε}
    (hw : s.waiters[w]? = some x) {p : Shared ε × WaitCall ε}
    (h : WaitCall.Runs w (s.shared, x) p) :
    machine.Reaches s { s with shared := p.1, waiters := s.waiters.set w p.2 } := by
  have hlt := (List.getElem?_eq_some_iff.mp hw).1
  induction h with
  | refl =>
    rw [ListUpdate.set_same hw]
    exact .refl s
  | @tail p p' _ hrun ih =>
    refine ih.trans (reaches_step (a := .run (.waiter w)) ?_)
    have hlook : (s.waiters.set w p.2)[w]? = some p.2 := List.getElem?_set_self hlt
    simp only [step, hlook, Option.bind_some, hrun, Option.map_some, List.set_set]

end LockedThreads

/-! ## The waiters -/

namespace WaitCall

variable {w : Nat} {q : Shared ε} {x : WaitCall ε}

theorem Runs.head {q' : Shared ε} {y : WaitCall ε} {p : Shared ε × WaitCall ε}
    (h : x.run w q = some (q', y)) (hr : Runs w (q', y) p) : Runs w (q, x) p :=
  Relation.ReflTransGen.head h hr

theorem runs_front {e : ε} {main : MainQueue ε Consumer} (hp : x.point = .lockQueue)
    (hq : q.owner = none) (hpop : q.main.popFront = some (e, main)) :
    Runs w (q, x) ({ q with main, owner := none }, { x.give e with point := .unlocked }) := by
  have hlock : x.run w q = some ({ q with owner := some (.waiter w) },
      { x with point := .tryFront }) := by
    simp [run, hp, Shared.lock, hq]
  refine .head hlock (.single ?_)
  simp only [run, hpop]
  rfl

theorem runs_noFront (hp : x.point = .lockQueue) (hq : q.owner = none)
    (hpop : q.main.popFront = none) :
    Runs w (q, x)
      ({ q with owner := none }, { x with point := .lockData, awaitsEvent := true }) := by
  have hlock : x.run w q = some ({ q with owner := some (.waiter w) },
      { x with point := .tryFront }) := by
    simp [run, hp, Shared.lock, hq]
  refine .head hlock (.single ?_)
  simp only [run, hpop]

/-- The way into the second section. -/
theorem runs_second (hp : x.point = .lockData) (hm : x.mutex = none) (hq : q.owner = none) :
    Runs w (q, x) ({ q with owner := some (.waiter w) },
      { x with mutex := some (.waiter w), point := .register }) := by
  have hdata : x.run w q =
      some (q, { x with mutex := some (.waiter w), point := .lockQueueAgain }) := by
    simp [run, hp, WaitCall.lock, hm]
  refine .head hdata (.single ?_)
  simp [run, Shared.lock, hq]

theorem runs_frontAgain {e : ε} {main : MainQueue ε Consumer} (hp : x.point = .lockData)
    (hm : x.mutex = none) (hq : q.owner = none) (hpop : q.main.popFront = some (e, main)) :
    Runs w (q, x)
      ({ q with main, owner := none }, { x.give e with mutex := none, point := .unlocked }) := by
  have hsection : run w { q with owner := some (.waiter w) }
      { x with mutex := some (.waiter w), point := .register } =
        some ({ q with main, owner := none },
          { x.give e with mutex := some (.waiter w), point := .early }) := by
    simp only [run, hpop]
    rfl
  exact .trans (runs_second hp hm hq) (.head hsection (.single rfl))

theorem runs_register (hp : x.point = .lockData) (hm : x.mutex = none) (hq : q.owner = none)
    (hawaits : x.awaitsEvent = true) (hpop : q.main.popFront = none) :
    Runs w (q, x)
      ({ q with main := q.main.register (.returning w), owner := none },
        { x with mutex := none, point := .asleep }) := by
  have hsection : run w { q with owner := some (.waiter w) }
      { x with mutex := some (.waiter w), point := .register } =
        some ({ q with main := q.main.register (.returning w), owner := none },
          { x with mutex := some (.waiter w), point := .testing }) := by
    simp only [run, hpop]
  refine .trans (runs_second hp hm hq) (.head hsection (.single ?_))
  simp [run, hawaits]

/-- The way out of a wait without an event to wait for. -/
theorem runs_wake (hp : x.point = .woken) (hm : x.mutex = none) (hno : x.awaitsEvent = false) :
    Runs w (q, x) (q, { x with mutex := none, point := .unlocked }) := by
  have hdata : x.run w q = some (q, { x with mutex := some (.waiter w), point := .testing }) := by
    simp [run, hp, WaitCall.lock, hm]
  have htest : run w q { x with mutex := some (.waiter w), point := .testing } =
      some (q, { x with mutex := some (.waiter w), point := .leaving }) := by
    simp [run, hno]
  refine .head hdata (.head htest (.single ?_))
  simp [run, hno]

/-- The way out of a wait whose time is over. -/
theorem runs_late (hp : x.point = .late) (hm : x.mutex = none) (ht : x.timed = true) :
    Runs w (q, x) (q, { x with mutex := none, awaitsEvent := false, point := .unlocked }) := by
  have hdata : x.run w q = some (q, { x with mutex := some (.waiter w), point := .leaving }) := by
    simp [run, hp, WaitCall.lock, hm]
  refine .head hdata (.single ?_)
  simp [run, ht]

/-- What is left of a waiter behind its wait. -/
theorem waiter_after {p : WaitPoint ε} (hp : p.waits = false)
    (hno : x.waiter.awaitsEvent = false) :
    { x.waiter with phase := p.phase } = WaitCall.waiter { x with point := p } := by
  rw [show x.waiter = { x.waiter with awaitsEvent := false } by rw [← hno]]
  simp only [WaitCall.waiter, hp, Bool.false_and]

end WaitCall

namespace LockedThreads

/-- A waiter that goes on until it holds no mutex again. -/
theorem Settled.waiter {s : LockedThreads ε} (hs : s.Settled) {w : Nat} {x : WaitCall ε}
    (hw : s.waiters[w]? = some x) {q : Shared ε} {y : WaitCall ε}
    (hruns : WaitCall.Runs w (s.shared, x) (q, y)) (hq : q.owner = none) (hy : y.Settled)
    {A : Threads ε} (hA : A = { main := q.main
                                clients := {
                                  waiters := s.threads.clients.waiters.set w y.waiter
                                  callbacks := q.callbacks, calls := q.log }
                                put := q.put }) :
    ∃ s', machine.Reaches s s' ∧ s'.Settled ∧ s'.threads = A :=
  ⟨_, reaches_runs hw hruns, ⟨hq, ListUpdate.forall_mem_set hs.waiters hy, hs.users⟩,
    (threads_set s w y q).trans hA.symm⟩

/-- The waiter of a phase is at the point that stands for it. -/
theorem Settled.point {s : LockedThreads ε} (hs : s.Settled) {w : Nat} {y : Waiter ε}
    (hw : s.threads.clients.waiters[w]? = some y) :
    ∃ x : WaitCall ε, s.waiters[w]? = some x ∧ y = x.waiter ∧ x.Settled := by
  have hmap : (s.waiters.map (·.waiter))[w]? = some y := hw
  rw [List.getElem?_map] at hmap
  obtain ⟨x, hx, rfl⟩ := Option.map_eq_some_iff.mp hmap
  exact ⟨x, hx, rfl, hs.waiters x (List.mem_of_getElem? hx)⟩

/-- A section of a waiter, or the end of its wait. -/
theorem Settled.step_waiter {s : LockedThreads ε} (hs : s.Settled) (hinv : s.Inv)
    {a : ThreadStep ε} {A : Threads ε} (h : s.threads.Effect a A)
    (ha : ∃ w, a = .tryFront w ∨ a = .register w ∨ a = .wake w ∨ a = .timeout w ∨ a = .ret w) :
    ∃ s', machine.Reaches s s' ∧ s'.Settled ∧ s'.threads = A := by
  have hmain : s.threads.main = s.shared.main := rfl
  cases h with
  | queue | flush | waitEvent | waitCallback => simp at ha
  | @tryFront w y hw hp =>
    obtain ⟨x, hx, rfl, hm, hpoint⟩ := hs.point hw
    have hxp : x.point = .lockQueue := by
      cases hxp : x.point <;> simp_all [WaitCall.waiter, WaitPoint.phase]
    have hout : x.point.waits = false := by rw [hxp]; rfl
    cases hpop : s.shared.main.popFront with
    | some r =>
      obtain ⟨e, main⟩ := r
      refine hs.waiter hx (WaitCall.runs_front hxp hs.owner hpop) rfl ⟨hm, trivial⟩ ?_
      rw [takeFront_front hpop,
        WaitCall.waiter_take hout e (.inl rfl)]
      rfl
    | none =>
      refine hs.waiter hx (WaitCall.runs_noFront hxp hs.owner hpop) rfl ⟨hm, trivial⟩ ?_
      rw [Threads.takeFront_none hpop, WaitCall.waiter_empty hout]
      rfl
  | @register w y hw hp =>
    obtain ⟨x, hx, rfl, hm, hpoint⟩ := hs.point hw
    have hxp : x.point = .lockData := by
      cases hxp : x.point <;> simp_all [WaitCall.waiter, WaitPoint.phase]
    have hawaits := (hinv.waiters x (List.mem_of_getElem? hx)).made (.inl hxp)
    cases hpop : s.shared.main.popFront with
    | some r =>
      obtain ⟨e, main⟩ := r
      refine hs.waiter hx (WaitCall.runs_frontAgain hxp hm hs.owner hpop) rfl ⟨rfl, trivial⟩ ?_
      have hy := WaitCall.waiter_take (x := x) (by rw [hxp]; rfl) e (.inl rfl)
      rw [takeFront_front hpop]
      exact congrArg _ hy.symm
    | none =>
      refine hs.waiter hx (WaitCall.runs_register hxp hm hs.owner hawaits hpop) rfl
        ⟨rfl, hawaits⟩ ?_
      have hy := WaitCall.waiter_register hawaits
      rw [Threads.takeFront_none hpop]
      exact congrArg _ hy.symm
  | @wake w y hw hp hno =>
    obtain ⟨x, hx, rfl, hm, hpoint⟩ := hs.point hw
    have hxp : x.point = .woken := by
      cases hxp : x.point <;>
        simp_all [WaitCall.waiter, WaitPoint.phase, WaitPoint.waits]
    rw [hxp] at hpoint
    refine hs.waiter hx (WaitCall.runs_wake hxp hm hpoint) hs.owner ⟨rfl, trivial⟩ ?_
    exact congrArg _ (WaitCall.waiter_after (p := .unlocked) rfl hno)
  | @timeout w y hw hp ht =>
    obtain ⟨x, hx, rfl, hm, hpoint⟩ := hs.point hw
    have hxp : x.point = .asleep ∨ x.point = .woken := by
      cases hxp : x.point <;> simp_all [WaitCall.waiter, WaitPoint.phase]
    rcases hxp with hxp | hxp
    · -- its time is over first
      have hexpire : s.step (.expire w) = some (s.setWaiter w { x with point := .late }) := by
        have htimed : x.timed = true := ht
        simp [step, hx, hxp, htimed]
      have hlate : (s.setWaiter w { x with point := .late }).waiters[w]? =
          some { x with point := .late } :=
        List.getElem?_set_self (List.getElem?_eq_some_iff.mp hx).1
      refine ⟨_, (reaches_step hexpire).trans (reaches_runs hlate (WaitCall.runs_late rfl hm ht)),
        ⟨hs.owner, ?_, hs.users⟩, ?_⟩
      · simpa only [setWaiter, List.set_set] using
          ListUpdate.forall_mem_set hs.waiters ⟨rfl, trivial⟩
      · simp only [setWaiter, List.set_set]
        exact threads_set s w _ s.shared
    · rw [hxp] at hpoint
      have hno : x.waiter.awaitsEvent = false := by simp [WaitCall.waiter, hpoint]
      refine hs.waiter hx (WaitCall.runs_wake hxp hm hpoint) hs.owner ⟨rfl, trivial⟩ ?_
      have hy := WaitCall.waiter_after (p := .unlocked) rfl hno
      rw [← hno]
      exact congrArg _ hy
  | @ret w y hw hp =>
    obtain ⟨x, hx, rfl, hm, hpoint⟩ := hs.point hw
    have hxp : x.point = .unlocked := by
      cases hxp : x.point <;> simp_all [WaitCall.waiter, WaitPoint.phase]
    have hrun : x.run w s.shared = some (s.shared, { x with point := .returned x.event }) := by
      simp only [WaitCall.run, hxp]
    have hno : x.waiter.awaitsEvent = false := by simp only [WaitCall.waiter, hxp]; rfl
    refine hs.waiter hx (.single hrun) hs.owner ⟨hm, trivial⟩ ?_
    exact congrArg _ (WaitCall.waiter_after (p := .returned x.event) rfl hno)

/-! ## The users -/

theorem reaches_user {s : LockedThreads ε} {n : Nat} {c : UserCall ε}
    (hn : s.users[n]? = some c) {q : Shared ε} {ws : List (WaitCall ε)} {p : UserPoint ε}
    (hrun : c.run n s.shared s.waiters = some (q, ws, p)) :
    machine.Reaches s
      { shared := q, waiters := ws, users := s.users.set n { c with point := p } } := by
  refine reaches_step (a := .run (.user n)) ?_
  simp only [step, hn, Option.bind_some, hrun, Option.map_some]

/-- The user `n` is at the head of the loop; no other call is in a section. -/
structure AtLoop (s : LockedThreads ε) (n : Nat) (c : UserCall ε) : Prop where
  user : s.users[n]? = some c
  point : c.point = .loop
  others : ∀ (m : Nat) (d : UserCall ε), m ≠ n → s.users[m]? = some d → d.point = .returned
  waiters : ∀ x ∈ s.waiters, x.Settled

/-- What is asked of the other users survives a step of this one. -/
theorem others_set {users : List (UserCall ε)} {n : Nat} {P : UserCall ε → Prop}
    (h : ∀ (m : Nat) (d : UserCall ε), m ≠ n → users[m]? = some d → P d) (c : UserCall ε)
    (m : Nat) (d : UserCall ε) (hm : m ≠ n) (hd : (users.set n c)[m]? = some d) : P d :=
  h m d hm (by rwa [List.getElem?_set_ne (Ne.symm hm)] at hd)

theorem AtLoop.finish {s : LockedThreads ε} {n : Nat} {c : UserCall ε} (h : s.AtLoop n c)
    (hend : s.shared.main.queue = [] ∨
      s.shared.main.queueConsumers[s.shared.main.queueConsumerIndex]? = none) :
    ∃ s', machine.Reaches s s' ∧ s'.Settled ∧ s'.threads =
      { main := s.shared.main.dropCalled, clients := s.threads.clients, put := s.shared.put } := by
  have hrun : c.run n s.shared s.waiters =
      some ({ s.shared with main := s.shared.main.dropCalled, owner := none }, s.waiters,
        .returned) := by
    simp only [UserCall.run, h.point]
    rcases hend with hq | hk
    · rw [hq]
    · rw [hk]
      cases s.shared.main.queue <;> rfl
  refine ⟨_, reaches_user h.user hrun, ⟨rfl, h.waiters, fun d hd => ?_⟩, rfl⟩
  obtain ⟨m, hm⟩ := List.mem_iff_getElem?.mp hd
  by_cases hmn : m = n
  · subst hmn
    rw [List.getElem?_set_self (List.getElem?_eq_some_iff.mp h.user).1] at hm
    cases hm
    rfl
  · exact others_set h.others _ m d hmn hm

/-- The consumer of a waiter takes the mutex of the waiter, and gives it back. -/
theorem AtLoop.consumer {s : LockedThreads ε} {n : Nat} {c : UserCall ε} (h : s.AtLoop n c)
    {w : Nat} {x y : WaitCall ε} {e : ε} {rest : List ε} {q : Shared ε}
    (hq : s.shared.main.queue = e :: rest)
    (hk : s.shared.main.queueConsumers[s.shared.main.queueConsumerIndex]? = some (.returning w))
    (hw : s.waiters[w]? = some x) (halive : x.alive = true) (hm : x.mutex = none)
    (hlast : UserCall.run n s.shared.next (s.waiters.set w { x with mutex := some (.user n) })
      { c with point := .consumer w e } = some (q, s.waiters.set w y, .loop)) :
    machine.Reaches s { shared := q, waiters := s.waiters.set w y, users := s.users.set n c } := by
  have hlt := (List.getElem?_eq_some_iff.mp h.user).1
  have hself : { c with point := .loop } = c := by rw [← h.point]
  have hcall : c.run n s.shared s.waiters = some (s.shared.next, s.waiters, .lockData w e) := by
    simp [UserCall.run, h.point, hq, hk, reachable, hw, halive]
  have hlock : UserCall.run n s.shared.next s.waiters { c with point := .lockData w e } =
      some (s.shared.next, s.waiters.set w { x with mutex := some (.user n) },
        .consumer w e) := by
    simp [UserCall.run, hw, WaitCall.lock, hm]
  have hfirst := reaches_user h.user hcall
  have hsecond := reaches_user (s := { shared := s.shared.next, waiters := s.waiters
                                       users := s.users.set n { c with point := .lockData w e } })
    (List.getElem?_set_self hlt) hlock
  have hthird := reaches_user
    (s := { shared := s.shared.next
            waiters := s.waiters.set w { x with mutex := some (.user n) }
            users := s.users.set n { c with point := .consumer w e } })
    (List.getElem?_set_self hlt) hlast
  simp only [List.set_set] at hsecond hthird
  rw [hself] at hthird
  exact hfirst.trans (hsecond.trans hthird)

/-- **One consumer is called**, or its waiter has gone. -/
theorem AtLoop.call {s : LockedThreads ε} {n : Nat} {c : UserCall ε} (h : s.AtLoop n c)
    (hinv : s.Inv) {k : Consumer} {e : ε} {rest : List ε} {b : Bool} {C : Clients ε}
    (hq : s.shared.main.queue = e :: rest)
    (hk : s.shared.main.queueConsumers[s.shared.main.queueConsumerIndex]? = some k)
    (hc : consume c.answers k e s.threads.clients = .ok b C) :
    ∃ s', machine.Reaches s s' ∧ s'.AtLoop n c ∧ s'.threads = { s.threads with
      main := { s.shared.main with
        queue := if b then rest else s.shared.main.queue
        queueConsumerIndex := s.shared.main.queueConsumerIndex + 1 }
      clients := C } := by
  have hlt := (List.getElem?_eq_some_iff.mp h.user).1
  have hself : { c with point := .loop } = c := by rw [← h.point]
  have huser : (s.users.set n c)[n]? = some c := List.getElem?_set_self hlt
  cases k with
  | callback i =>
    have hrun : c.run n s.shared s.waiters =
        some (s.shared.next.callback c.answers i e, s.waiters, .loop) := by
      simp only [UserCall.run, h.point, hq, hk]
    have hreach := reaches_user h.user hrun
    rw [hself] at hreach
    refine ⟨_, hreach, ⟨huser, h.point, others_set h.others _, h.waiters⟩, ?_⟩
    cases hc
    cases hanswer : c.answers i e <;> simp [threads, Shared.callback, Shared.next, hanswer, hq]
  | returning w =>
    obtain ⟨x, hw, hreg⟩ := hinv.registered w (List.mem_of_getElem? hk)
    have hx := h.waiters x (List.mem_of_getElem? hw)
    obtain ⟨hm, hpoint⟩ := hx
    have hlook : s.threads.clients.waiters[w]? = some x.waiter := by simp [threads, hw]
    have hltw := (List.getElem?_eq_some_iff.mp hw).1
    unfold consume at hc
    simp only [hlook] at hc
    by_cases halive : x.alive = true
    · cases hawaits : x.awaitsEvent with
      | true =>
        have hp : x.point = .asleep := by
          cases hp : x.point <;> simp_all [WaitCall.Registered]
        have hlast : UserCall.run n s.shared.next
            (s.waiters.set w { x with mutex := some (.user n) })
            { c with point := .consumer w e } = some ({ s.shared.next with
              main := { s.shared.next.main with queue := rest } },
              s.waiters.set w { x.give e with
                awaitsEvent := false, mutex := none, point := .woken }, .loop) := by
          simp [UserCall.run, hltw, hawaits, Shared.next, hq, hp, WaitPoint.notifyAll]
          rfl
        have hready : x.waiter.alive = true ∧ x.waiter.awaitsEvent = true := by
          simp [WaitCall.waiter, Waiter.alive, hp, hawaits, WaitPoint.phase, WaitPoint.waits]
        rw [if_pos hready] at hc
        cases hc
        refine ⟨_, h.consumer hq hk hw halive hm hlast, ⟨huser, h.point, others_set h.others _,
          ListUpdate.forall_mem_set h.waiters ⟨rfl, rfl⟩⟩, ?_⟩
        simp [threads, Shared.next, WaitCall.waiter, WaitCall.give, Waiter.give, WaitPoint.phase,
          hp]
      | false =>
        have hlast : UserCall.run n s.shared.next
            (s.waiters.set w { x with mutex := some (.user n) })
            { c with point := .consumer w e } =
              some (s.shared.next, s.waiters.set w { x with mutex := none }, .loop) := by
          simp [UserCall.run, hltw, hawaits]
        have hno : x.waiter.awaitsEvent = false := by simp [WaitCall.waiter, hawaits]
        rw [if_neg (by simp [hno])] at hc
        cases hc
        refine ⟨_, h.consumer hq hk hw halive hm hlast, ⟨huser, h.point, others_set h.others _,
          ListUpdate.forall_mem_set h.waiters ?_⟩, ?_⟩
        · exact ⟨rfl, hpoint⟩
        · rw [← hm, ListUpdate.set_same hw]
          simp [threads, Shared.next]
    · -- its waiter has returned
      have hrun : c.run n s.shared s.waiters = some (s.shared.next, s.waiters, .loop) := by
        simp [UserCall.run, h.point, hq, hk, reachable, hw, halive]
      have hdead : x.waiter.alive = false := by
        cases hp : x.point <;>
          simp_all [WaitCall.Registered, WaitCall.alive, WaitCall.waiter, Waiter.alive,
            WaitPoint.phase]
      rw [if_neg (by simp [hdead])] at hc
      cases hc
      have hreach := reaches_user h.user hrun
      rw [hself] at hreach
      refine ⟨_, hreach, ⟨huser, h.point, others_set h.others _, h.waiters⟩, ?_⟩
      simp [threads, Shared.next]

/-- **The loop of `try_unqueue`**, consumer by consumer. -/
theorem AtLoop.loop_runs {s : LockedThreads ε} {n : Nat} {c : UserCall ε} (h : s.AtLoop n c)
    (hinv : s.Inv) {m : MainQueue ε Consumer} {C : Clients ε}
    (hloop : MainQueue.tryUnqueueLoop (consume c.answers) s.shared.main.remaining s.shared.main
      s.threads.clients = .ok () (m, C)) :
    ∃ s', machine.Reaches s s' ∧ s'.Settled ∧
      s'.threads = { main := m.dropCalled, clients := C, put := s.shared.put } := by
  induction hks : s.shared.main.remaining generalizing s with
  | nil =>
    rw [hks] at hloop
    cases hloop
    exact h.finish (.inr (List.getElem?_eq_none_iff.mpr (List.drop_eq_nil_iff.mp hks)))
  | cons k ks ih =>
    rw [hks] at hloop
    have hlt : s.shared.main.queueConsumerIndex < s.shared.main.queueConsumers.length := by
      by_contra hge
      rw [MainQueue.remaining, List.drop_eq_nil_of_le (not_lt.mp hge)] at hks
      cases hks
    rw [MainQueue.remaining, List.drop_eq_getElem_cons hlt] at hks
    obtain ⟨hhead, htail⟩ := List.cons.inj hks
    have hk : s.shared.main.queueConsumers[s.shared.main.queueConsumerIndex]? = some k := by
      rw [List.getElem?_eq_getElem hlt, hhead]
    rw [MainQueue.tryUnqueueLoop] at hloop
    cases hq : s.shared.main.queue with
    | nil =>
      rw [hq] at hloop
      cases hloop
      exact h.finish (.inl hq)
    | cons e rest =>
      rw [hq] at hloop
      dsimp only at hloop
      have hnext {b : Bool} {C₁ : Clients ε} (hc : consume c.answers k e s.threads.clients =
          .ok b C₁) (hrest : MainQueue.tryUnqueueLoop (consume c.answers) ks { s.shared.main with
            queue := if b then rest else s.shared.main.queue
            queueConsumerIndex := s.shared.main.queueConsumerIndex + 1 } C₁ = .ok () (m, C)) :
          ∃ s', machine.Reaches s s' ∧ s'.Settled ∧
            s'.threads = { main := m.dropCalled, clients := C, put := s.shared.put } := by
        obtain ⟨s₁, hreach, hat, hthreads⟩ := h.call hinv hq hk hc
        have hmain : s₁.shared.main = _ := congrArg Threads.main hthreads
        have hclients : s₁.threads.clients = C₁ := congrArg Threads.clients hthreads
        have hput : s₁.shared.put = s.shared.put := congrArg Threads.put hthreads
        have hremaining : s₁.shared.main.remaining = ks := by rw [hmain]; exact htail
        obtain ⟨s₂, hreach₂, hsettled, hs₂⟩ := ih hat (hinv.reaches hreach)
          (by rw [hremaining, hclients, hmain]; exact hrest) hremaining
        exact ⟨s₂, hreach.trans hreach₂, hsettled, by rw [hs₂, hput]⟩
      split at hloop
      · rename_i C₁ hc
        exact hnext hc (by simpa using hloop)
      · rename_i C₁ hc
        exact hnext hc (by simpa [hq] using hloop)
      · cases hloop

/-- A step of the last user. -/
theorem reaches_last {q q' : Shared ε} {ws ws' : List (WaitCall ε)} {users : List (UserCall ε)}
    {c : UserCall ε} {p : UserPoint ε} (hrun : c.run users.length q ws = some (q', ws', p)) :
    machine.Reaches { shared := q, waiters := ws, users := users ++ [c] }
      { shared := q', waiters := ws', users := users ++ [{ c with point := p }] } := by
  have hstep := reaches_user (s := { shared := q, waiters := ws, users := users ++ [c] })
    (n := users.length) (by simp) hrun
  simpa only [List.set_append_right _ _ (le_refl _), Nat.sub_self, List.set_cons_zero] using hstep

/-- A new call up to its section. -/
theorem Settled.enter {s : LockedThreads ε} (hs : s.Settled) (task : Task ε)
    (answers : Nat → ε → Bool) :
    machine.Reaches s { s with
      shared := { s.shared with owner := some (.user s.users.length) }
      users := s.users ++ [{ task, answers, point := .body }] } := by
  have hcall := reaches_step (s := s) (a := .call task answers) rfl
  have hlock : UserCall.run s.users.length s.shared s.waiters { task, answers } =
      some ({ s.shared with owner := some (.user s.users.length) }, s.waiters, .body) := by
    simp [UserCall.run, Shared.lock, hs.owner]
  exact hcall.trans (reaches_last hlock)

/-- A call of `queue` or `wait_event(callback)`, or the last section of `handle`. -/
theorem Settled.step_call {s : LockedThreads ε} (hs : s.Settled) (hinv : s.Inv) (task : Task ε)
    (answers : Nat → ε → Bool) {A : Threads ε}
    (h : s.threads.step (task.step answers) = some A) :
    ∃ s', machine.Reaches s s' ∧ s'.Settled ∧ s'.threads = A := by
  have henter := hs.enter task answers
  by_cases htask : task = .waitCallback
  · subst htask
    -- it is over after its section
    have hone (q : Shared ε) (hq : (s.shared.main.queue = [] ∧ q = { s.shared with
          main := s.shared.main.register (.callback s.shared.callbacks)
          callbacks := s.shared.callbacks + 1, owner := none }) ∨
        ∃ e rest, s.shared.main.queue = e :: rest ∧
          q = { s.shared.callback answers s.shared.callbacks e with
            callbacks := s.shared.callbacks + 1, owner := none }) :
        ∃ s', machine.Reaches s s' ∧ s'.Settled ∧ s'.threads = A := by
      have hbody : UserCall.run s.users.length
          { s.shared with owner := some (.user s.users.length) } s.waiters
          { task := .waitCallback, answers, point := .body } = some (q, s.waiters, .returned) := by
        rcases hq with ⟨hnil, rfl⟩ | ⟨e, rest, hcons, rfl⟩
        · simp [UserCall.run, hnil]
        · simp [UserCall.run, hcons, Shared.callback]
      refine ⟨_, henter.trans (reaches_last hbody), ⟨?_, hs.waiters, fun d hd => ?_⟩, ?_⟩
      · rcases hq with ⟨-, rfl⟩ | ⟨-, -, -, rfl⟩ <;> rfl
      · rcases List.mem_append.mp hd with hd | hd
        · exact hs.users d hd
        · obtain rfl := List.mem_singleton.mp hd
          rfl
      · have hstep := threads_waitCallback (s := s) (c := { task := .waitCallback, answers }) hq
          (s.users ++ [{ task := .waitCallback, answers, point := .returned }])
        exact Option.some.inj (hstep.symm.trans h)
    cases hq : s.shared.main.queue with
    | nil => exact hone _ (.inl ⟨hq, rfl⟩)
    | cons e rest => exact hone _ (.inr ⟨e, rest, hq, rfl⟩)
  · have hbody : UserCall.run s.users.length
        { s.shared with owner := some (.user s.users.length) } s.waiters
        { task, answers, point := .body } = some
          (Shared.enqueue { s.shared with owner := some (.user s.users.length) } task, s.waiters,
            .loop) := by
      cases task <;> first | rfl | exact absurd rfl htask
    have hreach := henter.trans (reaches_last hbody)
    have hat : AtLoop { s with
        shared := Shared.enqueue { s.shared with owner := some (.user s.users.length) } task
        users := s.users ++ [{ task, answers, point := .loop }] } s.users.length
        { task, answers, point := .loop } :=
      { user := by simp
        point := rfl
        others := fun m d hm hd => by
          have hlt := (List.getElem?_eq_some_iff.mp hd).1
          have hlt' : m < s.users.length := by
            simp only [List.length_append, List.length_singleton] at hlt
            omega
          exact hs.users d (List.mem_of_getElem? ((List.getElem?_append_left hlt').symm.trans hd))
        waiters := hs.waiters }
    rw [Task.step_eq htask] at h
    unfold MainQueue.tryUnqueue at h
    split at h
    · rename_i m C hloop
      cases h
      exact (hat.loop_runs (hinv.reaches hreach) hloop).imp fun s' h' =>
        ⟨hreach.trans h'.1, h'.2⟩
    · rename_i x r hx
      exact x.elim

/-- **Each step of `Threads` is made by the threads with their mutexes.** -/
theorem Settled.step {s : LockedThreads ε} (hs : s.Settled) (hinv : s.Inv) {a : ThreadStep ε}
    {A : Threads ε} (h : s.threads.step a = some A) :
    ∃ s', machine.Reaches s s' ∧ s'.Settled ∧ s'.threads = A := by
  cases a with
  | queue e answers => exact hs.step_call hinv (.queue e) answers h
  | flush events answers => exact hs.step_call hinv (.flush events) answers h
  | waitCallback answers => exact hs.step_call hinv .waitCallback answers h
  | waitEvent timed =>
    refine ⟨_, reaches_step (a := .waitEvent timed) rfl, ⟨hs.owner, fun x hx => ?_, hs.users⟩, ?_⟩
    · rcases List.mem_append.mp hx with hx | hx
      · exact hs.waiters x hx
      · obtain rfl := List.mem_singleton.mp hx
        exact ⟨rfl, trivial⟩
    · cases h
      simp [threads, WaitCall.waiter, WaitPoint.phase, WaitPoint.waits]
  | tryFront w | register w | wake w | timeout w | ret w =>
    exact hs.step_waiter hinv (Threads.step_effect h) ⟨w, by simp⟩

theorem realized {A : Threads ε} (h : Threads.machine.Reaches {} A) :
    ∃ s, machine.Reaches {} s ∧ s.Settled ∧ s.threads = A := by
  refine h.inv (P := fun A => ∃ s, machine.Reaches {} s ∧ s.Settled ∧ s.threads = A)
    (fun A a o A' hA hst => ?_) ⟨{}, .refl _, ⟨rfl, by simp, by simp⟩, rfl⟩
  obtain ⟨s, hreach, hs, rfl⟩ := hA
  obtain ⟨t, ht, he⟩ := Option.map_eq_some_iff.mp hst
  cases he
  obtain ⟨s', hreach', hs', hthreads⟩ := hs.step (inv_of_reaches hreach) ht
  exact ⟨s', hreach.trans hreach', hs', hthreads⟩

/-- **The sections of the main queue are atomic.** The threads with their mutexes, one lock at a
time, reach exactly the states that they reach with whole sections as steps, as far as they are
looked at while no call is inside the loop of `try_unqueue`. -/
theorem sections_atomic (A : Threads ε) : Threads.machine.Reaches {} A ↔
    ∃ s : LockedThreads ε, machine.Reaches {} s ∧
      (∀ c ∈ s.users, c.point.inLoop = false) ∧ s.threads = A := by
  constructor
  · intro h
    obtain ⟨s, hreach, hs, hthreads⟩ := realized h
    exact ⟨s, hreach, fun c hc => by rw [hs.users c hc]; rfl, hthreads⟩
  · rintro ⟨s, hreach, hout, rfl⟩
    exact threads_reached hreach hout

end LockedThreads

end Slirc
