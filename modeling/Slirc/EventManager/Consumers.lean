import Mathlib.Data.List.Nodup
import Slirc.EventManager.Ledger

/-!
# The consumers at the main queue

A log of the consumers that were passed to `wait_event`, those that were registered and those that
were called, along the runs of the threads (`audited`). Calls are logged where they are made: the
section runs with consumers that also write to the log (`logged`).

`Consistent` is the invariant: the registered consumers are those that were called, and behind them
the ones that the queue still has to call. With `MainQueue.Tidy` it gives `no_consumer_skipped`: no
consumer is skipped or called twice, and no waiter sleeps while there is an event.
-/

namespace Slirc

namespace MainQueue

variable {ε κ σ f : Type}

/-- Consumers that write to a log when they are called. -/
def logged (consume : κ → ε → EStateM f σ Bool) (k : κ) (e : ε) : EStateM f (σ × List κ) Bool :=
  fun s =>
    match consume k e s.1 with
    | .ok b s' => .ok b (s', s.2 ++ [k])
    | .error x s' => .error x (s', s.2 ++ [k])

theorem logged_ok {consume : κ → ε → EStateM f σ Bool} {k : κ} {e : ε} {s s' : σ}
    {called called' : List κ} {b : Bool}
    (h : logged consume k e (s, called) = .ok b (s', called')) :
    consume k e s = .ok b s' ∧ called' = called ++ [k] := by
  unfold logged at h
  dsimp only at h
  split at h
  · rename_i hc
    cases h
    exact ⟨hc, rfl⟩
  · cases h

theorem logged_of_ok {consume : κ → ε → EStateM f σ Bool} {k : κ} {e : ε} {s s' : σ} {b : Bool}
    (h : consume k e s = .ok b s') (called : List κ) :
    logged consume k e (s, called) = .ok b (s', called ++ [k]) := by
  simp only [logged, h]

theorem tryUnqueueLoop_logged {consume : κ → ε → EStateM f σ Bool} {ks : List κ}
    {m m' : MainQueue ε κ} {s s' : σ} (h : tryUnqueueLoop consume ks m s = .ok () (m', s'))
    (called : List κ) :
    ∃ called', tryUnqueueLoop (logged consume) ks m (s, called) = .ok () (m', (s', called')) := by
  fun_induction tryUnqueueLoop consume ks m s generalizing called with
  | case1 =>
    cases h
    exact ⟨called, rfl⟩
  | case2 k ks m s hq =>
    cases h
    exact ⟨called, by simp only [tryUnqueueLoop, hq]⟩
  | case3 k ks m s e rest hq t hc ih | case4 k ks m s e rest hq t hc ih =>
    obtain ⟨called', hrest⟩ := ih h (called ++ [k])
    exact ⟨called', by simpa only [tryUnqueueLoop, hq, logged_of_ok hc called] using hrest⟩
  | case5 => cases h

/-- **Logging changes nothing** else. -/
theorem tryUnqueue_logged {consume : κ → ε → EStateM f σ Bool} {m m' : MainQueue ε κ} {s s' : σ}
    (h : tryUnqueue consume m s = .ok () (m', s')) (called : List κ) :
    ∃ called', tryUnqueue (logged consume) m (s, called) = .ok () (m', (s', called')) := by
  unfold tryUnqueue at h
  split at h
  · rename_i m₁ s₁ hl
    cases h
    obtain ⟨called', hlog⟩ := tryUnqueueLoop_logged hl called
    exact ⟨called', by simp only [tryUnqueue, hlog]⟩
  · cases h

end MainQueue

variable {ε : Type}

/-- The consumers that were passed to `wait_event`, those that were registered, and those that were
called, in order. The consumer of a waiter is passed when it is registered. -/
structure ConsumerLog where
  passed : List Consumer := []
  registered : List Consumer := []
  called : List Consumer := []
  deriving DecidableEq, Repr

namespace Threads

/-- The consumers that a section calls. -/
def calledBy : EStateM.Result Empty (MainQueue ε Consumer × Clients ε × List Consumer) Unit →
    List Consumer
  | .ok () (_, _, called) => called
  | .error x _ => x.elim

/-- The consumers that a step calls. -/
def calls (s : Threads ε) : ThreadStep ε → List Consumer
  | .queue e answers =>
    calledBy (s.main.pushBack (MainQueue.logged (consume answers)) e (s.clients, []))
  | .flush events answers =>
    calledBy (s.main.flush (MainQueue.logged (consume answers)) events (s.clients, []))
  | .waitCallback answers =>
    calledBy (s.main.offer (MainQueue.logged (consume answers)) (.callback s.clients.callbacks)
      ({ s.clients with callbacks := s.clients.callbacks + 1 }, []))
  | _ => []

/-- The consumer that a step registers: an empty deque makes it one. -/
def registers (s : Threads ε) : ThreadStep ε → List Consumer
  | .register w => if s.main.queue = [] then [.returning w] else []
  | .waitCallback _ => if s.main.queue = [] then [.callback s.clients.callbacks] else []
  | _ => []

/-- The consumer that a step passes. -/
def passes (s : Threads ε) : ThreadStep ε → List Consumer
  | .waitCallback _ => [.callback s.clients.callbacks]
  | a => s.registers a

end Threads

/-- The log after a step. -/
def ConsumerLog.after (s : Threads ε) (a : ThreadStep ε) (_ : Threads ε) (log : ConsumerLog) :
    ConsumerLog where
  passed := log.passed ++ s.passes a
  registered := log.registered ++ s.registers a
  called := log.called ++ s.calls a

/-- The runs of the threads, with the log of the consumers. -/
def audited : Machine (Threads ε × ConsumerLog) (ThreadStep ε) Unit :=
  Threads.machine.observe ConsumerLog.after

/-- They are the runs of the threads. -/
theorem audited_run (s : Threads ε) (log : ConsumerLog) (as : List (ThreadStep ε)) :
    (audited.run (s, log) as).map (fun r => (r.1, r.2.1)) = Threads.machine.run s as :=
  Machine.observe_run ..

namespace Clients

/-- The consumer may have been passed: the callback has been, or the waiter is past its sections. -/
def Known (c : Clients ε) : Consumer → Prop
  | .callback n => n < c.callbacks
  | .returning w => ∃ x, c.waiters[w]? = some x ∧ x.phase ≠ .start ∧ x.phase ≠ .empty

/-- The thread of the waiter sleeps, and has not been given an event. -/
def Asleep (c : Clients ε) (w : Nat) : Prop :=
  ∃ x, c.waiters[w]? = some x ∧ x.phase = .waiting ∧ x.awaitsEvent = true

/-- `c'` comes from `c` by calls of the consumers `called`: none of these sleeps any more. -/
structure Woke (c : Clients ε) (called : List Consumer) (c' : Clients ε) : Prop where
  known : ∀ k, c.Known k → c'.Known k
  asleep : ∀ w, c'.Asleep w → c.Asleep w ∧ .returning w ∉ called

theorem Woke.refl (c : Clients ε) : c.Woke [] c := ⟨fun _ h => h, fun _ h => ⟨h, by simp⟩⟩

theorem Woke.trans {c₁ c₂ c₃ : Clients ε} {called called' : List Consumer}
    (h : c₁.Woke called c₂) (h' : c₂.Woke called' c₃) : c₁.Woke (called ++ called') c₃ where
  known k hk := h'.known k (h.known k hk)
  asleep w hw := by
    obtain ⟨hw₂, hnot'⟩ := h'.asleep w hw
    obtain ⟨hw₁, hnot⟩ := h.asleep w hw₂
    exact ⟨hw₁, by simp [hnot, hnot']⟩

/-- One waiter becomes `y`. -/
def setWaiter (c : Clients ε) (w : Nat) (y : Waiter ε) : Clients ε :=
  { c with waiters := c.waiters.set w y }

theorem Known.setWaiter {c : Clients ε} {k : Consumer} (h : c.Known k) {w : Nat} {x y : Waiter ε}
    (hw : c.waiters[w]? = some x)
    (hy : x.phase ≠ .start → x.phase ≠ .empty → y.phase ≠ .start ∧ y.phase ≠ .empty) :
    (c.setWaiter w y).Known k := by
  cases k with
  | callback n => exact h
  | returning w' =>
    obtain ⟨x', hw', hstart, hempty⟩ := h
    by_cases heq : w = w'
    · subst heq
      cases hw.symm.trans hw'
      have hlt := (List.getElem?_eq_some_iff.mp hw).1
      exact ⟨y, List.getElem?_set_self hlt, hy hstart hempty⟩
    · exact ⟨x', (List.getElem?_set_ne heq).trans hw', hstart, hempty⟩

theorem Asleep.of_setWaiter {c : Clients ε} {w w' : Nat} {y : Waiter ε}
    (h : (c.setWaiter w y).Asleep w') :
    w' ≠ w ∧ c.Asleep w' ∨ w' = w ∧ y.phase = .waiting ∧ y.awaitsEvent = true := by
  obtain ⟨x, hx, hphase, hawaits⟩ := h
  by_cases heq : w = w'
  · subst heq
    have hlt := (List.getElem?_eq_some_iff.mp hx).1
    rw [setWaiter, List.length_set] at hlt
    obtain rfl : y = x := Option.some.inj ((List.getElem?_set_self hlt).symm.trans hx)
    exact .inr ⟨rfl, hphase, hawaits⟩
  · exact .inl ⟨fun h => heq h.symm, x, (List.getElem?_set_ne heq).symm.trans hx, hphase, hawaits⟩

end Clients

/-- **A consumer that is called wakes its waiter**, if it sleeps. -/
theorem consume_woke {c c' : Clients ε} (answers : Nat → ε → Bool) (k : Consumer) (e : ε) {b : Bool}
    (hc : consume answers k e c = .ok b c') : c.Woke [k] c' := by
  cases k with
  | callback n =>
    cases hc
    exact ⟨fun _ h => by cases ‹Consumer› <;> exact h, fun _ h => ⟨h, by simp⟩⟩
  | returning w =>
    unfold consume at hc
    dsimp only at hc
    split at hc
    · rename_i hnone
      cases hc
      refine ⟨fun _ h => h, fun w' h => ⟨h, ?_⟩⟩
      rw [List.mem_singleton]
      rintro ⟨⟩
      obtain ⟨x, hx, -⟩ := h
      cases hnone.symm.trans hx
    · rename_i x hw
      split at hc
      · cases hc
        refine ⟨fun _ h => h.setWaiter hw fun hs he => ⟨hs, he⟩, fun w' h => ?_⟩
        rcases Clients.Asleep.of_setWaiter h with ⟨hne, h⟩ | ⟨-, -, hawaits⟩
        · exact ⟨h, by simpa using hne⟩
        · cases hawaits
      · rename_i hno
        cases hc
        refine ⟨fun _ h => h, fun w' h => ⟨h, ?_⟩⟩
        rw [List.mem_singleton]
        rintro ⟨⟩
        obtain ⟨x', hx', hphase, hawaits⟩ := h
        cases hw.symm.trans hx'
        exact hno ⟨by simp [Waiter.alive, hphase], hawaits⟩

/-! ## The invariant -/

/-- The log is that of the queue: the registered consumers are those that were called, and then the
ones that were not. -/
structure Consistent (s : Threads ε) (log : ConsumerLog) : Prop where
  tidy : s.main.Tidy
  registered : ∃ done, log.registered = done ++ s.main.remaining ∧ ∀ k ∈ done, k ∈ log.called
  nodup_registered : log.registered.Nodup
  uncalled : ∀ k ∈ s.main.remaining, k ∉ log.called
  nodup_called : log.called.Nodup
  passed : ∀ k, k ∈ log.passed ↔ k ∈ log.called ∨ k ∈ log.registered
  known : ∀ k ∈ log.passed, s.clients.Known k
  asleep : ∀ w, s.clients.Asleep w → .returning w ∈ s.main.remaining

theorem consistent_init : Consistent ({} : Threads ε) {} where
  tidy := ⟨.inl rfl, fun _ => rfl, fun h => absurd rfl h⟩
  registered := ⟨[], rfl, by simp⟩
  nodup_registered := List.nodup_nil
  uncalled := by simp [MainQueue.remaining]
  nodup_called := List.nodup_nil
  passed := by simp
  known := by simp
  asleep := by simp [Clients.Asleep]

namespace Consistent

variable {s : Threads ε} {log : ConsumerLog}

/-- A section that offers the front to the consumers. -/
theorem tryUnqueue (h : Consistent s log) (put : List ε) (answers : Nat → ε → Bool)
    {m : MainQueue ε Consumer} (hcons : m.queueConsumers = s.main.queueConsumers)
    (hindex : m.queueConsumerIndex = s.main.queueConsumerIndex) :
    Consistent (.after put (m.tryUnqueue (consume answers) s.clients))
      { log with
        called := log.called ++ Threads.calledBy
          (m.tryUnqueue (MainQueue.logged (consume answers)) (s.clients, [])) } := by
  have hremaining : m.remaining = s.main.remaining := by
    rw [MainQueue.remaining, MainQueue.remaining, hcons, hindex]
  obtain ⟨m', c', hrun, hafter⟩ := Threads.after_eq put (m.tryUnqueue (consume answers) s.clients)
  obtain ⟨called, hlog⟩ := MainQueue.tryUnqueue_logged hrun []
  let inv (called : List Consumer) (p : Clients ε × List Consumer) : Prop :=
    p.2 = called ∧ s.clients.Woke called p.1
  have hkeep : ∀ called k e p b p', inv called p →
      MainQueue.logged (consume answers) k e p = .ok b p' → inv (called ++ [k]) p' := by
    rintro called k e ⟨c, log⟩ b ⟨c', log'⟩ ⟨rfl, hwoke⟩ hc
    obtain ⟨hok, hcalled⟩ := MainQueue.logged_ok hc
    exact ⟨hcalled, hwoke.trans (consume_woke answers k e hok)⟩
  have hinit : inv [] (s.clients, []) := ⟨rfl, .refl _⟩
  have hcalls := MainQueue.tryUnqueue_calls hkeep
    (by rw [hcons, hindex]; exact h.tidy.index_le) hinit hlog
  obtain ⟨htidy, n, ⟨hcalled, hwoke⟩, hrest⟩ := hcalls
  dsimp only at hcalled hwoke
  rw [hremaining] at hcalled hwoke hrest
  obtain ⟨done, hreg, hdone⟩ := h.registered
  have hsplit := List.take_append_drop n s.main.remaining
  have hnodup : s.main.remaining.Nodup := (List.nodup_append.mp (hreg ▸ h.nodup_registered)).2.1
  have hparts := List.nodup_append.mp (hsplit.symm ▸ hnodup)
  rw [hafter, hlog]
  simp only [Threads.calledBy, hcalled]
  refine ⟨htidy, ⟨done ++ s.main.remaining.take n, ?_, ?_⟩, h.nodup_registered, ?_, ?_, ?_, ?_, ?_⟩
  · rw [hreg, hrest, List.append_assoc, hsplit]
  · exact fun k hk => List.mem_append.mpr ((List.mem_append.mp hk).imp_left (hdone k))
  · intro k hk
    rw [hrest] at hk
    rw [List.mem_append, not_or]
    exact ⟨h.uncalled k (List.mem_of_mem_drop hk), fun ht => hparts.2.2 k ht k hk rfl⟩
  · refine List.nodup_append.mpr ⟨h.nodup_called, hparts.1, fun k hk k' hk' heq => ?_⟩
    exact h.uncalled k' (List.mem_of_mem_take hk') (heq ▸ hk)
  · intro k
    rw [h.passed, List.mem_append]
    refine ⟨fun hk => hk.imp_left .inl,
      fun hk => hk.elim (fun hk => hk.imp_right fun ht => ?_) .inr⟩
    rw [hreg]
    exact List.mem_append_right done (List.mem_of_mem_take ht)
  · exact fun k hk => hwoke.known k (h.known k hk)
  · intro w hw
    obtain ⟨hold, hnot⟩ := hwoke.asleep w hw
    have hmem := h.asleep w hold
    rw [← hsplit, List.mem_append] at hmem
    rw [hrest]
    exact hmem.resolve_left hnot

/-- A section of a waiter that does not make it sleep. -/
theorem setWaiter (h : Consistent s log) {s₀ : Threads ε} {w : Nat} {x y : Waiter ε}
    (hclients : s₀.clients = s.clients)
    (hmain : s₀.main.Tidy ∧ s₀.main.remaining = s.main.remaining)
    (hw : s.clients.waiters[w]? = some x)
    (hy : x.phase ≠ .start → x.phase ≠ .empty → y.phase ≠ .start ∧ y.phase ≠ .empty)
    (hno : ¬(y.phase = .waiting ∧ y.awaitsEvent = true)) : Consistent (s₀.setWaiter w y) log where
  tidy := hmain.1
  registered := by
    obtain ⟨done, hreg, hdone⟩ := h.registered
    exact ⟨done, hreg.trans (by rw [← hmain.2]; rfl), hdone⟩
  nodup_registered := h.nodup_registered
  uncalled k hk := h.uncalled k (hmain.2 ▸ hk)
  nodup_called := h.nodup_called
  passed := h.passed
  known k hk := by
    have hknown := (h.known k hk).setWaiter hw hy
    rwa [← hclients] at hknown
  asleep w' hw' := by
    have hasleep : (s.clients.setWaiter w y).Asleep w' := by rwa [← hclients]
    rcases hasleep.of_setWaiter with ⟨-, hold⟩ | ⟨-, hsleep⟩
    · exact hmain.2 ▸ h.asleep w' hold
    · exact absurd hsleep hno

/-- A section of a waiter that takes the front, if there is one. -/
theorem takeFront (h : Consistent s log) {s₁ : Threads ε} {w : Nat} {x : Waiter ε}
    (hw : s.clients.waiters[w]? = some x)
    (hs₁ : s.main.queue = [] → Consistent s₁ log) : Consistent (s.takeFront w x s₁) log := by
  unfold Threads.takeFront
  split
  · rename_i e main hpop
    exact h.setWaiter rfl (h.tidy.popFront hpop) hw (by simp) (by simp)
  · rename_i hpop
    refine hs₁ ?_
    unfold MainQueue.popFront at hpop
    split at hpop
    · assumption
    · cases hpop

/-- The consumers that were passed, and one more. -/
theorem known_snoc (h : Consistent s log) {s' : Threads ε} {k : Consumer}
    (hk : s'.clients.Known k) (hknown : ∀ k, s.clients.Known k → s'.clients.Known k) :
    ∀ k' ∈ log.passed ++ [k], s'.clients.Known k' := by
  intro k' hk'
  rcases List.mem_append.mp hk' with hold | hnew
  · exact hknown k' (h.known k' hold)
  · exact List.mem_singleton.mp hnew ▸ hk

/-- A section that registers a new consumer, while the deque is empty. -/
theorem register (h : Consistent s log) (hq : s.main.queue = []) {s' : Threads ε} {k : Consumer}
    (hnew : k ∉ log.passed) (hmain : s'.main = s.main.register k) (hk : s'.clients.Known k)
    (hknown : ∀ k, s.clients.Known k → s'.clients.Known k)
    (hasleep : ∀ w, s'.clients.Asleep w → s.clients.Asleep w ∨ .returning w = k) :
    Consistent s' { log with
      passed := log.passed ++ [k], registered := log.registered ++ [k] } := by
  obtain ⟨htidy, hremaining⟩ := h.tidy.register hq k
  rw [← hmain] at htidy hremaining
  obtain ⟨done, hreg, hdone⟩ := h.registered
  have hcalled : k ∉ log.called := fun hc => hnew ((h.passed k).mpr (.inl hc))
  have hregistered : k ∉ log.registered := fun hr => hnew ((h.passed k).mpr (.inr hr))
  refine ⟨htidy, ⟨done, ?_, hdone⟩, ?_, ?_, h.nodup_called, ?_, h.known_snoc hk hknown, ?_⟩
  · rw [hremaining, hreg, List.append_assoc]
  · simpa using List.Nodup.concat hregistered h.nodup_registered
  · intro k' hk'
    rw [hremaining, List.mem_append, List.mem_singleton] at hk'
    exact hk'.elim (h.uncalled k') (fun heq => heq ▸ hcalled)
  · intro k'
    simp only [List.mem_append, h.passed, or_assoc]
  · intro w hw
    rw [hremaining, List.mem_append, List.mem_singleton]
    exact (hasleep w hw).imp_left (h.asleep w)

/-- A section that calls a new consumer, while there is an event. -/
theorem call (h : Consistent s log) (hq : s.main.queue ≠ []) {s' : Threads ε} {k : Consumer}
    (hnew : k ∉ log.passed) (hcons : s'.main.queueConsumers = s.main.queueConsumers)
    (hindex : s'.main.queueConsumerIndex = s.main.queueConsumerIndex)
    (hk : s'.clients.Known k) (hknown : ∀ k, s.clients.Known k → s'.clients.Known k)
    (hasleep : ∀ w, s'.clients.Asleep w → s.clients.Asleep w) :
    Consistent s' { log with passed := log.passed ++ [k], called := log.called ++ [k] } := by
  have hnil := h.tidy.quiet.resolve_left hq
  have hremaining : s'.main.remaining = [] := by
    rw [MainQueue.remaining, hcons, hnil, List.drop_nil]
  have hold := h.tidy.remaining_eq_nil hq
  obtain ⟨done, hreg, hdone⟩ := h.registered
  have hcalled : k ∉ log.called := fun hc => hnew ((h.passed k).mpr (.inl hc))
  refine ⟨⟨.inr (hcons.trans hnil), fun _ => ?_, fun hne => absurd (hcons.trans hnil) hne⟩,
    ⟨done, ?_, fun k' hk' => List.mem_append_left _ (hdone k' hk')⟩, h.nodup_registered, ?_, ?_, ?_,
    h.known_snoc hk hknown, ?_⟩
  · exact hindex.trans (h.tidy.index_zero hnil)
  · rw [hreg, hold, hremaining]
  · simp [hremaining]
  · simpa using List.Nodup.concat hcalled h.nodup_called
  · intro k'
    simp only [List.mem_append, h.passed, or_assoc, or_comm]
  · intro w hw
    have hmem := h.asleep w (hasleep w hw)
    rw [hold] at hmem
    cases hmem

/-- A callback that is passed is called if there is an event, and registered if there is none. -/
theorem offer (h : Consistent s log) (answers : Nat → ε → Bool) {s' : Threads ε}
    (hst : s.step (.waitCallback answers) = some s') :
    Consistent s' (log.after s (.waitCallback answers) s') := by
  have hst : s' = .after s.put (s.main.offer (consume answers) (.callback s.clients.callbacks)
      { s.clients with callbacks := s.clients.callbacks + 1 }) := (Option.some.inj hst).symm
  have hnew : .callback s.clients.callbacks ∉ log.passed := fun hk =>
    Nat.lt_irrefl _ (h.known _ hk)
  have hknown : ∀ k, s.clients.Known k →
      ({ s.clients with callbacks := s.clients.callbacks + 1 } : Clients ε).Known k := by
    intro k hk
    cases k with
    | callback n => exact Nat.lt_succ_of_lt hk
    | returning w => exact hk
  cases hq : s.main.queue with
  | nil =>
    have hregisters : s.registers (.waitCallback answers) = [.callback s.clients.callbacks] :=
      if_pos hq
    have hcalls : s.calls (.waitCallback answers) = [] := by
      simp only [Threads.calls, MainQueue.offer_nil _ _ hq, Threads.calledBy]
    rw [MainQueue.offer_nil _ _ hq] at hst
    subst hst
    rw [ConsumerLog.after, hregisters, hcalls, List.append_nil]
    exact h.register hq hnew rfl (Nat.lt_succ_self _) hknown fun w hw => .inl hw
  | cons e rest =>
    have hc : consume answers (.callback s.clients.callbacks) e
        { s.clients with callbacks := s.clients.callbacks + 1 } = .ok _ _ := rfl
    have hregisters : s.registers (.waitCallback answers) = [] := if_neg (by simp [hq])
    have hcalls : s.calls (.waitCallback answers) = [.callback s.clients.callbacks] := by
      simp only [Threads.calls, MainQueue.offer_cons hq (MainQueue.logged_of_ok hc []),
        Threads.calledBy, List.nil_append]
    rw [MainQueue.offer_cons hq hc] at hst
    subst hst
    rw [ConsumerLog.after, hregisters, hcalls, List.append_nil]
    refine h.call (by simp [hq]) hnew ?_ ?_ (Nat.lt_succ_self _) hknown fun w hw => hw
    · show (if _ then _ else _ : MainQueue ε Consumer).queueConsumers = _
      split <;> rfl
    · show (if _ then _ else _ : MainQueue ε Consumer).queueConsumerIndex = _
      split <;> rfl

/-- A waiter that begins. -/
theorem waitEvent (h : Consistent s log) (timed : Bool) :
    Consistent { s with
      clients := { s.clients with waiters := s.clients.waiters ++ [{ timed }] } } log where
  tidy := h.tidy
  registered := h.registered
  nodup_registered := h.nodup_registered
  uncalled := h.uncalled
  nodup_called := h.nodup_called
  passed := h.passed
  known k hk := by
    cases k with
    | callback n => exact h.known _ hk
    | returning w =>
      obtain ⟨x, hx, hphase⟩ := h.known _ hk
      exact ⟨x, (List.getElem?_append_left (List.getElem?_eq_some_iff.mp hx).1).trans hx, hphase⟩
  asleep w hw := by
    obtain ⟨x, hx, hphase, hawaits⟩ := hw
    rcases Nat.lt_or_ge w s.clients.waiters.length with hlt | hge
    · exact h.asleep w ⟨x, (List.getElem?_append_left hlt).symm.trans hx, hphase, hawaits⟩
    · have hlast := (List.getElem?_append_right hge).symm.trans hx
      obtain rfl := List.mem_singleton.mp (List.mem_of_getElem? hlast)
      cases hphase

/-- The second section of a waiter: it sleeps if there is no event. -/
theorem registerWaiter (h : Consistent s log) {w : Nat} {x : Waiter ε}
    (hw : s.clients.waiters[w]? = some x) (hp : x.phase = .empty) {s' : Threads ε} :
    Consistent (s.takeFront w x ({ s with main := s.main.register (.returning w) }.setWaiter w
      { x with phase := .waiting, awaitsEvent := true })) (log.after s (.register w) s') := by
  have hnew : .returning w ∉ log.passed := by
    intro hk
    obtain ⟨x', hx', -, hne⟩ := h.known _ hk
    cases hw.symm.trans hx'
    exact hne hp
  cases hq : s.main.queue with
  | nil =>
    have hpop : s.main.popFront = none := by simp only [MainQueue.popFront, hq]
    have hregisters : s.registers (.register w) = [.returning w] := if_pos hq
    have hcalls : s.calls (.register w) = [] := rfl
    have hpasses : s.passes (.register w) = [.returning w] := hregisters
    rw [Threads.takeFront, hpop, ConsumerLog.after, hpasses, hregisters, hcalls, List.append_nil]
    refine h.register hq hnew rfl ?_ (fun k hk => hk.setWaiter hw (by simp)) fun w' hw' => ?_
    · have hlt := (List.getElem?_eq_some_iff.mp hw).1
      exact ⟨_, List.getElem?_set_self hlt, by simp⟩
    · rcases Clients.Asleep.of_setWaiter hw' with ⟨-, hold⟩ | ⟨heq, -⟩
      · exact .inl hold
      · exact .inr (congrArg Consumer.returning heq)
  | cons e rest =>
    have hregisters : s.registers (.register w) = [] := if_neg (by simp [hq])
    have hlog : log.after s (.register w) s' = log := by
      simp only [ConsumerLog.after, Threads.passes, hregisters, Threads.calls, List.append_nil]
    rw [hlog]
    exact h.takeFront hw fun hnil => absurd (hq.symm.trans hnil) (by simp)

end Consistent

/-- A step that logs nothing. -/
theorem ConsumerLog.after_eq {s s' : Threads ε} {a : ThreadStep ε} (log : ConsumerLog)
    (hpasses : s.passes a = []) (hregisters : s.registers a = []) (hcalls : s.calls a = []) :
    log.after s a s' = log := by
  simp [after, hpasses, hregisters, hcalls]

/-- **Every section keeps the log consistent.** -/
theorem step_consistent {s s' : Threads ε} {log : ConsumerLog} (h : Consistent s log)
    {a : ThreadStep ε} (hst : s.step a = some s') : Consistent s' (log.after s a s') := by
  cases Threads.step_effect hst with
  | @queue e answers =>
    have hlog : log.after s (.queue e answers) s =
        { log with called := log.called ++ s.calls (.queue e answers) } := by
      simp [ConsumerLog.after, Threads.passes, Threads.registers]
    exact hlog ▸ h.tryUnqueue (s.put ++ [e]) answers
      (m := { s.main with queue := s.main.queue ++ [e] }) rfl rfl
  | @flush events answers =>
    have hlog : log.after s (.flush events answers) s =
        { log with called := log.called ++ s.calls (.flush events answers) } := by
      simp [ConsumerLog.after, Threads.passes, Threads.registers]
    exact hlog ▸ h.tryUnqueue (s.put ++ events) answers
      (m := { s.main with
        queue := events.reverse.foldl (fun q e => e :: q) s.main.queue }) rfl rfl
  | @waitCallback answers => exact h.offer answers hst
  | @waitEvent timed =>
    rw [log.after_eq rfl rfl rfl]
    exact h.waitEvent timed
  | tryFront hw hp =>
    rw [log.after_eq rfl rfl rfl]
    exact h.takeFront hw fun _ => h.setWaiter rfl ⟨h.tidy, rfl⟩ hw (by simp [hp]) (by simp)
  | register hw hp => exact h.registerWaiter hw hp
  | wake hw | timeout hw | ret hw =>
    rw [log.after_eq rfl rfl rfl]
    exact h.setWaiter rfl ⟨h.tidy, rfl⟩ hw (by simp) (by simp)

theorem consistent_reaches {p : Threads ε × ConsumerLog} (h : audited.Reaches ({}, {}) p) :
    Consistent p.1 p.2 := by
  refine h.inv (P := fun p => Consistent p.1 p.2) (fun p a o p' hp hst => ?_) consistent_init
  obtain ⟨s, log⟩ := p
  obtain ⟨s', log'⟩ := p'
  obtain ⟨hone, rfl⟩ := Machine.observe_step.mp hst
  replace hone : (s.step a).map (fun s' => ((), s')) = some (o, s') := hone
  obtain ⟨t, ht, he⟩ := Option.map_eq_some_iff.mp hone
  cases he
  exact step_consistent hp ht

/-- Every state that is reached has a consistent log of its consumers. -/
theorem Threads.consistent_of_reaches {s : Threads ε} (h : machine.Reaches {} s) :
    ∃ log, Consistent s log := by
  obtain ⟨as, os, hrun⟩ := h
  have hlog := audited_run {} {} as
  rw [hrun] at hlog
  obtain ⟨⟨os', s', log⟩, hr, he⟩ := Option.map_eq_some_iff.mp hlog
  cases he
  exact ⟨log, consistent_reaches ⟨as, os', hr⟩⟩

/-- **No consumer is skipped or called twice, and no waiter sleeps while there is an event.** After
every section of every run: the deque is empty or there are no consumers; the index is inside
`queue_consumers`; the consumers from the index on are the registered ones that were not called, in
order; each consumer that was passed to `wait_event` was called once, or is one of these; and a
thread that sleeps has no event to wait for. -/
theorem no_consumer_skipped {s : Threads ε} {log : ConsumerLog}
    (h : audited.Reaches ({}, {}) (s, log)) :
    (s.main.queue = [] ∨ s.main.queueConsumers = []) ∧
    (s.main.queueConsumers = [] → s.main.queueConsumerIndex = 0) ∧
    (s.main.queueConsumers ≠ [] → s.main.queueConsumerIndex < s.main.queueConsumers.length) ∧
    s.main.queueConsumers.drop s.main.queueConsumerIndex =
      log.registered.filter (fun k => k ∉ log.called) ∧
    log.called.Nodup ∧
    (∀ k ∈ log.passed, k ∈ log.called ∨
      k ∈ s.main.queueConsumers.drop s.main.queueConsumerIndex) ∧
    ∀ x ∈ s.clients.waiters, x.phase = .waiting → x.awaitsEvent = true → s.main.queue = [] := by
  have hs := consistent_reaches h
  obtain ⟨done, hreg, hdone⟩ := hs.registered
  refine ⟨hs.tidy.quiet, hs.tidy.index_zero, hs.tidy.index_lt, ?_, hs.nodup_called, ?_, ?_⟩
  · have hcalled : done.filter (fun k => k ∉ log.called) = [] := by
      simpa [List.filter_eq_nil_iff] using hdone
    have hrest : s.main.remaining.filter (fun k => k ∉ log.called) = s.main.remaining := by
      simpa [List.filter_eq_self] using hs.uncalled
    rw [hreg, List.filter_append, hcalled, hrest]
    rfl
  · intro k hk
    rcases (hs.passed k).mp hk with hcalled | hregistered
    · exact .inl hcalled
    · rw [hreg] at hregistered
      exact (List.mem_append.mp hregistered).imp_left (hdone k)
  · intro x hx hphase hawaits
    obtain ⟨w, hw⟩ := List.mem_iff_getElem?.mp hx
    exact hs.tidy.queue_eq_nil (hs.asleep w ⟨x, hw, hphase, hawaits⟩)

/-- Three callbacks wait; the first one rejects an event, and the second one takes it. -/
def threeCallbacks : List (ThreadStep Nat) :=
  [.waitCallback fun _ _ => true, .waitCallback fun _ _ => true, .waitCallback fun _ _ => true,
    .queue 7 fun n _ => n == 1]

theorem no_consumer_skipped_threeCallbacks :
    ([.callback 0, .callback 1, .callback 2] : List Consumer).drop 2 =
      ([.callback 0, .callback 1, .callback 2] : List Consumer).filter
        fun k => k ∉ [.callback 0, .callback 1] := by
  have hreach : audited.Reaches ({}, {})
      (({ main := {
            queueConsumers := [.callback 0, .callback 1, .callback 2], queueConsumerIndex := 2 }
          clients := { callbacks := 3, calls := [(0, 7, false), (1, 7, true)] }
          put := [7] } : Threads Nat),
        { passed := [.callback 0, .callback 1, .callback 2]
          registered := [.callback 0, .callback 1, .callback 2]
          called := [.callback 0, .callback 1] }) :=
    ⟨threeCallbacks, [(), (), (), ()], by rfl⟩
  exact (no_consumer_skipped hreach).2.2.2.1

end Slirc
