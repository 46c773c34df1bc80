import Slirc.Basic
import Mathlib.Data.List.Basic

/-!
# The main queue (`src/modules/event_manager.cpp`)

The deque of events and the registered consumers, as the sections under `queue_mutex` change them.
A consumer is called with the event at the front and says whether it takes it; it acts on a state
`σ` of its own, and may throw (`f`).

Called consumers stay in `queue_consumers`, in front of `queue_consumer_index`, until all of them
were called. `tryUnqueue_inv` is the rule for a property of what the consumers took.
-/

namespace Slirc

/-- The members of `event_manager::impl` that `queue_mutex` protects. -/
structure MainQueue (ε κ : Type) where
  queue : List ε := []
  queueConsumers : List κ := []
  queueConsumerIndex : Nat := 0
  deriving DecidableEq, Repr

namespace MainQueue

variable {ε κ σ f : Type}

/-- The loop of `try_unqueue`, with the consumers from the index on: each of them gets the front,
until the deque or the consumers are used up. The index moves before the call. -/
def tryUnqueueLoop (consume : κ → ε → EStateM f σ Bool) :
    List κ → MainQueue ε κ → σ → EStateM.Result f (MainQueue ε κ × σ) Unit
  | [], m, s => .ok () (m, s)
  | k :: ks, m, s =>
    match m.queue with
    | [] => .ok () (m, s)
    | e :: rest =>
      match consume k e s with
      | .ok true s =>
        tryUnqueueLoop consume ks
          { m with queue := rest, queueConsumerIndex := m.queueConsumerIndex + 1 } s
      | .ok false s =>
        tryUnqueueLoop consume ks { m with queueConsumerIndex := m.queueConsumerIndex + 1 } s
      | .error x s => .error x ({ m with queueConsumerIndex := m.queueConsumerIndex + 1 }, s)

/-- Drops the consumers once all of them were called. -/
def dropCalled (m : MainQueue ε κ) : MainQueue ε κ :=
  if m.queueConsumerIndex ≠ 0 ∧ m.queueConsumerIndex = m.queueConsumers.length then
    { m with queueConsumers := [], queueConsumerIndex := 0 }
  else m

/-- `try_unqueue` -/
def tryUnqueue (consume : κ → ε → EStateM f σ Bool) (m : MainQueue ε κ) (s : σ) :
    EStateM.Result f (MainQueue ε κ × σ) Unit :=
  match tryUnqueueLoop consume (m.queueConsumers.drop m.queueConsumerIndex) m s with
  | .ok () (m, s) => .ok () (m.dropCalled, s)
  | .error x r => .error x r

/-- `event_manager::queue` -/
def pushBack (consume : κ → ε → EStateM f σ Bool) (e : ε) (m : MainQueue ε κ) (s : σ) :
    EStateM.Result f (MainQueue ε κ × σ) Unit :=
  tryUnqueue consume { m with queue := m.queue ++ [e] } s

/-- The section of `event_manager::handle` that puts the afterwards events on the queue:
`std::copy` of the reversed events through a front inserter. -/
def flush (consume : κ → ε → EStateM f σ Bool) (events : List ε) (m : MainQueue ε κ) (s : σ) :
    EStateM.Result f (MainQueue ε κ × σ) Unit :=
  tryUnqueue consume { m with queue := events.reverse.foldl (fun q e => e :: q) m.queue } s

/-- The section of the returning `wait_event` forms that takes the front, if there is one. -/
def popFront (m : MainQueue ε κ) : Option (ε × MainQueue ε κ) :=
  match m.queue with
  | [] => none
  | e :: rest => some (e, { m with queue := rest })

/-- `queue_consumers.push_back` -/
def register (k : κ) (m : MainQueue ε κ) : MainQueue ε κ :=
  { m with queueConsumers := m.queueConsumers ++ [k] }

/-- `event_manager::wait_event(callback)` -/
def offer (consume : κ → ε → EStateM f σ Bool) (k : κ) (m : MainQueue ε κ) (s : σ) :
    EStateM.Result f (MainQueue ε κ × σ) Unit :=
  match m.queue with
  | [] => .ok () (m.register k, s)
  | e :: rest =>
    match consume k e s with
    | .ok true s => .ok () ({ m with queue := rest }, s)
    | .ok false s => .ok () (m, s)
    | .error x s => .error x (m, s)

theorem offer_nil (consume : κ → ε → EStateM f σ Bool) (k : κ) {m : MainQueue ε κ}
    (hq : m.queue = []) (s : σ) : offer consume k m s = .ok () (m.register k, s) := by
  simp only [offer, hq]

theorem offer_cons {consume : κ → ε → EStateM f σ Bool} {k : κ} {m : MainQueue ε κ} {s s' : σ}
    {e : ε} {rest : List ε} {b : Bool} (hq : m.queue = e :: rest)
    (hc : consume k e s = .ok b s') :
    offer consume k m s = .ok () (if b then { m with queue := rest } else m, s') := by
  simp only [offer, hq, hc]
  cases b <;> rfl

@[simp] theorem queue_dropCalled (m : MainQueue ε κ) : m.dropCalled.queue = m.queue := by
  unfold dropCalled
  split <;> rfl

@[simp] theorem queue_register (k : κ) (m : MainQueue ε κ) : (m.register k).queue = m.queue := rfl

/-- Without consumers nothing happens. -/
theorem tryUnqueue_idle (consume : κ → ε → EStateM f σ Bool) {m : MainQueue ε κ}
    (h : m.queueConsumers = []) (s : σ) : tryUnqueue consume m s = .ok () (m, s) := by
  have hdrop : m.dropCalled = m := by
    unfold dropCalled
    rw [if_neg]
    rintro ⟨hne, heq⟩
    exact hne (by simpa [h] using heq)
  simp [tryUnqueue, tryUnqueueLoop, h, hdrop]

/-- Events leave by the front only. -/
theorem popFront_eq_some {m m' : MainQueue ε κ} {e : ε} (h : m.popFront = some (e, m')) :
    m.queue = e :: m'.queue ∧ m' = { m with queue := m'.queue } := by
  unfold popFront at h
  split at h
  · cases h
  · rename_i hq
    cases h
    exact ⟨hq, rfl⟩

section Rule

variable {consume : κ → ε → EStateM f σ Bool} {Inv : List ε → σ → Prop}

/-- A property of the state and of the events taken so far, which every call of a consumer keeps. -/
def Keeps (consume : κ → ε → EStateM f σ Bool) (Inv : List ε → σ → Prop) : Prop :=
  ∀ taken k e s b s', Inv taken s → consume k e s = .ok b s' →
    Inv (if b then taken ++ [e] else taken) s'

theorem tryUnqueueLoop_inv (hk : Keeps consume Inv) {ks : List κ} {m m' : MainQueue ε κ} {s s' : σ}
    {taken : List ε} (hs : Inv taken s) (h : tryUnqueueLoop consume ks m s = .ok () (m', s')) :
    ∃ more, m.queue = more ++ m'.queue ∧ Inv (taken ++ more) s' := by
  fun_induction tryUnqueueLoop consume ks m s generalizing taken with
  | case1 m s =>
    cases h
    exact ⟨[], by simp, by simpa using hs⟩
  | case2 k ks m s hq =>
    cases h
    exact ⟨[], by simp, by simpa using hs⟩
  | case3 k ks m s e rest hq t hc ih =>
    obtain ⟨more, hmore, hinv⟩ := ih (by simpa using hk _ _ _ _ _ _ hs hc) h
    exact ⟨e :: more, by rw [hq]; simpa using hmore, by simpa using hinv⟩
  | case4 k ks m s e rest hq t hc ih =>
    obtain ⟨more, hmore, hinv⟩ := ih (by simpa using hk _ _ _ _ _ _ hs hc) h
    exact ⟨more, hmore, hinv⟩
  | case5 => cases h

/-- **The rule for `try_unqueue`.** The events that the consumers took were at the front of the
deque, in order, and what each call keeps holds of all of them. -/
theorem tryUnqueue_inv (hk : Keeps consume Inv) {m m' : MainQueue ε κ} {s s' : σ} (hs : Inv [] s)
    (h : tryUnqueue consume m s = .ok () (m', s')) :
    ∃ taken, m.queue = taken ++ m'.queue ∧ Inv taken s' := by
  unfold tryUnqueue at h
  split at h
  · rename_i m₁ s₁ hl
    cases h
    simpa using tryUnqueueLoop_inv hk hs hl
  · cases h

/-- The rule for `wait_event(callback)`. -/
theorem offer_inv (hk : Keeps consume Inv) {k : κ} {m m' : MainQueue ε κ} {s s' : σ} (hs : Inv [] s)
    (h : offer consume k m s = .ok () (m', s')) :
    ∃ taken, m.queue = taken ++ m'.queue ∧ Inv taken s' := by
  unfold offer at h
  split at h
  · cases h
    exact ⟨[], by simp, hs⟩
  · rename_i e rest hq
    split at h
    · rename_i t hc
      cases h
      exact ⟨[e], by simp [hq], by simpa using hk _ _ _ _ _ _ hs hc⟩
    · rename_i t hc
      cases h
      exact ⟨[], by simp, by simpa using hk _ _ _ _ _ _ hs hc⟩
    · cases h

end Rule

/-! ## Which consumers are called -/

/-- The registered consumers that have not been called. -/
def remaining (m : MainQueue ε κ) : List κ := m.queueConsumers.drop m.queueConsumerIndex

/-- What holds at the end of every section: events and consumers do not wait for one another, and
the consumers were dropped once all of them were called. -/
structure Tidy (m : MainQueue ε κ) : Prop where
  quiet : m.queue = [] ∨ m.queueConsumers = []
  index_zero : m.queueConsumers = [] → m.queueConsumerIndex = 0
  index_lt : m.queueConsumers ≠ [] → m.queueConsumerIndex < m.queueConsumers.length

theorem Tidy.index_le {m : MainQueue ε κ} (h : m.Tidy) :
    m.queueConsumerIndex ≤ m.queueConsumers.length := by
  by_cases hnil : m.queueConsumers = []
  · simp [h.index_zero hnil]
  · exact Nat.le_of_lt (h.index_lt hnil)

/-- A queue with events has no consumers. -/
theorem Tidy.remaining_eq_nil {m : MainQueue ε κ} (h : m.Tidy) (hq : m.queue ≠ []) :
    m.remaining = [] := by
  rw [remaining, h.quiet.resolve_left hq, List.drop_nil]

/-- Consumers that have not been called wait for an event. -/
theorem Tidy.queue_eq_nil {m : MainQueue ε κ} (h : m.Tidy) {k : κ} (hk : k ∈ m.remaining) :
    m.queue = [] := by
  by_contra hq
  rw [h.remaining_eq_nil hq] at hk
  cases hk

theorem Tidy.popFront {m m' : MainQueue ε κ} {e : ε} (h : m.Tidy)
    (hpop : m.popFront = some (e, m')) : m'.Tidy ∧ m'.remaining = m.remaining := by
  obtain ⟨hq, hm⟩ := popFront_eq_some hpop
  have hnil := h.quiet.resolve_left (by simp [hq])
  rw [hm]
  exact ⟨⟨.inr hnil, h.index_zero, h.index_lt⟩, rfl⟩

theorem Tidy.register {m : MainQueue ε κ} (h : m.Tidy) (hq : m.queue = []) (k : κ) :
    (m.register k).Tidy ∧ (m.register k).remaining = m.remaining ++ [k] := by
  have hle := h.index_le
  refine ⟨⟨.inl hq, by simp [MainQueue.register], fun _ => ?_⟩, ?_⟩
  · simp only [MainQueue.register, List.length_append, List.length_singleton]
    omega
  · simp only [remaining, MainQueue.register]
    rw [List.drop_append_of_le_length hle]

section Calls

variable {consume : κ → ε → EStateM f σ Bool} {Inv : List κ → σ → Prop}

theorem tryUnqueueLoop_calls
    (hk : ∀ called k e s b s', Inv called s → consume k e s = .ok b s' → Inv (called ++ [k]) s')
    {ks : List κ} {m m' : MainQueue ε κ} {s s' : σ} {called : List κ} (hs : Inv called s)
    (h : tryUnqueueLoop consume ks m s = .ok () (m', s')) :
    ∃ n ≤ ks.length, Inv (called ++ ks.take n) s' ∧ m'.queueConsumers = m.queueConsumers ∧
      m'.queueConsumerIndex = m.queueConsumerIndex + n ∧ (m'.queue = [] ∨ n = ks.length) := by
  fun_induction tryUnqueueLoop consume ks m s generalizing called with
  | case1 m s =>
    cases h
    exact ⟨0, Nat.le_refl _, by simpa using hs, rfl, rfl, .inr rfl⟩
  | case2 k ks m s hq =>
    cases h
    exact ⟨0, Nat.zero_le _, by simpa using hs, rfl, rfl, .inl hq⟩
  | case3 k ks m s e rest hq t hc ih | case4 k ks m s e rest hq t hc ih =>
    obtain ⟨n, hn, hinv, hcons, hindex, hend⟩ := ih (hk _ _ _ _ _ _ hs hc) h
    refine ⟨n + 1, Nat.succ_le_succ hn, by simpa using hinv, hcons, ?_, ?_⟩
    · rw [hindex]
      exact Nat.add_assoc .. |>.trans (by rw [Nat.add_comm 1])
    · exact hend.imp_right fun h => congrArg Nat.succ h
  | case5 => cases h

/-- **The consumers that `try_unqueue` calls** are the next ones, in order; it stops when the events
or the consumers are used up. -/
theorem tryUnqueue_calls
    (hk : ∀ called k e s b s', Inv called s → consume k e s = .ok b s' → Inv (called ++ [k]) s')
    {m m' : MainQueue ε κ} {s s' : σ} (hle : m.queueConsumerIndex ≤ m.queueConsumers.length)
    (hs : Inv [] s) (h : tryUnqueue consume m s = .ok () (m', s')) :
    m'.Tidy ∧ ∃ n, Inv (m.remaining.take n) s' ∧ m'.remaining = m.remaining.drop n := by
  unfold tryUnqueue at h
  split at h
  · rename_i m₁ s₁ hl
    cases h
    obtain ⟨n, hn, hinv, hcons, hindex, hend⟩ := tryUnqueueLoop_calls hk hs hl
    rw [List.length_drop] at hn hend
    unfold dropCalled
    split
    · rename_i hall
      refine ⟨⟨.inr rfl, fun _ => rfl, fun hne => absurd rfl hne⟩, n, hinv, ?_⟩
      rw [hindex, hcons] at hall
      rw [remaining, remaining, List.drop_drop, List.drop_nil,
        List.drop_eq_nil_of_le (Nat.le_of_eq hall.2.symm)]
    · rename_i hsome
      refine ⟨⟨?_, fun hnil => ?_, fun hne => ?_⟩, n, hinv, ?_⟩
      · refine hend.imp_right fun hn => ?_
        have hlen : m₁.queueConsumerIndex = m₁.queueConsumers.length := by
          rw [hindex, hcons]
          omega
        exact List.length_eq_zero_iff.mp (by omega)
      · rw [hindex, ← Nat.le_zero, ← List.length_eq_zero_iff.mpr hnil, hcons]
        omega
      · have hpos := List.length_pos_of_ne_nil hne
        rw [hcons] at *
        omega
      · rw [remaining, remaining, hcons, hindex, List.drop_drop]
  · cases h

end Calls

end MainQueue

end Slirc
