import Slirc.Event.Refine

/-!
# Runs of calls on one event

* `queue_refines_pending`: without `unqueue`, every run of calls gives the answers of the plain
  list, for every growth of the vector's capacity.
* `unqueue` searches the whole vector, the ids that were popped included, and leaves
  `next_id_index` where it is. `unqueue_exact_iff`: it removes exactly the matching pending ids,
  and reports exactly them, if and only if no popped id in the vector matches.
  `nextIdIndex_in_range_iff`: a run keeps `next_id_index` in range if and only if no `unqueue`
  removes more popped ids than there are pending ids left.
-/

namespace Slirc

/-- A call on the id queue of an event, `unqueue` apart. -/
inductive QueueOp where
  | queueAs (c : QueueCall)
  | popNextQueuedId
  | isQueuedAs (id : IdType)
  | isQueuedAsMatcher (matcher : List IdType → IdType → Bool)

/-- What a call gives back. -/
inductive Answer where
  /-- The result of the single form, or the results that the callback of the range form got. -/
  | results (rs : List QueuingResult)
  | id (id : IdType)
  | bool (b : Bool)
  /-- An answer to a matcher, and the ids it was offered. -/
  | offered (found : Bool) (ids : List IdType)
  deriving DecidableEq, Repr

def IdQueue.apply (e : IdQueue) : QueueOp → Option (Answer × IdQueue)
  | .queueAs c => (e.call c).map fun r => (.results r.1, r.2)
  | .popNextQueuedId => some (.id e.popNextQueuedId.1, e.popNextQueuedId.2)
  | .isQueuedAs id => (e.isQueuedAs id).map fun b => (.bool b, e)
  | .isQueuedAsMatcher matcher => (e.isQueuedAsMatcher matcher).map fun r => (.offered r.1 r.2, e)

def Pending.apply (p : Pending) : QueueOp → Answer × Pending
  | .queueAs c => (.results (p.call c).1, (p.call c).2)
  | .popNextQueuedId => (.id p.pop.1, p.pop.2)
  | .isQueuedAs id => (.bool (decide (id ∈ p.ids)), p)
  | .isQueuedAsMatcher matcher =>
    (.offered (p.isQueuedAsMatcher matcher).1 (p.isQueuedAsMatcher matcher).2, p)

def IdQueue.machine : Machine IdQueue QueueOp Answer := ⟨IdQueue.apply⟩

def Pending.machine : Machine Pending QueueOp Answer := ⟨fun p op => some (p.apply op)⟩

/-- The vector stands for the list. -/
def Stands (e : IdQueue) (p : Pending) : Prop := e.pending = some p.ids

/-- Each call on the vector is the call on the list. -/
theorem apply_spec {e : IdQueue} {p : Pending} (h : Stands e p) (op : QueueOp) :
    ∃ e', e.apply op = some ((p.apply op).1, e') ∧ Stands e' (p.apply op).2 := by
  unfold Stands at h ⊢
  cases op with
  | queueAs c =>
    obtain ⟨e', he, hp⟩ := IdQueue.call_spec h c
    exact ⟨e', by simp [IdQueue.apply, Pending.apply, he], hp⟩
  | popNextQueuedId =>
    obtain ⟨hid, hp⟩ := IdQueue.pop_spec h
    exact ⟨e.popNextQueuedId.2, by simp [IdQueue.apply, Pending.apply, hid], hp⟩
  | isQueuedAs id =>
    exact ⟨e, by simp [IdQueue.apply, Pending.apply, IdQueue.isQueuedAs_spec h], h⟩
  | isQueuedAsMatcher matcher =>
    exact ⟨e, by simp [IdQueue.apply, Pending.apply, IdQueue.isQueuedAsMatcher_spec h], h⟩

theorem machine_simulates : IdQueue.machine.Simulates Pending.machine Stands := by
  intro e p op h
  obtain ⟨e', he, hp⟩ := apply_spec h op
  exact ⟨_, e', _, he, rfl, hp⟩

/-- **The id queue is a plain list.** For every valid original id and every run of `queue_as`,
`pop_next_queued_id` and `is_queued_as` calls, with any spare capacity at each of them, the vector
gives the answers of the list of pending ids and stands for that list afterwards; the next pop
gives an invalid id exactly if the list is empty. -/
theorem queue_refines_pending {id : IdType} (h : id.isValid = true) (ops : List QueueOp) :
    ∃ e₀ e p answers, IdQueue.make id = .ok e₀ ∧
      IdQueue.machine.run e₀ ops = some (answers, e) ∧
      Pending.machine.run (.one id h) ops = some (answers, p) ∧
      e.pending = some p.ids ∧ (∀ i ∈ p.ids, i.isValid = true) ∧
      (e.popNextQueuedId.1.isValid = false ↔ p.ids = []) := by
  obtain ⟨e₀, hmake, hpend⟩ := IdQueue.make_pending h
  obtain ⟨answers, e, p, he, hp, hst⟩ := machine_simulates.run (t := .one id h) hpend ops
  refine ⟨e₀, e, p, answers, hmake, he, hp, hst, p.valid, ?_⟩
  rw [(IdQueue.pop_spec hst).1, Pending.pop_invalid_iff]

/-- A run over all four storage paths: rebuilding, reusing the dead prefix, appending and
compacting. -/
theorem queue_refines_pending_paths :
    ∃ e₀ e p answers, IdQueue.make (.ofEnum (.user 0) 1) = .ok e₀ ∧
      IdQueue.machine.run e₀
        [.queueAs (.single (.ofEnum (.user 0) 2) .discard .atFront 0), .popNextQueuedId,
          .queueAs (.single (.ofEnum (.user 0) 3) .replace .atFront 0), .popNextQueuedId,
          .queueAs (.range [.ofEnum (.user 0) 1, .invalid] .replace .atBack 0)] =
        some (answers, e) ∧
      Pending.machine.run (.one (.ofEnum (.user 0) 1) (by decide))
        [.queueAs (.single (.ofEnum (.user 0) 2) .discard .atFront 0), .popNextQueuedId,
          .queueAs (.single (.ofEnum (.user 0) 3) .replace .atFront 0), .popNextQueuedId,
          .queueAs (.range [.ofEnum (.user 0) 1, .invalid] .replace .atBack 0)] =
        some (answers, p) ∧
      e.pending = some p.ids ∧ (∀ i ∈ p.ids, i.isValid = true) ∧
      (e.popNextQueuedId.1.isValid = false ↔ p.ids = []) :=
  queue_refines_pending (by decide) _

/-! ## `unqueue` -/

/-- A state that construction and a run of calls without `unqueue` reach. -/
def IdQueue.Reachable (e : IdQueue) : Prop :=
  ∃ id e₀, IdQueue.make id = .ok e₀ ∧ IdQueue.machine.Reaches e₀ e

theorem IdQueue.make_ok {id : IdType} {e₀ : IdQueue} (h : IdQueue.make id = .ok e₀) :
    ∃ p : Pending, Stands e₀ p := by
  unfold make at h
  split at h
  · rename_i hv
    cases h
    exact ⟨.one id hv, by simp [Stands, pending]⟩
  · cases h

/-- A reachable event stands for a list. -/
theorem IdQueue.Reachable.stands {e : IdQueue} (h : e.Reachable) : ∃ p, Stands e p := by
  obtain ⟨id, e₀, hmake, hreach⟩ := h
  refine hreach.inv (P := fun e => ∃ p, Stands e p) ?_ (make_ok hmake)
  rintro e op a e' ⟨p, hp⟩ hst
  obtain ⟨e'', he, hp'⟩ := apply_spec hp op
  rw [show IdQueue.machine.step e op = e.apply op from rfl, he] at hst
  cases hst
  exact ⟨_, hp'⟩

/-- `unqueue` did its work on the pending ids: exactly the ones that `hit` accepts are gone, and the
answer says whether there was one. -/
def UnqueueExact (e : IdQueue) (hit : IdType → Bool) (r : Bool × IdQueue) : Prop :=
  ∃ ids, e.pending = some ids ∧ r.2.pending = some (ids.filter fun i => !hit i) ∧
    (r.1 = true ↔ ∃ i ∈ ids, hit i = true)

/-- Removal from a list keeps its length exactly if nothing matches. -/
theorem length_filter_not_eq {ids : List IdType} {hit : IdType → Bool} :
    (ids.filter fun i => !hit i).length = ids.length ↔ ∀ i ∈ ids, hit i = false := by
  simp [List.length_filter_eq_length_iff]

/-- **`unqueue` is exact on a vector exactly if no dead id matches.** -/
theorem unqueueMatcher_exact_iff {e : IdQueue} {ids : List IdType} (h : e.pending = some ids)
    (hit : IdType → Bool) :
    UnqueueExact e hit (e.unqueueMatcher hit) ↔ ∀ i ∈ e.popped, hit i = false := by
  have hvec := IdQueue.queuedIds_eq h
  have hn := IdQueue.length_popped h
  have hle : (e.popped.filter fun i => !hit i).length ≤ e.popped.length := List.length_filter_le _ _
  have hkept : (e.queuedIds.filter fun i => !hit i) =
      (e.popped.filter fun i => !hit i) ++ ids.filter fun i => !hit i := by
    conv => lhs; rw [hvec, List.filter_append]
  by_cases hnone : ∀ i ∈ e.queuedIds, hit i = false
  · have hr : e.unqueueMatcher hit = (false, e) := if_pos (length_filter_not_eq.mpr hnone)
    have hids : ∀ i ∈ ids, hit i = false := fun i hi => hnone i (by rw [hvec]; simp [hi])
    rw [hr]
    refine ⟨fun _ i hi => hnone i (by rw [hvec]; simp [hi]), fun _ => ⟨ids, h, ?_, ?_⟩⟩
    · rw [List.filter_eq_self.mpr fun i hi => by simp [hids i hi]]
      exact h
    · simpa using hids
  · have hr : e.unqueueMatcher hit =
        (true, { e with queuedIds := e.queuedIds.filter fun i => !hit i }) :=
      if_neg fun hc => hnone (length_filter_not_eq.mp hc)
    rw [hr, hkept]
    constructor
    · rintro ⟨ids', hids', hpend, -⟩
      cases h.symm.trans hids'
      obtain ⟨hin, hdrop⟩ := IdQueue.pending_eq_some.mp hpend
      -- the range behind the old index has its length only if no dead id was removed
      have hlen := congrArg List.length hdrop
      simp only [List.length_append, List.length_drop] at hin hlen
      exact length_filter_not_eq.mp (by omega)
    · intro hdead
      have hpop : (e.popped.filter fun i => !hit i) = e.popped :=
        List.filter_eq_self.mpr fun i hi => by simp [hdead i hi]
      refine ⟨ids, h, by rw [hpop]; exact IdQueue.pending_append hn _, fun _ => ?_, fun _ => rfl⟩
      push Not at hnone
      obtain ⟨i, hi, hit'⟩ := hnone
      rw [hvec] at hi
      rcases List.mem_append.mp hi with hi | hi
      · exact absurd (hdead i hi) hit'
      · exact ⟨i, hi, by simpa using hit'⟩

/-- **When `unqueue` is exact.** In every reachable state, both overloads remove exactly the
matching pending ids and report exactly whether there was one, if and only if no id that was popped
and still lies in the vector matches. -/
theorem unqueue_exact_iff {e : IdQueue} (h : e.Reachable) :
    (∀ matcher, UnqueueExact e matcher (e.unqueueMatcher matcher) ↔
      ∀ i ∈ e.popped, matcher i = false) ∧
    (∀ id, UnqueueExact e (· == id) (e.unqueue id) ↔ id ∉ e.popped) := by
  obtain ⟨p, hp⟩ := h.stands
  refine ⟨fun matcher => unqueueMatcher_exact_iff hp matcher, fun id => ?_⟩
  rw [show e.unqueue id = e.unqueueMatcher (· == id) from rfl, unqueueMatcher_exact_iff hp]
  simp only [beq_eq_false_iff_ne]
  exact ⟨fun h hm => h id hm rfl, fun h i hi he => h (he ▸ hi)⟩

/-- An event that was made as one id, queued as another one and popped once. -/
def poppedOnce : IdQueue := ⟨[.ofEnum (.user 0) 1, .ofEnum (.user 0) 2], 1⟩

theorem poppedOnce_reachable : poppedOnce.Reachable :=
  ⟨.ofEnum (.user 0) 1, ⟨[.ofEnum (.user 0) 1], 0⟩, by decide,
    [.queueAs (.single (.ofEnum (.user 0) 2) .discard .atBack 0), .popNextQueuedId],
    [.results [.queued], .id (.ofEnum (.user 0) 1)], by decide⟩

theorem unqueue_exact_poppedOnce :
    (∀ matcher, UnqueueExact poppedOnce matcher (poppedOnce.unqueueMatcher matcher) ↔
      ∀ i ∈ poppedOnce.popped, matcher i = false) ∧
    (∀ id, UnqueueExact poppedOnce (· == id) (poppedOnce.unqueue id) ↔ id ∉ poppedOnce.popped) :=
  unqueue_exact_iff poppedOnce_reachable

/-- `unqueue` of the id that was already popped loses the other one, which is still pending. -/
theorem unqueue_not_exact :
    ¬ ∀ e : IdQueue, e.Reachable → ∀ id, UnqueueExact e (· == id) (e.unqueue id) := by
  intro h
  have hex := h poppedOnce poppedOnce_reachable (.ofEnum (.user 0) 1)
  have hpend : poppedOnce.pending = some [.ofEnum (.user 0) 2] := by decide
  have hdead := (unqueueMatcher_exact_iff hpend _).mp hex
  exact absurd (hdead (.ofEnum (.user 0) 1) (by decide)) (by decide)

/-! ## `next_id_index` -/

/-- A call on the id queue of an event. -/
inductive EventOp where
  | op (op : QueueOp)
  | unqueue (id : IdType)
  | unqueueMatcher (matcher : IdType → Bool)

def IdQueue.applyEvent (e : IdQueue) : EventOp → Option (Answer × IdQueue)
  | .op op => e.apply op
  | .unqueue id => some (.bool (e.unqueue id).1, (e.unqueue id).2)
  | .unqueueMatcher matcher =>
    some (.bool (e.unqueueMatcher matcher).1, (e.unqueueMatcher matcher).2)

def IdQueue.eventMachine : Machine IdQueue EventOp Answer := ⟨IdQueue.applyEvent⟩

/-- `next_id_index` is at most `queued_ids.size()`. -/
def IdQueue.InRange (e : IdQueue) : Prop := e.nextIdIndex ≤ e.queuedIds.length

/-- An `unqueue` removes at most as many popped ids as it leaves pending ones. -/
def IdQueue.UnqueueFits (e : IdQueue) : EventOp → Prop
  | .op _ => True
  | .unqueue id =>
    e.popped.countP (· == id) ≤ (e.queuedIds.drop e.nextIdIndex).countP fun i => !(i == id)
  | .unqueueMatcher matcher =>
    e.popped.countP matcher ≤ (e.queuedIds.drop e.nextIdIndex).countP fun i => !matcher i

/-- The ids behind `next_id_index` are valid. -/
def IdQueue.ValidIds (e : IdQueue) : Prop :=
  ∀ i ∈ e.queuedIds.drop e.nextIdIndex, i.isValid = true

theorem stands_iff {e : IdQueue} : (∃ p, Stands e p) ↔ e.InRange ∧ e.ValidIds := by
  constructor
  · rintro ⟨p, hp⟩
    obtain ⟨hle, hdrop⟩ := IdQueue.pending_eq_some.mp hp
    exact ⟨hle, fun i hi => p.valid i (hdrop ▸ hi)⟩
  · rintro ⟨hle, hv⟩
    exact ⟨⟨_, hv⟩, Vec.rangeFrom_of_le hle⟩

/-- What `unqueue` leaves behind `next_id_index` was behind it before. -/
theorem unqueueMatcher_validIds {e : IdQueue} (hv : e.ValidIds)
    (hit : IdType → Bool) : (e.unqueueMatcher hit).2.ValidIds := by
  unfold IdQueue.unqueueMatcher
  dsimp only
  split
  · exact hv
  · intro i hi
    have hsub : e.queuedIds.filter (fun i => !hit i) =
        e.popped.filter (fun i => !hit i) ++
          (e.queuedIds.drop e.nextIdIndex).filter fun i => !hit i := by
      rw [← List.filter_append, IdQueue.popped, List.take_append_drop]
    have hlen : (e.popped.filter fun i => !hit i).length ≤ e.nextIdIndex :=
      Nat.le_trans (List.length_filter_le _ _) (List.length_take_le _ _)
    dsimp only at hi
    rw [hsub, List.drop_append, List.drop_of_length_le hlen, List.nil_append] at hi
    exact hv i (List.mem_filter.mp (List.mem_of_mem_drop hi)).1

/-- `unqueue` keeps the index in range exactly if it removes at most as many dead ids as it leaves
pending ones. -/
theorem unqueueMatcher_inRange_iff {e : IdQueue} (h : e.InRange) (hit : IdType → Bool) :
    (e.unqueueMatcher hit).2.InRange ↔
      e.popped.countP hit ≤ (e.queuedIds.drop e.nextIdIndex).countP fun i => !hit i := by
  have hlen : (e.queuedIds.filter fun i => !hit i).length =
      e.popped.countP (fun i => !hit i) +
        (e.queuedIds.drop e.nextIdIndex).countP fun i => !hit i := by
    rw [← List.countP_eq_length_filter, ← List.countP_append, IdQueue.popped,
      List.take_append_drop]
  have hpop : e.popped.countP hit + e.popped.countP (fun i => !hit i) = e.nextIdIndex := by
    have hsplit := List.length_eq_countP_add_countP hit (l := e.popped)
    rw [IdQueue.popped, List.length_take, Nat.min_eq_left h] at hsplit
    simpa [IdQueue.popped] using hsplit.symm
  unfold IdQueue.unqueueMatcher IdQueue.InRange
  dsimp only
  split
  · rename_i hnone
    have hzero : e.popped.countP hit = 0 := by
      rw [List.countP_eq_zero]
      intro i hi
      simp [length_filter_not_eq.mp hnone i (List.mem_of_mem_take hi)]
    simp only [hzero, Nat.zero_le, iff_true]
    exact h
  · dsimp only
    omega

/-- From a state that stands for a list, every call is defined, leaves valid ids behind the index,
and leaves the index in range exactly if it fits. -/
theorem applyEvent_spec {e : IdQueue} (h : e.InRange ∧ e.ValidIds) (op : EventOp) :
    ∃ a e', e.applyEvent op = some (a, e') ∧ e'.ValidIds ∧ (e'.InRange ↔ e.UnqueueFits op) := by
  cases op with
  | op op =>
    obtain ⟨p, hp⟩ := stands_iff.mpr h
    obtain ⟨e', he, hp'⟩ := apply_spec hp op
    obtain ⟨hr', hv'⟩ := stands_iff.mp ⟨_, hp'⟩
    exact ⟨_, e', he, hv', by simp [hr', IdQueue.UnqueueFits]⟩
  | unqueue id =>
    exact ⟨_, _, rfl, unqueueMatcher_validIds h.2 (· == id),
      unqueueMatcher_inRange_iff h.1 (· == id)⟩
  | unqueueMatcher matcher =>
    exact ⟨_, _, rfl, unqueueMatcher_validIds h.2 matcher,
      unqueueMatcher_inRange_iff h.1 matcher⟩

/-- **When `next_id_index` stays in range.** It is in range in every state of a run of calls, if and
only if every `unqueue` of the run removes at most as many popped ids as it leaves pending ones.
Such a run is defined to its end: no iterator of it is behind the end, and no size wraps. -/
theorem nextIdIndex_in_range_iff {id : IdType} (h : id.isValid = true) (ops : List EventOp) :
    ∃ e₀, IdQueue.make id = .ok e₀ ∧
      (IdQueue.eventMachine.AllStates IdQueue.InRange e₀ ops ↔
        IdQueue.eventMachine.AllSteps IdQueue.UnqueueFits e₀ ops) ∧
      (IdQueue.eventMachine.AllSteps IdQueue.UnqueueFits e₀ ops →
        ∃ answers e, IdQueue.eventMachine.run e₀ ops = some (answers, e) ∧ e.InRange) := by
  obtain ⟨e₀, hmake, hpend⟩ := IdQueue.make_pending h
  have hinit : e₀.InRange ∧ e₀.ValidIds := stands_iff.mp ⟨.one id h, hpend⟩
  refine ⟨e₀, hmake, ?_, fun hsteps => ?_⟩
  · refine Machine.allStates_iff_allSteps (P := fun e : IdQueue => e.InRange ∧ e.ValidIds)
      (fun _ h => h.1) ?_ ?_ hinit ops
    · intro e op a e' h hst
      obtain ⟨a, e'', he, -, hiff⟩ := applyEvent_spec h op
      cases he.symm.trans hst
      exact hiff
    · intro e op a e' h hst hr
      obtain ⟨a, e'', he, hv, -⟩ := applyEvent_spec h op
      cases he.symm.trans hst
      exact ⟨hr, hv⟩
  · obtain ⟨answers, e, hrun, hr, -⟩ := hsteps.defined
      (P := fun e : IdQueue => e.InRange ∧ e.ValidIds)
      (fun e op h => by
        obtain ⟨a, e', he, hv, hiff⟩ := applyEvent_spec h op
        exact ⟨a, e', he, fun hG => ⟨hiff.mpr hG, hv⟩⟩) hinit
    exact ⟨answers, e, hrun, hr⟩

/-- An event that is queued as another id, popped, and unqueued as the other id. -/
def unqueuedPending : List EventOp :=
  [.op (.queueAs (.single (.ofEnum (.user 0) 2) .discard .atBack 0)), .op .popNextQueuedId,
    .unqueue (.ofEnum (.user 0) 2)]

theorem nextIdIndex_in_range_small :
    IdQueue.eventMachine.AllStates IdQueue.InRange ⟨[.ofEnum (.user 0) 1], 0⟩ unqueuedPending ∧
      ∃ answers e, IdQueue.eventMachine.run ⟨[.ofEnum (.user 0) 1], 0⟩ unqueuedPending =
        some (answers, e) ∧ e.InRange := by
  obtain ⟨e₀, hmake, hiff, hdefined⟩ :=
    nextIdIndex_in_range_iff (show (IdType.ofEnum (.user 0) 1).isValid = true by decide)
      unqueuedPending
  obtain rfl : ⟨[.ofEnum (.user 0) 1], 0⟩ = e₀ := Except.ok.inj hmake
  have hqueued : IdQueue.eventMachine.step ⟨[.ofEnum (.user 0) 1], 0⟩
      (.op (.queueAs (.single (.ofEnum (.user 0) 2) .discard .atBack 0))) =
        some (.results [.queued], ⟨[.ofEnum (.user 0) 1, .ofEnum (.user 0) 2], 0⟩) := by decide
  have hpopped : IdQueue.eventMachine.step ⟨[.ofEnum (.user 0) 1, .ofEnum (.user 0) 2], 0⟩
      (.op .popNextQueuedId) = some (.id (.ofEnum (.user 0) 1),
        ⟨[.ofEnum (.user 0) 1, .ofEnum (.user 0) 2], 1⟩) := by decide
  have hsteps : IdQueue.eventMachine.AllSteps IdQueue.UnqueueFits ⟨[.ofEnum (.user 0) 1], 0⟩
      unqueuedPending := by
    intro o e hst
    rw [hqueued] at hst
    cases hst
    refine ⟨trivial, fun o e hst => ?_⟩
    rw [hpopped] at hst
    cases hst
    exact ⟨trivial, fun _ _ _ => ⟨(by decide : _ ≤ _), trivial⟩⟩
  exact ⟨hiff.mpr hsteps, hdefined hsteps⟩

/-- A new event that is popped and then unqueued as its original id: the vector is empty, and the
index is 1. -/
theorem nextIdIndex_not_in_range :
    ¬ ∀ id e₀ ops answers e, IdQueue.make id = .ok e₀ →
      IdQueue.eventMachine.run e₀ ops = some (answers, e) → e.InRange := by
  intro h
  have hr := h (.ofEnum (.user 0) 1) ⟨[.ofEnum (.user 0) 1], 0⟩
    [.op .popNextQueuedId, .unqueue (.ofEnum (.user 0) 1)]
    [.id (.ofEnum (.user 0) 1), .bool true] ⟨[], 1⟩ (by decide) (by decide)
  exact absurd (show 1 ≤ 0 from hr) (by decide)

end Slirc
