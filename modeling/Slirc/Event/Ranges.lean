import Slirc.Event.Refine

/-!
# Ranges of ids

The range form of `queue_as`, element by element.

* `queueAsRange_block`: the block of new ids, what is left of the old ones, and the result for each
  element.
* `queueAsRange_eq_singles`: if no valid id is repeated, a range is a row of single calls.
* `queueAsRange_interrupted_iff`: the ids that are replaced are added behind the loop, so a callback
  that throws loses them.
-/

namespace Slirc

/-- Single calls of `queue_as`, each with its own spare capacity: the results, and the queue. -/
def IdQueue.queueSingles (strategy : QueuingStrategy) (position : QueuingPosition) :
    IdQueue → List (IdType × Nat) → Option (List QueuingResult × IdQueue)
  | e, [] => some ([], e)
  | e, (id, spare) :: calls => do
    let (result, e) ← e.queueAs id strategy position spare
    let (results, e) ← queueSingles strategy position e calls
    some (result :: results, e)

namespace Pending

/-- Single calls of `queue_as`. -/
def queueSingles (strategy : QueuingStrategy) (position : QueuingPosition) :
    Pending → List IdType → List QueuingResult × Pending
  | p, [] => ([], p)
  | p, id :: ids =>
    let r := p.queueAs id strategy position
    let rest := queueSingles strategy position r.2 ids
    (r.1 :: rest.1, rest.2)

/-! ## The result for each element -/

theorem length_results (p : Pending) (strategy : QueuingStrategy) (seen ids : List IdType) :
    (p.results strategy seen ids).length = ids.length := by
  induction ids generalizing seen with
  | nil => rfl
  | cons id ids ih => simp [results, ih]

theorem results_getElem? (p : Pending) (strategy : QueuingStrategy) (seen ids : List IdType)
    (i : Nat) : (p.results strategy seen ids)[i]? =
      ids[i]?.map (p.result strategy (seen ++ ids.take i)) := by
  induction ids generalizing seen i with
  | nil => rfl
  | cons id ids ih =>
    cases i with
    | zero => simp [results]
    | succ i => simp [results, ih]

/-- When an element gets which result; it is queued otherwise. -/
theorem result_iff (p : Pending) (strategy : QueuingStrategy) (seen : List IdType) (id : IdType) :
    (p.result strategy seen id = .invalid ↔ id.isValid = false) ∧
    (p.result strategy seen id = .discarded ↔ strategy = .discard ∧ id ∈ p.ids) ∧
    (p.result strategy seen id = .replaced ↔ strategy = .replace ∧ id ∈ p.ids ∧ id ∉ seen) := by
  unfold result
  by_cases hv : id.isValid = false
  · have hout : id ∉ p.ids := fun hin => by simp [p.valid id hin] at hv
    simp [hv, hout]
  rw [if_neg hv]
  cases strategy with
  | duplicate => simp [hv]
  | discard => by_cases hin : id ∈ p.ids <;> simp [hv, hin]
  | replace => by_cases hin : id ∈ p.ids ∧ id ∉ seen <;> simp [hv, hin]

/-! ## Single calls -/

/-- No valid id of a call has occurred before, unless duplicates are kept. -/
def Distinct (strategy : QueuingStrategy) (ids : List IdType) : Prop :=
  strategy = .duplicate ∨ (ids.filter (·.isValid)).Nodup

/-- The ids of the calls so far, in the order of their block. -/
def grow (seen : List IdType) (id : IdType) : QueuingPosition → List IdType
  | .atBack => seen ++ [id]
  | .atFront => id :: seen

/-- What is pending after single calls for the ids `seen`. -/
def after (p : Pending) (strategy : QueuingStrategy) (position : QueuingPosition)
    (seen : List IdType) : Pending :=
  (p.kept seen strategy).insert (p.fresh seen strategy) position

theorem mem_after (p : Pending) {strategy : QueuingStrategy} {seen : List IdType} {id : IdType}
    (h : id ∉ seen) (position : QueuingPosition) :
    id ∈ (p.after strategy position seen).ids ↔ id ∈ p.ids := by
  have hfresh : id ∉ (p.fresh seen strategy).ids := by
    cases strategy <;> simp [fresh, h]
  have hkept : id ∈ (p.kept seen strategy).ids ↔ id ∈ p.ids := by
    cases strategy <;> simp [kept, h]
  cases position <;> simp [after, hfresh, hkept]

/-- An invalid id changes nothing. -/
theorem after_invalid (p : Pending) {strategy : QueuingStrategy} {id : IdType}
    (hv : id.isValid = false) (seen : List IdType) (position : QueuingPosition) :
    p.after strategy position (grow seen id position) = p.after strategy position seen := by
  have hkept : p.kept (grow seen id position) strategy = p.kept seen strategy := by
    cases strategy with
    | discard | duplicate => rfl
    | replace =>
      ext1
      refine List.filter_congr fun i hi => ?_
      have hne : i ≠ id := by
        rintro rfl
        simp [p.valid i hi] at hv
      cases position <;> simp [grow, hne]
  have hfresh : p.fresh (grow seen id position) strategy = p.fresh seen strategy := by
    ext1
    cases strategy <;> cases position <;> simp [fresh, grow, hv]
  rw [after, hkept, hfresh]
  rfl

/-- A single call for an id that did not occur before does to the ids that were pending at first
what an element of a range does. -/
theorem queueAs_after (p : Pending) {strategy : QueuingStrategy} {seen : List IdType} {id : IdType}
    (h : strategy = .duplicate ∨ (id.isValid = true → id ∉ seen)) (position : QueuingPosition) :
    (p.after strategy position seen).queueAs id strategy position =
      (p.result strategy [] id, p.after strategy position (grow seen id position)) := by
  by_cases hv : id.isValid = true
  swap
  · have hv : id.isValid = false := by simpa using hv
    rw [p.after_invalid hv]
    simp [queueAs, result, hv]
  cases strategy with
  | duplicate =>
    refine Prod.ext (by simp [queueAs, result, hv]) ?_
    ext1
    cases position <;> simp [queueAs, after, kept, fresh, grow, hv]
  | discard =>
    have hseen : id ∉ seen := (h.resolve_left (by simp)) hv
    by_cases hp : id ∈ p.ids
    · refine Prod.ext (by simp [queueAs, result, hv, p.mem_after hseen, hp]) ?_
      simp only [queueAs, hv, p.mem_after hseen, hp, dite_true, if_true]
      ext1
      cases position <;> simp [after, kept, fresh, grow, hv, hp]
    · refine Prod.ext (by simp [queueAs, result, hv, p.mem_after hseen, hp]) ?_
      simp only [queueAs, hv, p.mem_after hseen, hp, dite_true, if_false]
      ext1
      cases position <;> simp [after, kept, fresh, grow, hv, hp]
  | replace =>
    have hseen : id ∉ seen := (h.resolve_left (by simp)) hv
    refine Prod.ext (by simp [queueAs, result, hv, p.mem_after hseen]) ?_
    ext1
    have hold : (p.ids.filter (decide <| · ∉ seen)).filter (fun i => !(i == id)) =
        p.ids.filter (decide <| · ∉ grow seen id position) := by
      rw [List.filter_filter]
      refine List.filter_congr fun i _ => ?_
      by_cases hi : i = id <;> cases position <;> simp [grow, hi]
    have hnew : (seen.filter (·.isValid)).filter (fun i => !(i == id)) =
        seen.filter (·.isValid) := by
      refine List.filter_eq_self.mpr fun i hi => ?_
      have hne : i ≠ id := by
        rintro rfl
        exact hseen (List.mem_filter.mp hi).1
      simp [hne]
    cases position <;>
      simp only [queueAs, hv, dite_true, after, kept, fresh, ids_insert_atBack, ids_insert_atFront,
        ids_filter, ids_ofList, ids_one, List.filter_append, hold, hnew] <;>
      simp [grow, hv]

theorem Distinct.perm {strategy : QueuingStrategy} {ids ids' : List IdType}
    (h : Distinct strategy ids) (hperm : ids.Perm ids') : Distinct strategy ids' :=
  h.imp_right fun hnodup => (hperm.filter _).nodup_iff.mp hnodup

/-- The next id did not occur before. -/
theorem Distinct.next {strategy : QueuingStrategy} {seen ids : List IdType} {id : IdType}
    (h : Distinct strategy (seen ++ id :: ids)) :
    strategy = .duplicate ∨ (id.isValid = true → id ∉ seen) := by
  refine h.imp_right fun hnodup hv hin => ?_
  rw [List.filter_append, List.filter_cons_of_pos hv] at hnodup
  exact (List.nodup_append.mp hnodup).2.2 id (List.mem_filter.mpr ⟨hin, hv⟩) id
    List.mem_cons_self rfl

theorem queueSingles_after (p : Pending) {strategy : QueuingStrategy} {seen ids : List IdType}
    (h : Distinct strategy (seen ++ ids)) (position : QueuingPosition) :
    queueSingles strategy position (p.after strategy position seen) ids =
      (ids.map (p.result strategy []),
        p.after strategy position (ids.foldl (grow · · position) seen)) := by
  induction ids generalizing seen with
  | nil => rfl
  | cons id ids ih =>
    have hperm : (seen ++ id :: ids).Perm (grow seen id position ++ ids) := by
      cases position with
      | atBack => simp [grow]
      | atFront => exact List.perm_middle
    simp only [queueSingles, p.queueAs_after h.next position, ih (h.perm hperm), List.map_cons,
      List.foldl_cons]

/-- The elements of a range do not see each other. -/
theorem results_eq_map (p : Pending) {strategy : QueuingStrategy} {seen ids : List IdType}
    (h : Distinct strategy (seen ++ ids)) :
    p.results strategy seen ids = ids.map (p.result strategy []) := by
  induction ids generalizing seen with
  | nil => rfl
  | cons id ids ih =>
    have hhead : p.result strategy seen id = p.result strategy [] id := by
      by_cases hv : id.isValid = false
      · simp [result, hv]
      rcases h.next with rfl | hnext
      · rfl
      · cases strategy <;> simp [result, hnext (by simpa using hv)]
    rw [results, hhead, ih (by simpa using h), List.map_cons]

theorem after_nil (p : Pending) (strategy : QueuingStrategy) (position : QueuingPosition) :
    p.after strategy position [] = p := by
  ext1
  cases strategy <;> cases position <;> simp [after, kept, fresh]

theorem foldl_grow (seen ids : List IdType) (position : QueuingPosition) :
    ids.foldl (grow · · position) seen =
      match position with | .atBack => seen ++ ids | .atFront => ids.reverse ++ seen := by
  induction ids generalizing seen with
  | nil => cases position <;> simp
  | cons id ids ih =>
    rw [List.foldl_cons, ih]
    cases position <;> simp [grow]

/-- A range without repeated ids is a row of single calls, in order at the back and in reverse order
at the front. -/
theorem singles_eq_range (p : Pending) {strategy : QueuingStrategy} {ids : List IdType}
    (h : Distinct strategy ids) :
    queueSingles strategy .atBack p ids = p.queueAsRange ids strategy .atBack ∧
    queueSingles strategy .atFront p ids.reverse =
      ((p.queueAsRange ids strategy .atFront).1.reverse,
        (p.queueAsRange ids strategy .atFront).2) := by
  have hids : Distinct strategy ([] ++ ids) := h
  have hrev : Distinct strategy ([] ++ ids.reverse) := h.perm ids.reverse_perm.symm
  have hback := p.queueSingles_after hids .atBack
  have hfront := p.queueSingles_after hrev .atFront
  rw [after_nil, foldl_grow] at hback hfront
  rw [hback, hfront]
  simp [queueAsRange, p.results_eq_map hids, after]

end Pending

namespace IdQueue

theorem queueAs_spec {e : IdQueue} {p : Pending} (h : e.pending = some p.ids) (id : IdType)
    (strategy : QueuingStrategy) (position : QueuingPosition) (spare : Nat) :
    ∃ e', e.queueAs id strategy position spare = some ((p.queueAs id strategy position).1, e') ∧
      e'.pending = some (p.queueAs id strategy position).2.ids := by
  obtain ⟨e', he, hp⟩ := call_spec h (.single id strategy position spare)
  obtain ⟨⟨result, queue⟩, hr, heq⟩ := Option.map_eq_some_iff.mp he
  simp only [Pending.call, Prod.mk.injEq, List.cons.injEq, and_true] at heq
  obtain ⟨rfl, rfl⟩ := heq
  exact ⟨queue, hr, hp⟩

theorem queueSingles_spec {e : IdQueue} {p : Pending} (h : e.pending = some p.ids)
    (strategy : QueuingStrategy) (position : QueuingPosition) (calls : List (IdType × Nat)) :
    ∃ e', e.queueSingles strategy position calls =
        some ((p.queueSingles strategy position (calls.map Prod.fst)).1, e') ∧
      e'.pending = some (p.queueSingles strategy position (calls.map Prod.fst)).2.ids := by
  induction calls generalizing e p with
  | nil => exact ⟨e, rfl, h⟩
  | cons call calls ih =>
    obtain ⟨id, spare⟩ := call
    obtain ⟨e₁, he₁, hp₁⟩ := queueAs_spec h id strategy position spare
    obtain ⟨e₂, he₂, hp₂⟩ := ih hp₁
    refine ⟨e₂, ?_, hp₂⟩
    simp only [queueSingles, he₁, he₂, Option.bind_eq_bind, Option.bind_some]
    rfl

/-! ## Ranges without interruption -/

/-- **What a range leaves pending**: a block of new ids in the order of the range, at its end of
what is left of the old ones. Each element has its result. -/
theorem queueAsRange_block {e : IdQueue} {p : Pending} (h : e.pending = some p.ids)
    (ids : List IdType) (strategy : QueuingStrategy) (position : QueuingPosition) (spare : Nat) :
    ∃ results e' new kept,
      e.queueAsRange ids strategy position (fun _ _ => true) spare =
        some ((results, false), e') ∧
      e'.pending =
        some (match position with | .atFront => new ++ kept | .atBack => kept ++ new) ∧
      (match strategy with
        | .duplicate => new = ids.filter (·.isValid) ∧ kept = p.ids
        | .discard =>
          new = ids.filter (fun id => id.isValid && decide (id ∉ p.ids)) ∧ kept = p.ids
        | .replace =>
          new = ids.filter (·.isValid) ∧ kept = p.ids.filter fun id => decide (id ∉ ids)) ∧
      results.length = ids.length ∧
      ∀ i (hi : i < ids.length), ∃ r, results[i]? = some r ∧
        (r = .invalid ↔ ids[i].isValid = false) ∧
        (r = .discarded ↔ strategy = .discard ∧ ids[i] ∈ p.ids) ∧
        (r = .replaced ↔ strategy = .replace ∧ ids[i] ∈ p.ids ∧ ids[i] ∉ ids.take i) := by
  obtain ⟨e', he, hp⟩ := queueAsRange_spec h ids strategy position spare
  refine ⟨_, e', (p.fresh ids strategy).ids, (p.kept ids strategy).ids, he, ?_, ?_,
    p.length_results strategy [] ids, fun i hi => ?_⟩
  · rw [hp]
    cases position <;> rfl
  · cases strategy with
    | duplicate | replace => exact ⟨rfl, rfl⟩
    | discard =>
      refine ⟨?_, rfl⟩
      simp only [Pending.fresh, Pending.ids_filter, Pending.ids_ofList, List.filter_filter]
      exact List.filter_congr fun id _ => Bool.and_comm _ _
  · refine ⟨p.result strategy (ids.take i) ids[i], ?_, p.result_iff strategy (ids.take i) ids[i]⟩
    have hres := p.results_getElem? strategy [] ids i
    rw [List.getElem?_eq_getElem hi] at hres
    exact hres

/-- **A range is a row of single calls**, if no valid id is repeated or duplicates are kept: at the
back in order, and at the front in reverse order. -/
theorem queueAsRange_eq_singles {e : IdQueue} {p : Pending} (h : e.pending = some p.ids)
    {ids : List IdType} {strategy : QueuingStrategy}
    (hdistinct : strategy = .duplicate ∨ (ids.filter (·.isValid)).Nodup) (spare : Nat) :
    (∀ calls : List (IdType × Nat), calls.map Prod.fst = ids → ∃ results e₁ e₂ pending,
      e.queueAsRange ids strategy .atBack (fun _ _ => true) spare = some ((results, false), e₁) ∧
      e.queueSingles strategy .atBack calls = some (results, e₂) ∧
      e₁.pending = some pending ∧ e₂.pending = some pending) ∧
    ∀ calls : List (IdType × Nat), calls.map Prod.fst = ids.reverse → ∃ results e₁ e₂ pending,
      e.queueAsRange ids strategy .atFront (fun _ _ => true) spare = some ((results, false), e₁) ∧
      e.queueSingles strategy .atFront calls = some (results.reverse, e₂) ∧
      e₁.pending = some pending ∧ e₂.pending = some pending := by
  obtain ⟨hback, hfront⟩ := p.singles_eq_range hdistinct
  constructor
  · intro calls hcalls
    obtain ⟨e₁, he₁, hp₁⟩ := queueAsRange_spec h ids strategy .atBack spare
    obtain ⟨e₂, he₂, hp₂⟩ := queueSingles_spec h strategy .atBack calls
    rw [hcalls, hback] at he₂ hp₂
    exact ⟨_, e₁, e₂, _, he₁, he₂, hp₁, hp₂⟩
  · intro calls hcalls
    obtain ⟨e₁, he₁, hp₁⟩ := queueAsRange_spec h ids strategy .atFront spare
    obtain ⟨e₂, he₂, hp₂⟩ := queueSingles_spec h strategy .atFront calls
    rw [hcalls, hfront] at he₂ hp₂
    exact ⟨_, e₁, e₂, _, he₁, he₂, hp₁, hp₂⟩

/-! ## Interrupted ranges -/

/-- The loop goes to the end of the range, or stops behind the first element for which the callback
throws. -/
theorem prepareRange_stops {p : Pending} {strategy : QueuingStrategy} {seen : List IdType}
    {l : RangeLoop} (h : LoopInv p strategy seen l) (callback : Nat → QueuingResult → Bool)
    (ids : List IdType) :
    ∃ l', prepareRange callback strategy l ids = some l' ∧
      (LoopInv p strategy (seen ++ ids) l' ∨
        l'.threw = true ∧ ∃ n, l'.results.length = seen.length + (n + 1) ∧
          l'.queue.pending = some (p.kept (seen ++ ids.take (n + 1)) strategy).ids) := by
  induction ids generalizing seen l with
  | nil => exact ⟨l, rfl, .inl (by simpa using h)⟩
  | cons id ids ih =>
    obtain ⟨e', hprep, hnext⟩ := h.next id
    by_cases hc : callback l.results.length (p.result strategy seen id) = true
    · obtain ⟨l', hl', hend⟩ := ih hnext
      refine ⟨l', ?_, ?_⟩
      · simp only [prepareRange, hprep, Option.bind_eq_bind, Option.bind_some, if_pos hc, hl']
      · rcases hend with hinv | ⟨hthrew, n, hn, hp⟩
        · exact .inl (by simpa using hinv)
        · refine .inr ⟨hthrew, n + 1, ?_, by simpa using hp⟩
          rw [hn, List.length_append, List.length_singleton]
          omega
    · refine ⟨⟨e', l.addIds ++ added (p.kept seen strategy).ids id strategy,
        l.results ++ [p.result strategy seen id], true⟩, ?_, .inr ⟨rfl, 0, ?_, hnext.pending⟩⟩
      · simp only [prepareRange, hprep, Option.bind_eq_bind, Option.bind_some, if_neg hc]
      · have hlen := congrArg List.length hnext.results
        rw [p.length_results] at hlen
        simpa using hlen

/-- **A callback that throws loses no pending id, exactly if it is not the replace strategy that
interrupts it**, or none of the elements up to the one it throws for was pending. -/
theorem queueAsRange_interrupted_iff {e : IdQueue} {p : Pending} (h : e.pending = some p.ids)
    (ids : List IdType) (strategy : QueuingStrategy) (position : QueuingPosition)
    (callback : Nat → QueuingResult → Bool) (spare : Nat) :
    ∃ results threw e' pending,
      e.queueAsRange ids strategy position callback spare = some ((results, threw), e') ∧
      e'.pending = some pending ∧
      (threw = true → ∀ n, results.length = n + 1 →
        ((∀ id ∈ p.ids, id ∈ pending) ↔
          (strategy = .replace → ∀ id ∈ ids.take (n + 1), id ∉ p.ids))) := by
  obtain ⟨l, hl, hinv | ⟨hthrew, n, hn, hp⟩⟩ :=
    prepareRange_stops (.init h strategy) callback ids
  · obtain ⟨e', happ, hpend⟩ := append_spec hinv.pending spare l.addIds position
    refine ⟨l.results, l.threw, e', _, ?_, hpend, fun hthrew => ?_⟩
    · simp [queueAsRange, hl, hinv.returned, happ]
    · rw [hinv.returned] at hthrew
      cases hthrew
  · refine ⟨l.results, l.threw, l.queue, _, by simp [queueAsRange, hl, hthrew], hp, ?_⟩
    intro _ m hm
    obtain rfl : m = n := by
      rw [List.length_nil] at hn
      omega
    rw [List.nil_append] at *
    cases strategy with
    | discard | duplicate => simp [Pending.kept]
    | replace =>
      simp only [Pending.kept, Pending.ids_filter, List.mem_filter, decide_eq_true_eq, true_imp_iff]
      exact ⟨fun hkept id hin hp => (hkept id hp).2 hin, fun hout id hp => ⟨hp, fun hin =>
        hout id hin hp⟩⟩

/-! ## An event with a popped prefix -/

/-- An event that was queued as two ids and popped once. -/
def queuedOnce : IdQueue := ⟨[.ofEnum (.user 0) 1, .ofEnum (.user 0) 2], 1⟩

def pendingOnce : Pending := .one (.ofEnum (.user 0) 2) rfl

theorem queueAsRange_block_queuedOnce :
    ∃ results e' new kept,
      queuedOnce.queueAsRange [.ofEnum (.user 0) 2, .ofEnum (.user 0) 3] .replace .atFront
        (fun _ _ => true) 0 = some ((results, false), e') ∧
      e'.pending = some (new ++ kept) ∧ new = [.ofEnum (.user 0) 2, .ofEnum (.user 0) 3] ∧
      kept = [] ∧ results.length = 2 := by
  obtain ⟨results, e', new, kept, he, hp, hblock, hlen, -⟩ :=
    queueAsRange_block (e := queuedOnce) (p := pendingOnce) rfl
      [.ofEnum (.user 0) 2, .ofEnum (.user 0) 3] .replace .atFront 0
  exact ⟨results, e', new, kept, he, hp, hblock.1, hblock.2, hlen⟩

theorem queueAsRange_eq_singles_queuedOnce :
    ∃ results e₁ e₂ pending,
      queuedOnce.queueAsRange [.ofEnum (.user 0) 2, .ofEnum (.user 0) 3] .replace .atFront
        (fun _ _ => true) 0 = some ((results, false), e₁) ∧
      queuedOnce.queueSingles .replace .atFront
        [(.ofEnum (.user 0) 3, 0), (.ofEnum (.user 0) 2, 5)] = some (results.reverse, e₂) ∧
      e₁.pending = some pending ∧ e₂.pending = some pending :=
  (queueAsRange_eq_singles (e := queuedOnce) (p := pendingOnce) rfl (.inr (by decide)) 0).2 _ rfl

theorem queueAsRange_interrupted_queuedOnce :
    ∃ results threw e' pending,
      queuedOnce.queueAsRange [.ofEnum (.user 0) 3] .replace .atBack (fun _ _ => false) 0 =
        some ((results, threw), e') ∧
      e'.pending = some pending ∧
      (threw = true → ∀ n, results.length = n + 1 →
        ((∀ id ∈ pendingOnce.ids, id ∈ pending) ↔
          (QueuingStrategy.replace = .replace →
            ∀ id ∈ [IdType.ofEnum (.user 0) 3].take (n + 1), id ∉ pendingOnce.ids))) :=
  queueAsRange_interrupted_iff (e := queuedOnce) rfl _ _ _ _ _

/-- A callback that throws for the id that was just replaced: nothing is pending. -/
theorem queueAsRange_interrupted_loses :
    queuedOnce.pending = some [.ofEnum (.user 0) 2] ∧
      queuedOnce.queueAsRange [.ofEnum (.user 0) 2] .replace .atBack (fun _ _ => false) 0 =
        some (([.replaced], true), ⟨[.ofEnum (.user 0) 1], 1⟩) ∧
      pending ⟨[.ofEnum (.user 0) 1], 1⟩ = some [] := by
  decide

end IdQueue

end Slirc
