import Slirc.Event.Pending
import Slirc.Lib.Machine

/-!
# The id queue refines the list of pending ids

`e.pending = some p.ids` relates a vector with its dead prefix (`IdQueue`) to the plain list
(`Pending`). Each operation has one lemma: from related states it is defined, gives the answer of
the list, and ends in related states, whatever the capacity and the dead prefix are. The runs of
the two machines then agree (`queue_refines_pending`).
-/

namespace Slirc

namespace IdQueue

theorem pending_eq_some {e : IdQueue} {ids : List IdType} :
    e.pending = some ids ↔
      e.nextIdIndex ≤ e.queuedIds.length ∧ e.queuedIds.drop e.nextIdIndex = ids :=
  Vec.rangeFrom_eq_some

/-- `pending` where `next_id_index` is in range: the vector is the dead ids and the pending ones. -/
theorem queuedIds_eq {e : IdQueue} {ids : List IdType} (h : e.pending = some ids) :
    e.queuedIds = e.popped ++ ids := by
  obtain ⟨-, hdrop⟩ := pending_eq_some.mp h
  rw [popped, ← hdrop, List.take_append_drop]

theorem length_popped {e : IdQueue} {ids : List IdType} (h : e.pending = some ids) :
    e.popped.length = e.nextIdIndex := by
  obtain ⟨hle, -⟩ := pending_eq_some.mp h
  rw [popped, List.length_take, Nat.min_eq_left hle]

theorem make_pending {id : IdType} (h : id.isValid = true) :
    ∃ e, make id = .ok e ∧ e.pending = some [id] :=
  ⟨⟨[id], 0⟩, by simp [make, h], by simp [pending]⟩

/-! ## Storing new ids -/

/-- A vector of dead ids and the ids pending behind them. -/
theorem pending_append {dead : List IdType} {n : Nat} (hn : dead.length = n) (ids : List IdType) :
    pending ⟨dead ++ ids, n⟩ = some ids := by
  subst hn
  exact Vec.rangeFrom_append dead ids

/-- **All four storage paths store the new ids at their end of the pending ones.** -/
theorem append_spec {e : IdQueue} {ids : List IdType} (h : e.pending = some ids) (spare : Nat)
    (add : List IdType) (position : QueuingPosition) :
    ∃ e', e.appendToQueueUnchecked spare add position = some e' ∧
      e'.pending = some (match position with | .atFront => add ++ ids | .atBack => ids ++ add) := by
  have hrange : Vec.rangeFrom e.queuedIds e.nextIdIndex = some ids := h
  obtain ⟨hle, hdrop⟩ := pending_eq_some.mp h
  have hlen : ids.length = e.queuedIds.length - e.nextIdIndex := by rw [← hdrop]; simp
  unfold appendToQueueUnchecked
  by_cases hadd : add = []
  · exact ⟨e, by simp [hadd], by cases position <;> simp [hadd, h]⟩
  rw [if_neg hadd]
  cases position with
  | atFront =>
    by_cases hroom : add.length ≤ e.nextIdIndex
    · -- the new ids overwrite the last dead ones
      let dead := e.queuedIds.take (e.nextIdIndex - add.length)
      refine ⟨⟨dead ++ (add ++ ids), e.nextIdIndex - add.length⟩, ?_, ?_⟩
      · simp only [hroom, ↓reduceIte, Vec.copyTo_front hle hroom, hdrop, Option.bind_eq_bind,
          Option.bind_some, List.append_assoc, dead]
      · exact pending_append (by simp [dead]; omega) _
    · -- the pending ids are copied behind the new ones
      have hsub : Vec.sub (add.length + e.queuedIds.length) e.nextIdIndex =
          some (add.length + ids.length) := by
        rw [Vec.sub_of_le (by omega)]
        congr 1
        omega
      refine ⟨⟨add ++ ids, 0⟩, ?_, by simp [pending]⟩
      simp only [hroom, ↓reduceIte, hsub, hrange, Option.bind_eq_bind, Option.bind_some,
        Vec.copyTo_resize]
  | atBack =>
    simp only [Vec.sub_of_le (Nat.le_add_right _ _), Option.bind_eq_bind]
    by_cases hfull :
        0 < e.nextIdIndex ∧ e.queuedIds.length + spare - e.queuedIds.length < add.length
    · -- the pending ids are copied to the beginning first
      have hfits : ids.length ≤ e.queuedIds.length := by omega
      obtain ⟨w, hw⟩ := Vec.copyTo_zero_isSome hfits
      refine ⟨⟨ids ++ add, 0⟩, ?_, by simp [pending]⟩
      simp only [Option.bind_some, if_pos hfull, hrange, hw, Vec.resize_copyTo_zero _ hw]
    · refine ⟨{ e with queuedIds := e.queuedIds ++ add }, ?_, ?_⟩
      · simp only [Option.bind_some, if_neg hfull]
      rw [queuedIds_eq h, List.append_assoc]
      exact pending_append (length_popped h) _

/-! ## Queueing -/

/-- What `prepare_append_queue` leaves pending. -/
def prepared (ids : List IdType) (id : IdType) : QueuingStrategy → List IdType
  | .replace => if id.isValid then ids.filter (fun x => !(x == id)) else ids
  | .discard | .duplicate => ids

/-- The ids that `prepare_append_queue` adds. -/
def added (ids : List IdType) (id : IdType) : QueuingStrategy → List IdType
  | .discard => if id.isValid ∧ id ∉ ids then [id] else []
  | .replace | .duplicate => if id.isValid then [id] else []

/-- The result of `prepare_append_queue`. -/
def outcome (ids : List IdType) (id : IdType) (strategy : QueuingStrategy) : QueuingResult :=
  if id.isValid = false then .invalid
  else
    match strategy with
    | .duplicate => .queued
    | .discard => if id ∈ ids then .discarded else .queued
    | .replace => if id ∈ ids then .replaced else .queued

theorem prepare_spec {e : IdQueue} {ids : List IdType} (h : e.pending = some ids)
    (add : List IdType) (id : IdType) (strategy : QueuingStrategy) :
    ∃ e', e.prepareAppendQueue add id strategy =
        some (outcome ids id strategy, e', add ++ added ids id strategy) ∧
      e'.pending = some (prepared ids id strategy) := by
  unfold prepareAppendQueue outcome
  by_cases hv : id.isValid = true
  swap
  · have hv : id.isValid = false := by simpa using hv
    exact ⟨e, by cases strategy <;> simp [hv, added], by cases strategy <;> simp [hv, h, prepared]⟩
  simp only [hv, Bool.true_eq_false, ↓reduceIte]
  cases strategy with
  | duplicate => exact ⟨e, by simp [added, hv], by simp [prepared, h]⟩
  | discard =>
    refine ⟨e, ?_, by simp [prepared, h]⟩
    rw [show Vec.rangeFrom e.queuedIds e.nextIdIndex = some ids from h]
    by_cases hmem : id ∈ ids <;> simp [added, hv, hmem]
  | replace =>
    obtain ⟨hle, hdrop⟩ := pending_eq_some.mp h
    have hrem := Vec.removeFrom_of_le hle (· == id)
    have hlen := Vec.length_removeFrom hrem
    rw [hdrop] at hrem hlen
    have hany : (∀ x ∈ ids, (x == id) = false) ↔ id ∉ ids := by
      simp only [beq_eq_false_iff_ne, ne_eq]
      exact ⟨fun hx hm => hx id hm rfl, fun hm x hx hxe => hm (hxe ▸ hx)⟩
    simp only [hrem, Option.bind_eq_bind, Option.bind_some, ne_eq, hlen, hany, not_not]
    by_cases hmem : id ∈ ids
    · refine ⟨⟨e.popped ++ ids.filter (fun x => !(x == id)), e.nextIdIndex⟩, ?_, ?_⟩
      · simp [added, hv, hmem, popped]
      · rw [pending_append (length_popped h), prepared, if_pos hv]
    · refine ⟨e, by simp [added, hv, hmem], ?_⟩
      rw [h, prepared, if_pos hv, List.filter_eq_self.mpr]
      intro x hx
      have hne : x ≠ id := by rintro rfl; exact hmem hx
      simp [hne]

/-! ## Ranges -/

theorem results_append (p : Pending) (strategy : QueuingStrategy) (seen ids rest : List IdType) :
    p.results strategy seen (ids ++ rest) =
      p.results strategy seen ids ++ p.results strategy (seen ++ ids) rest := by
  induction ids generalizing seen with
  | nil => simp [Pending.results]
  | cons id ids ih => simp [Pending.results, ih]

theorem outcome_kept (p : Pending) (strategy : QueuingStrategy) (seen : List IdType)
    (id : IdType) : outcome (p.kept seen strategy).ids id strategy = p.result strategy seen id := by
  cases strategy with
  | discard | duplicate => rfl
  | replace => simp [outcome, Pending.result, Pending.kept]

theorem kept_snoc (p : Pending) (strategy : QueuingStrategy) (seen : List IdType) (id : IdType) :
    prepared (p.kept seen strategy).ids id strategy = (p.kept (seen ++ [id]) strategy).ids := by
  cases strategy with
  | discard | duplicate => rfl
  | replace =>
    have hsplit : ∀ i ∈ p.ids, decide (i ∉ seen ++ [id]) =
        (decide (i ∉ seen) && (!id.isValid || !(i == id))) := by
      intro i hi
      by_cases hie : i = id
      · subst hie
        simp [p.valid i hi]
      · simp [hie]
    simp only [prepared, Pending.kept, Pending.ids_filter]
    rw [List.filter_congr hsplit, ← List.filter_filter]
    by_cases hv : id.isValid = true
    · simp [hv, List.filter_filter, Bool.and_comm]
    · simp [hv]

theorem fresh_snoc (p : Pending) (strategy : QueuingStrategy) (seen : List IdType) (id : IdType) :
    (p.fresh seen strategy).ids ++ added (p.kept seen strategy).ids id strategy =
      (p.fresh (seen ++ [id]) strategy).ids := by
  cases strategy with
  | duplicate | replace => by_cases hv : id.isValid = true <;> simp [Pending.fresh, added, hv]
  | discard =>
    by_cases hv : id.isValid = true <;> by_cases hp : id ∈ p.ids <;>
      simp [Pending.fresh, Pending.kept, added, hv, hp]

/-- The loop of the range form after the elements `seen`. -/
structure LoopInv (p : Pending) (strategy : QueuingStrategy) (seen : List IdType) (l : RangeLoop) :
    Prop where
  pending : l.queue.pending = some (p.kept seen strategy).ids
  addIds : l.addIds = (p.fresh seen strategy).ids
  results : l.results = p.results strategy [] seen
  returned : l.threw = false

theorem LoopInv.init {e : IdQueue} {p : Pending} (h : e.pending = some p.ids)
    (strategy : QueuingStrategy) :
    LoopInv p strategy [] { queue := e, addIds := [], results := [], threw := false } := by
  refine ⟨?_, ?_, rfl, rfl⟩
  · cases strategy <;> simp [Pending.kept, h]
  · cases strategy <;> simp [Pending.fresh]

/-- One element, for which the callback returns. -/
theorem LoopInv.next {p : Pending} {strategy : QueuingStrategy} {seen : List IdType}
    {l : RangeLoop} (h : LoopInv p strategy seen l) (id : IdType) :
    ∃ e', l.queue.prepareAppendQueue l.addIds id strategy =
        some (p.result strategy seen id, e',
          l.addIds ++ added (p.kept seen strategy).ids id strategy) ∧
      LoopInv p strategy (seen ++ [id])
        { queue := e', addIds := l.addIds ++ added (p.kept seen strategy).ids id strategy,
          results := l.results ++ [p.result strategy seen id], threw := false } := by
  obtain ⟨e', hprep, hpend⟩ := prepare_spec h.pending l.addIds id strategy
  rw [outcome_kept] at hprep
  refine ⟨e', hprep, by rw [hpend, kept_snoc], by rw [h.addIds, fresh_snoc], ?_, rfl⟩
  rw [h.results, results_append]
  rfl

/-- **The loop collects the block of new ids and edits the old ones in place.** Later elements do
not see the ids collected before them. -/
theorem prepareRange_spec {p : Pending} {strategy : QueuingStrategy} {seen : List IdType}
    {l : RangeLoop} (h : LoopInv p strategy seen l) (ids : List IdType) :
    ∃ l', prepareRange (fun _ _ => true) strategy l ids = some l' ∧
      LoopInv p strategy (seen ++ ids) l' := by
  induction ids generalizing seen l with
  | nil => exact ⟨l, rfl, by simpa using h⟩
  | cons id ids ih =>
    obtain ⟨e', hprep, hnext⟩ := h.next id
    obtain ⟨l', hl', hinv⟩ := ih hnext
    refine ⟨l', ?_, by simpa using hinv⟩
    simp only [prepareRange, hprep, Option.bind_eq_bind, Option.bind_some, ↓reduceIte, hl']

theorem queueAsRange_spec {e : IdQueue} {p : Pending} (h : e.pending = some p.ids)
    (ids : List IdType) (strategy : QueuingStrategy) (position : QueuingPosition) (spare : Nat) :
    ∃ e', e.queueAsRange ids strategy position (fun _ _ => true) spare =
        some (((p.queueAsRange ids strategy position).1, false), e') ∧
      e'.pending = some (p.queueAsRange ids strategy position).2.ids := by
  obtain ⟨l, hl, hinv⟩ := prepareRange_spec (.init h strategy) ids
  obtain ⟨e', happ, hpend⟩ := append_spec hinv.pending spare l.addIds position
  refine ⟨e', ?_, ?_⟩
  · simp [queueAsRange, hl, hinv.returned, happ, hinv.results, Pending.queueAsRange]
  · rw [hpend, hinv.addIds]
    cases position <;> simp [Pending.queueAsRange]

/-- The single form runs the code of the range form on one id. -/
theorem call_single (e : IdQueue) (id : IdType) (strategy : QueuingStrategy)
    (position : QueuingPosition) (spare : Nat) :
    e.call (.single id strategy position spare) = e.call (.range [id] strategy position spare) := by
  simp only [call, queueAs, queueAsRange, prepareRange, List.nil_append]
  cases e.prepareAppendQueue [] id strategy with
  | none => rfl
  | some r =>
    obtain ⟨result, e', addIds⟩ := r
    by_cases hadd : addIds = []
    · simp [hadd, appendToQueueUnchecked]
    · cases happ : e'.appendToQueueUnchecked spare addIds position <;> simp [hadd, happ]

/-- **`queue_as`, single or with a range, acts on the list of pending ids.** -/
theorem call_spec {e : IdQueue} {p : Pending} (h : e.pending = some p.ids) (c : QueueCall) :
    ∃ e', e.call c = some ((p.call c).1, e') ∧ e'.pending = some (p.call c).2.ids := by
  cases c with
  | range ids strategy position spare =>
    obtain ⟨e', he, hp⟩ := queueAsRange_spec h ids strategy position spare
    exact ⟨e', by simp [call, he, Pending.call], hp⟩
  | single id strategy position spare =>
    obtain ⟨e', he, hp⟩ := queueAsRange_spec h [id] strategy position spare
    rw [Pending.queueAs_eq_range] at he hp
    refine ⟨e', ?_, hp⟩
    rw [call_single, call, he]
    rfl

/-! ## The other operations -/

theorem pop_spec {e : IdQueue} {p : Pending} (h : e.pending = some p.ids) :
    e.popNextQueuedId.1 = p.pop.1 ∧ e.popNextQueuedId.2.pending = some p.pop.2.ids := by
  obtain ⟨hle, hdrop⟩ := pending_eq_some.mp h
  obtain ⟨ids, hv⟩ := p
  unfold popNextQueuedId
  by_cases hlt : e.nextIdIndex < e.queuedIds.length
  · rw [List.drop_eq_getElem_cons hlt] at hdrop
    rw [dif_pos hlt]
    cases ids with
    | nil => cases hdrop
    | cons id ids =>
      obtain ⟨hid, hids⟩ := List.cons.inj hdrop
      exact ⟨hid, pending_eq_some.mpr ⟨hlt, hids⟩⟩
  · rw [List.drop_of_length_le (by omega)] at hdrop
    subst hdrop
    rw [dif_neg hlt]
    exact ⟨rfl, h⟩

theorem isQueuedAs_spec {e : IdQueue} {ids : List IdType} (h : e.pending = some ids)
    (id : IdType) : e.isQueuedAs id = some (decide (id ∈ ids)) := by
  rw [isQueuedAs, show Vec.rangeFrom e.queuedIds e.nextIdIndex = some ids from h]
  rfl

theorem isQueuedAsMatcher_spec {e : IdQueue} {p : Pending} (h : e.pending = some p.ids)
    (matcher : List IdType → IdType → Bool) :
    e.isQueuedAsMatcher matcher = some (p.isQueuedAsMatcher matcher) := by
  rw [isQueuedAsMatcher, show Vec.rangeFrom e.queuedIds e.nextIdIndex = some p.ids from h]
  show some (Vec.findIf matcher [] p.ids) = some (p.isQueuedAsMatcher matcher)
  rw [Vec.findIf_eq]
  unfold Pending.isQueuedAsMatcher
  cases (List.range p.ids.length).find? (Vec.acceptsAt matcher p.ids) <;> rfl

end IdQueue

end Slirc
