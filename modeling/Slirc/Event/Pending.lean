import Slirc.Event.Queue

/-!
# The pending ids as a plain list

What the id queue of an event is for, without vectors: a list of valid ids (`Pending`), to which
ids are added in front or behind under a strategy, and whose head is popped. A value of `Pending`
cannot hold an invalid id.

The range form differs from repeated single calls: the new ids form one block in range order
(`fresh`), and the strategy looks only at the ids that were pending before (`kept`, `result`).
-/

namespace Slirc

/-- The ids that an event is still to be handled as, in order. -/
structure Pending where
  ids : List IdType
  valid : ∀ id ∈ ids, id.isValid = true

namespace Pending

@[ext] theorem ext {p q : Pending} (h : p.ids = q.ids) : p = q := by
  cases p
  cases q
  cases h
  rfl

/-- A single id. -/
def one (id : IdType) (h : id.isValid = true) : Pending := ⟨[id], by simpa using h⟩

/-- The valid ones of some ids. -/
def ofList (ids : List IdType) : Pending :=
  ⟨ids.filter (·.isValid), fun _ h => (List.mem_filter.mp h).2⟩

/-- The pending ids that `f` accepts. -/
def filter (p : Pending) (f : IdType → Bool) : Pending :=
  ⟨p.ids.filter f, fun id h => p.valid id (List.mem_filter.mp h).1⟩

/-- A block of new ids in front of the pending ones, or behind them. -/
def insert (p new : Pending) : QueuingPosition → Pending
  | .atFront => ⟨new.ids ++ p.ids, by
      intro id h
      exact (List.mem_append.mp h).elim (new.valid id) (p.valid id)⟩
  | .atBack => ⟨p.ids ++ new.ids, by
      intro id h
      exact (List.mem_append.mp h).elim (p.valid id) (new.valid id)⟩

/-- A single `queue_as`. -/
def queueAs (p : Pending) (id : IdType) (strategy : QueuingStrategy) (position : QueuingPosition) :
    QueuingResult × Pending :=
  if h : id.isValid = true then
    match strategy with
    | .duplicate => (.queued, p.insert (one id h) position)
    | .discard =>
      if id ∈ p.ids then (.discarded, p) else (.queued, p.insert (one id h) position)
    | .replace =>
      (if id ∈ p.ids then .replaced else .queued,
        (p.filter fun i => !(i == id)).insert (one id h) position)
  else (.invalid, p)

/-- What a range leaves of the ids that were pending before. -/
def kept (p : Pending) (ids : List IdType) : QueuingStrategy → Pending
  | .replace => p.filter fun id => decide (id ∉ ids)
  | .discard | .duplicate => p

/-- The block of new ids of a range. -/
def fresh (p : Pending) (ids : List IdType) : QueuingStrategy → Pending
  | .discard => (ofList ids).filter fun id => decide (id ∉ p.ids)
  | .replace | .duplicate => ofList ids

/-- The result for an id of a range that comes after the ids `seen`. -/
def result (p : Pending) (strategy : QueuingStrategy) (seen : List IdType) (id : IdType) :
    QueuingResult :=
  if id.isValid = false then .invalid
  else
    match strategy with
    | .duplicate => .queued
    | .discard => if id ∈ p.ids then .discarded else .queued
    | .replace => if id ∈ p.ids ∧ id ∉ seen then .replaced else .queued

/-- The results for the elements of a range, after the ids `seen`. -/
def results (p : Pending) (strategy : QueuingStrategy) : List IdType → List IdType →
    List QueuingResult
  | _, [] => []
  | seen, id :: ids => p.result strategy seen id :: p.results strategy (seen ++ [id]) ids

/-- A `queue_as` of a range. -/
def queueAsRange (p : Pending) (ids : List IdType) (strategy : QueuingStrategy)
    (position : QueuingPosition) : List QueuingResult × Pending :=
  (p.results strategy [] ids, (p.kept ids strategy).insert (p.fresh ids strategy) position)

/-- A call of `queue_as`. -/
def call (p : Pending) : QueueCall → List QueuingResult × Pending
  | .single id strategy position _ =>
    let r := p.queueAs id strategy position
    ([r.1], r.2)
  | .range ids strategy position _ => p.queueAsRange ids strategy position

/-- The head of the list, an invalid id if there is none. -/
def pop (p : Pending) : IdType × Pending :=
  match p with
  | ⟨[], h⟩ => (.invalid, ⟨[], h⟩)
  | ⟨id :: ids, h⟩ => (id, ⟨ids, fun i hi => h i (List.mem_cons_of_mem _ hi)⟩)

/-- The answer of `is_queued_as(matcher)`, and the ids that the matcher is offered: those up to the
first one it accepts. -/
def isQueuedAsMatcher (p : Pending) (matcher : List IdType → IdType → Bool) :
    Bool × List IdType :=
  match (List.range p.ids.length).find? (Vec.acceptsAt matcher p.ids) with
  | some k => (true, p.ids.take (k + 1))
  | none => (false, p.ids)

@[simp] theorem ids_one (id : IdType) (h : id.isValid = true) : (one id h).ids = [id] := rfl

@[simp] theorem ids_filter (p : Pending) (f : IdType → Bool) :
    (p.filter f).ids = p.ids.filter f := rfl

@[simp] theorem ids_ofList (ids : List IdType) : (ofList ids).ids = ids.filter (·.isValid) := rfl

@[simp] theorem ids_insert_atFront (p new : Pending) :
    (p.insert new .atFront).ids = new.ids ++ p.ids := rfl

@[simp] theorem ids_insert_atBack (p new : Pending) :
    (p.insert new .atBack).ids = p.ids ++ new.ids := rfl

theorem insert_empty (p : Pending) {new : Pending} (h : new.ids = []) (position : QueuingPosition) :
    p.insert new position = p := by
  cases position <;> ext1 <;> simp [h]

/-- A pop gives an invalid id exactly if nothing is pending. -/
theorem pop_invalid_iff (p : Pending) : p.pop.1.isValid = false ↔ p.ids = [] := by
  obtain ⟨ids, h⟩ := p
  cases ids with
  | nil => simp [pop]
  | cons id ids => simp [pop, h id (by simp)]

/-- A pop of nothing. -/
theorem pop_of_nil {p : Pending} (h : p.ids = []) : p.pop = (.invalid, p) := by
  obtain ⟨ids, hv⟩ := p
  subst h
  rfl

/-- A valid popped id was the head. -/
theorem ids_eq_of_pop {p : Pending} (h : p.pop.1.isValid = true) :
    p.ids = p.pop.1 :: p.pop.2.ids := by
  obtain ⟨ids, hv⟩ := p
  cases ids with
  | nil => simp [pop] at h
  | cons id ids => rfl

/-- **A single call is a range of one id.** -/
theorem queueAs_eq_range (p : Pending) (id : IdType) (strategy : QueuingStrategy)
    (position : QueuingPosition) :
    p.queueAsRange [id] strategy position =
      ([(p.queueAs id strategy position).1], (p.queueAs id strategy position).2) := by
  by_cases hv : id.isValid = true
  · have hone : ofList [id] = one id hv := by
      ext1
      simp [hv]
    cases strategy with
    | duplicate => simp [queueAsRange, queueAs, results, result, kept, fresh, hv, hone]
    | discard =>
      by_cases hp : id ∈ p.ids
      · have hnil : (p.fresh [id] .discard).ids = [] := by simp [fresh, hp]
        simp [queueAsRange, queueAs, results, result, kept, hv, hp, insert_empty _ hnil]
      · have hfresh : p.fresh [id] .discard = one id hv := by
          ext1
          simp [fresh, hv, hp]
        simp [queueAsRange, queueAs, results, result, kept, hv, hp, hfresh]
    | replace =>
      have hkept : p.kept [id] .replace = p.filter fun i => !(i == id) := by
        ext1
        exact List.filter_congr fun i _ => by by_cases hi : i = id <;> simp [hi]
      simp [queueAsRange, queueAs, results, result, fresh, hv, hone, hkept]
  · have hv : id.isValid = false := by simpa using hv
    have hnil : ∀ s, (p.fresh [id] s).ids = [] := by
      intro s
      cases s <;> simp [fresh, hv]
    have hkept : p.kept [id] strategy = p := by
      cases strategy with
      | discard | duplicate => rfl
      | replace =>
        ext1
        simp only [kept, ids_filter, List.mem_singleton, List.filter_eq_self, decide_eq_true_eq]
        rintro i hi rfl
        simp [p.valid i hi] at hv
    simp [queueAsRange, queueAs, results, result, hv, hkept, insert_empty _ (hnil _)]

/-! ## The account of a call -/

/-- The new ids of a call. -/
def added (p : Pending) (c : QueueCall) : List IdType := (p.fresh c.ids c.strategy).ids

/-- The pending ids that a call replaces. -/
def removed (p : Pending) (c : QueueCall) : List IdType :=
  match c.strategy with
  | .replace => p.ids.filter fun id => decide (id ∈ c.ids)
  | .discard | .duplicate => []

/-- A call is the call of a range. -/
theorem call_eq_range (p : Pending) (c : QueueCall) :
    (p.call c).2 = (p.kept c.ids c.strategy).insert (p.fresh c.ids c.strategy) c.position := by
  cases c with
  | range => rfl
  | single id strategy position spare =>
    have h := congrArg Prod.snd (p.queueAs_eq_range id strategy position)
    exact h.symm

/-- **What is pending after a call** is, up to order, what was pending before it and what the call
added, less what it replaced. -/
theorem call_account (p : Pending) (c : QueueCall) :
    (p.ids ++ p.added c).Perm ((p.call c).2.ids ++ p.removed c) := by
  have hsplit : p.ids.Perm ((p.kept c.ids c.strategy).ids ++ p.removed c) := by
    unfold removed kept
    cases c.strategy with
    | discard | duplicate => simp
    | replace =>
      have h := List.filter_append_perm (fun id => decide (id ∉ c.ids)) p.ids
      simpa using h.symm
  rw [call_eq_range]
  refine (hsplit.append_right _).trans ?_
  rw [List.perm_iff_count]
  intro id
  cases c.position <;>
    simp only [ids_insert_atFront, ids_insert_atBack, added, List.count_append] <;> omega

end Pending

end Slirc
