import Slirc.Event.Refine
import Slirc.EventManager.Handle

/-!
# The dispatches of one `handle`

Handlers that call `queue_as` on the event, and nothing else, at every dispatch (`Queueing`).

* `Turn`: a dispatch with what was pending at its begin and with the calls of its handlers.
* `Block`: turns for queued ids. Each id is the head of what the turn before it left pending, and
  nothing is pending behind the last one.
* `HandleTrace`, `HandleTrace.WellFormed`: the turns of a call of `handle`.
* `handle_trace`: every call of `handle` that ends has such turns.
-/

namespace Slirc

variable {ε κ : Type}

/-- A dispatch of an event: the id, what is pending when the handlers begin, and their calls. -/
structure Turn where
  id : IdType
  before : Pending
  calls : List QueueCall

namespace Turn

/-- What calls of `queue_as` leave pending. -/
def pendingAfter (p : Pending) (calls : List QueueCall) : Pending :=
  calls.foldl (fun p c => (p.call c).2) p

/-- The ids that calls of `queue_as` add. -/
def addedBy : Pending → List QueueCall → List IdType
  | _, [] => []
  | p, c :: calls => p.added c ++ addedBy (p.call c).2 calls

/-- The pending ids that calls of `queue_as` replace. -/
def removedBy : Pending → List QueueCall → List IdType
  | _, [] => []
  | p, c :: calls => p.removed c ++ removedBy (p.call c).2 calls

/-- What is pending when the handlers have returned. -/
def after (t : Turn) : Pending := pendingAfter t.before t.calls

def added (t : Turn) : List IdType := addedBy t.before t.calls

def removed (t : Turn) : List IdType := removedBy t.before t.calls

/-- What the log says about a turn of `e`. -/
def entries (e : ε) (t : Turn) : List (Entry ε) :=
  .dispatch e t.id (some t.before.ids) :: t.calls.map (.queueAs e)

/-- The account of a turn. -/
theorem account (t : Turn) : (t.before.ids ++ t.added).Perm (t.after.ids ++ t.removed) := by
  obtain ⟨id, p, calls⟩ := t
  simp only [added, removed, after]
  induction calls generalizing p with
  | nil => simp [pendingAfter, addedBy, removedBy]
  | cons c calls ih =>
    rw [List.perm_iff_count]
    intro i
    have hone := List.perm_iff_count.mp (p.call_account c) i
    have hrest := List.perm_iff_count.mp (ih (p.call c).2) i
    simp only [pendingAfter, addedBy, removedBy, List.foldl_cons, List.count_append] at *
    omega

end Turn

/-- Turns for queued ids, from the pending ids on until nothing is pending. -/
inductive Block : List IdType → List Turn → Prop
  | done : Block [] []
  | turn {t : Turn} {ts : List Turn} :
    Block t.after.ids ts → Block (t.id :: t.before.ids) (t :: ts)

/-- Every id that is pending at the begin of a block, or added in it, has its turn in it, unless it
is replaced. -/
theorem Block.account {ids : List IdType} {ts : List Turn} (h : Block ids ts) :
    (ids ++ ts.flatMap Turn.added).Perm (ts.map Turn.id ++ ts.flatMap Turn.removed) := by
  induction h with
  | done => simp
  | @turn t ts _ ih =>
    rw [List.perm_iff_count]
    intro i
    have hone := List.perm_iff_count.mp t.account i
    have hrest := List.perm_iff_count.mp ih i
    simp only [List.flatMap_cons, List.map_cons, List.cons_append, List.count_cons,
      List.count_append] at *
    omega

/-- What follows a turn for `finishing_handling`: if it left ids pending, a block of turns and
another turn for `finishing_handling`, and so on. -/
inductive Rounds : Turn → List (List Turn × Turn) → Prop
  | done {f : Turn} : f.after.ids = [] → Rounds f []
  | round {f g : Turn} {ts : List Turn} {more : List (List Turn × Turn)} :
    ts ≠ [] → Block f.after.ids ts → g.id = Events.finishingHandling → g.before.ids = [] →
      Rounds g more → Rounds f ((ts, g) :: more)

/-- The account of all that follows a turn for `finishing_handling`. -/
theorem Rounds.account {f : Turn} {more : List (List Turn × Turn)} (h : Rounds f more) :
    (f.after.ids ++ (more.flatMap fun r => r.1 ++ [r.2]).flatMap Turn.added).Perm
      ((more.flatMap (·.1)).map Turn.id ++
        (more.flatMap fun r => r.1 ++ [r.2]).flatMap Turn.removed) := by
  induction h with
  | done h => simp [h]
  | @round f g ts more _ hb _ hg _ ih =>
    rw [List.perm_iff_count]
    intro i
    have hblock := List.perm_iff_count.mp hb.account i
    have hone := List.perm_iff_count.mp g.account i
    have hrest := List.perm_iff_count.mp ih i
    simp only [List.flatMap_cons, List.flatMap_append, List.map_append, List.count_append, hg,
      List.flatMap_nil, List.append_nil, List.count_nil] at *
    omega

/-- The turns of one call of `handle`. -/
structure HandleTrace where
  beginning : Turn
  first : List Turn
  finishing : Turn
  more : List (List Turn × Turn)
  finished : Turn

namespace HandleTrace

/-- The turns for queued ids. -/
def queued (h : HandleTrace) : List Turn := h.first ++ h.more.flatMap (·.1)

/-- The turns before the one for `finished_handling`. -/
def unfinished (h : HandleTrace) : List Turn :=
  h.beginning :: h.first ++ h.finishing :: h.more.flatMap fun r => r.1 ++ [r.2]

def turns (h : HandleTrace) : List Turn := h.unfinished ++ [h.finished]

/-- The shape of the turns, where `p` is pending when `handle` is called. -/
structure WellFormed (h : HandleTrace) (p : Pending) : Prop where
  beginning : h.beginning.id = Events.beginHandling ∧ h.beginning.before = p
  first : Block h.beginning.after.ids h.first
  finishing : h.finishing.id = Events.finishingHandling ∧ h.finishing.before.ids = []
  more : Rounds h.finishing h.more
  finished : h.finished.id = Events.finishedHandling ∧ h.finished.before.ids = []

/-- **Every id that is ever pending before `finished_handling` has exactly one turn**, unless it is
replaced. -/
theorem WellFormed.account {h : HandleTrace} {p : Pending} (hw : h.WellFormed p) :
    (p.ids ++ h.unfinished.flatMap Turn.added).Perm
      (h.queued.map Turn.id ++ h.unfinished.flatMap Turn.removed) := by
  rw [List.perm_iff_count]
  intro i
  have hbegin := List.perm_iff_count.mp h.beginning.account i
  have hfirst := List.perm_iff_count.mp hw.first.account i
  have hfinish := List.perm_iff_count.mp h.finishing.account i
  have hmore := List.perm_iff_count.mp hw.more.account i
  simp only [unfinished, queued, List.flatMap_cons, List.flatMap_append, List.map_append,
    List.cons_append, List.count_append, hw.beginning.2, hw.finishing.2, List.count_nil] at *
  omega

end HandleTrace

/-! ## The code -/

section Code

variable [DecidableEq ε] {consume : κ → ε → EStateM Fault (ε → EventObj ε) Bool}
  {deeds : World ε κ → IdType → ε → List (Deed ε)} {e : ε}

/-- The handlers of `e` only call `queue_as` on it. -/
def Queueing (deeds : World ε κ → IdType → ε → List (Deed ε)) (e : ε) : Prop :=
  ∀ w id, ∃ calls : List QueueCall, deeds w id e = calls.map .queueAs

/-- `p` is pending on `e`. -/
def World.Holds (w : World ε κ) (e : ε) (p : Pending) : Prop :=
  (w.events e).idQueue.pending = some p.ids

variable (consume)

/-- The calls of the handlers of one dispatch. -/
theorem perform_calls {w : World ε κ} {p : Pending} (h : w.Holds e p) (calls : List QueueCall) :
    ∃ w', ((calls.map Deed.queueAs).forM (Deed.perform consume e)) w = .ok () w' ∧
      w'.log = w.log ++ calls.map (.queueAs e) ∧ w'.Holds e (Turn.pendingAfter p calls) := by
  induction calls generalizing w p with
  | nil => exact ⟨w, rfl, by simp, h⟩
  | cons c calls ih =>
    obtain ⟨q, hcall, hq⟩ := IdQueue.call_spec h c
    let w₁ := (w.set e { w.events e with idQueue := q }).record (.queueAs e c)
    have hc : Deed.perform consume e (.queueAs c) w = .ok () w₁ := by
      simp only [Deed.perform, hcall, w₁]
    have hw₁ : w₁.Holds e (p.call c).2 := by simpa [World.Holds, w₁] using hq
    obtain ⟨w', hrun, hlog, hw'⟩ := ih hw₁
    refine ⟨w', ?_, by simp [hlog, w₁], hw'⟩
    show (Deed.perform consume e (.queueAs c) >>= fun _ =>
      (calls.map Deed.queueAs).forM (Deed.perform consume e)) w = .ok () w'
    rw [Program.bind_ok hc, hrun]

/-- **A dispatch is a turn.** -/
theorem handleAs_spec (hd : Queueing deeds e) {w : World ε κ} {p : Pending} (h : w.Holds e p)
    (id : IdType) :
    ∃ t : Turn, ∃ w', t.id = id ∧ t.before = p ∧
      handleAs (handlers consume deeds) e id w = .ok () w' ∧ w'.log = w.log ++ t.entries e ∧
      w'.Holds e t.after := by
  let w₁ := (w.set e { w.events e with currentId := id }).record
    (.dispatch e id (w.events e).idQueue.pending)
  obtain ⟨calls, hcalls⟩ := hd w₁ id
  have hw₁ : w₁.Holds e p := by simpa [World.Holds, w₁] using h
  obtain ⟨w₂, hrun, hlog, hw₂⟩ := perform_calls consume hw₁ calls
  have hsig : handlers consume deeds id e w₁ = .ok () w₂ := by
    rw [handlers, Program.get_bind, hcalls, hrun]
  refine ⟨⟨id, p, calls⟩, w₂.set e { w₂.events e with currentId := (w.events e).currentId }, rfl,
    rfl, ?_, ?_, by simpa [World.Holds, Turn.after] using hw₂⟩
  · simp only [handleAs]
    rw [show (w.set e { w.events e with currentId := id }).record
      (.dispatch e id (w.events e).idQueue.pending) = w₁ from rfl, hsig]
  · have hp : (w.events e).idQueue.pending = some p.ids := h
    simp [hlog, w₁, Turn.entries, hp]

theorem popNext_spec {w : World ε κ} {p : Pending} (h : w.Holds e p) :
    ∃ w', popNext e w = .ok p.pop.1 w' ∧ w'.log = w.log ∧ w'.Holds e p.pop.2 := by
  obtain ⟨hid, hrest⟩ := IdQueue.pop_spec h
  exact ⟨_, by rw [popNext, hid], by simp, by simpa [World.Holds] using hrest⟩

/-- The inner loop does nothing if nothing was pending at the pop. -/
theorem drain_idle (signals : IdType → ε → Exec ε κ Unit) (n : Nat) (w : World ε κ) {p : Pending}
    (h : p.ids = []) : drain signals e n p.pop.1 w = .ok () w := by
  have hv : ¬p.pop.1.isValid = true := by simp [p.pop_invalid_iff.mpr h]
  cases n <;> rw [drain, if_neg hv] <;> rfl

/-- The inner loop handles one id. -/
theorem drain_step {w : World ε κ} {p : Pending} (hd : Queueing deeds e) (h : w.Holds e p.pop.2)
    (hne : p.ids ≠ []) (n : Nat) :
    ∃ t : Turn, ∃ w', p.ids = t.id :: t.before.ids ∧
      drain (handlers consume deeds) e (n + 1) p.pop.1 w =
        drain (handlers consume deeds) e n t.after.pop.1 w' ∧
      w'.log = w.log ++ t.entries e ∧ w'.Holds e t.after.pop.2 := by
  have hv : p.pop.1.isValid = true := by
    by_contra hc
    exact hne (p.pop_invalid_iff.mp (by simpa using hc))
  obtain ⟨t, w₁, hid, hbefore, hrun, hlog, hw₁⟩ :=
    handleAs_spec consume hd h p.pop.1
  obtain ⟨w₂, hpop, hlog₂, hw₂⟩ := popNext_spec hw₁
  refine ⟨t, w₂, ?_, ?_, by rw [hlog₂, hlog], hw₂⟩
  · rw [hid, hbefore]
    exact Pending.ids_eq_of_pop hv
  · rw [drain, if_pos hv]
    exact (Program.bind_ok hrun).trans (Program.bind_ok hpop)

/-- **The inner loop runs a block**, unless it is cut off. `p` is pending before the pop that gave
`next`. -/
theorem drain_spec (hd : Queueing deeds e) (n : Nat) {w : World ε κ} {p : Pending}
    (h : w.Holds e p.pop.2) :
    (∃ w', drain (handlers consume deeds) e n p.pop.1 w = .error .cutOff w') ∨
    ∃ ts w' q, drain (handlers consume deeds) e n p.pop.1 w = .ok () w' ∧ Block p.ids ts ∧
      w'.log = w.log ++ ts.flatMap (Turn.entries e) ∧ w'.Holds e q ∧ q.ids = [] := by
  induction n generalizing w p with
  | zero =>
    by_cases hnil : p.ids = []
    · rw [Pending.pop_of_nil hnil] at h
      exact .inr ⟨[], w, p, drain_idle _ 0 w hnil, hnil ▸ .done, by simp, h, hnil⟩
    · have hv : p.pop.1.isValid = true := by
        by_contra hc
        exact hnil (p.pop_invalid_iff.mp (by simpa using hc))
      exact .inl ⟨w, by rw [drain, if_pos hv]; rfl⟩
  | succ n ih =>
    by_cases hnil : p.ids = []
    · rw [Pending.pop_of_nil hnil] at h
      exact .inr ⟨[], w, p, drain_idle _ _ w hnil, hnil ▸ .done, by simp, h, hnil⟩
    · obtain ⟨t, w₁, hhead, hstep, hlog, hw₁⟩ := drain_step consume hd h hnil n
      rw [hstep]
      rcases ih hw₁ with hcut | ⟨ts, w', q, hrest, hblock, hlog', hw', hq⟩
      · exact .inl hcut
      · exact .inr ⟨t :: ts, w', q, hrest, hhead ▸ .turn hblock, by simp [hlog', hlog], hw', hq⟩

/-- The outer loop runs a block and all that follows it, unless it is cut off. -/
theorem rounds_spec (hd : Queueing deeds e) (n : Nat) {w : World ε κ} {p : Pending}
    (h : w.Holds e p.pop.2) :
    (∃ w', rounds (handlers consume deeds) e n p.pop.1 w = .error .cutOff w') ∨
    ∃ ts f more w' q, rounds (handlers consume deeds) e n p.pop.1 w = .ok () w' ∧
      Block p.ids ts ∧ f.id = Events.finishingHandling ∧ f.before.ids = [] ∧ Rounds f more ∧
      w'.log = w.log ++ (ts ++ f :: more.flatMap fun r => r.1 ++ [r.2]).flatMap (Turn.entries e) ∧
      w'.Holds e q ∧ q.ids = [] := by
  induction n generalizing w p with
  | zero => exact .inl ⟨w, rfl⟩
  | succ n ih =>
    rcases drain_spec consume hd (n + 1) h with
      ⟨w₁, hcut⟩ | ⟨ts, w₁, q₁, hdrain, hblock, hlog₁, hw₁, hq₁⟩
    · exact .inl ⟨w₁, by rw [rounds, Program.bind_error hcut]⟩
    obtain ⟨f, w₂, hf, hfb, hfin, hlog₂, hw₂⟩ :=
      handleAs_spec consume hd hw₁ Events.finishingHandling
    obtain ⟨w₃, hpop, hlog₃, hw₃⟩ := popNext_spec hw₂
    have hfnil : f.before.ids = [] := by rw [hfb, hq₁]
    have hstep : rounds (handlers consume deeds) e (n + 1) p.pop.1 w =
        (if f.after.pop.1.isValid then rounds (handlers consume deeds) e n f.after.pop.1
          else pure ()) w₃ := by
      rw [rounds, Program.bind_ok hdrain, Program.bind_ok hfin, Program.bind_ok hpop]
    rw [hstep]
    by_cases hnil : f.after.ids = []
    · rw [Pending.pop_of_nil hnil] at hw₃
      refine .inr ⟨ts, f, [], w₃, f.after, ?_, hblock, hf, hfnil, .done hnil, ?_, hw₃, hnil⟩
      · rw [if_neg (by simp [f.after.pop_invalid_iff.mpr hnil])]
        rfl
      · simp [hlog₃, hlog₂, hlog₁]
    · have hv : f.after.pop.1.isValid = true := by
        by_contra hc
        exact hnil (f.after.pop_invalid_iff.mp (by simpa using hc))
      rw [if_pos hv]
      rcases ih hw₃ with hcut | ⟨us, g, more, w', q, hrun, hb, hg, hgn, hmore, hlog', hw', hq⟩
      · exact .inl hcut
      refine .inr ⟨ts, f, (us, g) :: more, w', q, hrun, hblock, hf, hfnil, ?_, ?_, hw', hq⟩
      · refine .round ?_ hb hg hgn hmore
        rintro rfl
        generalize f.after.ids = ids at hb hnil
        cases hb
        exact hnil rfl
      · simp [hlog', hlog₃, hlog₂, hlog₁]

/-- What is registered to be handled after `e`. -/
def World.registered (e : ε) (w : World ε κ) : Option (List ε) := (w.events e).handleAfterwards

variable {consume}

/-- What the handlers of a dispatch keep, and the changes of the current id and of the log, the
dispatch keeps. -/
theorem handleAs_keeps {r : World ε κ → World ε κ → Prop} [IsPreorder _ r]
    {signals : IdType → ε → Exec ε κ Unit} {id : IdType}
    (hset : ∀ w c, r w (w.set e { w.events e with currentId := c }))
    (hlog : ∀ w pending, r w (w.record (.dispatch e id pending)))
    (h : Program.Keeps r (signals id e)) : Program.Keeps r (handleAs signals e id) := by
  intro w
  let w₁ := (w.set e { w.events e with currentId := id }).record
    (.dispatch e id (w.events e).idQueue.pending)
  have hbegin : r w w₁ := trans_of r (hset w id) (hlog _ _)
  have hsig := trans_of r hbegin (h w₁)
  simp only [handleAs]
  split <;> rename_i w₂ hs <;> rw [show signals id e w₁ = _ from hs] at hsig
  all_goals exact trans_of r hsig (hset w₂ _)

/-- A dispatch registers only what its handlers do. -/
theorem handleAs_registered {signals : IdType → ε → Exec ε κ Unit} {id : IdType}
    (h : Program.Frames (World.registered e) (signals id e)) :
    Program.Frames (World.registered e) (handleAs signals e id) := by
  refine handleAs_keeps (fun w c => ?_) (fun w pending => ?_) h
  · simp [World.registered]
  · simp [World.registered]

theorem handlers_registered (hd : Queueing deeds e) (id : IdType) :
    Program.Frames (World.registered e) (handlers consume deeds id e) := by
  have hone : ∀ c, Program.Frames (World.registered e) (Deed.perform consume e (.queueAs c)) := by
    intro c w
    simp only [Deed.perform]
    split
    · rfl
    · simp [World.registered, Program.final]
  have hall : ∀ calls : List QueueCall, Program.Frames (World.registered e)
      ((calls.map Deed.queueAs).forM (Deed.perform consume e)) := by
    refine fun calls => .forM fun d hd => ?_
    obtain ⟨c, -, rfl⟩ := List.mem_map.mp hd
    exact hone c
  intro w
  obtain ⟨calls, hcalls⟩ := hd w id
  rw [handlers, Program.get_bind, hcalls]
  exact hall calls w

theorem popNext_registered : Program.Frames (World.registered e) (popNext e : Exec ε κ IdType) := by
  intro w
  simp [World.registered, Program.final, popNext]

/-- What every dispatch and every pop keep, the loops of `handle` keep. -/
theorem dispatches_keeps {r : World ε κ → World ε κ → Prop} [IsPreorder _ r]
    {signals : IdType → ε → Exec ε κ Unit}
    (hone : ∀ id, Program.Keeps r (handleAs signals e id))
    (hpop : Program.Keeps r (popNext e : Exec ε κ IdType)) (n : Nat) :
    Program.Keeps r (dispatches signals n e) := by
  have hdrain : ∀ n next, Program.Keeps r (drain signals e n next) := by
    intro n
    induction n with
    | zero =>
      intro next
      rw [drain]
      split
      · exact Program.keeps_throw _
      · exact Program.keeps_pure _
    | succ n ih =>
      intro next
      rw [drain]
      split
      · exact (hone next).bind fun _ => hpop.bind ih
      · exact Program.keeps_pure _
  have hrounds : ∀ n next, Program.Keeps r (rounds signals e n next) := by
    intro n
    induction n with
    | zero => exact fun _ => Program.keeps_throw _
    | succ n ih =>
      intro next
      rw [rounds]
      refine (hdrain _ next).bind fun _ => (hone _).bind fun _ => hpop.bind fun next => ?_
      split
      · exact ih next
      · exact Program.keeps_pure _
  exact (hone _).bind fun _ => hpop.bind fun next => (hrounds n next).bind fun _ => hone _

/-- Handlers that only queue ids register nothing. -/
theorem dispatches_registered (hd : Queueing deeds e) (n : Nat) :
    Program.Frames (World.registered e) (dispatches (handlers consume deeds) n e) :=
  dispatches_keeps (fun id => handleAs_registered (handlers_registered hd id)) popNext_registered n

/-- The consumers that wait leave the ids of `e` alone. -/
def Quiet (consume : κ → ε → EStateM Fault (ε → EventObj ε) Bool) (e : ε) : Prop :=
  ∀ k x events b events', consume k x events = .ok b events' →
    (events' e).idQueue = (events e).idQueue

theorem flush_log (w : World ε κ) : (Exec.world (flushAfterwards consume e w)).log = w.log := by
  unfold flushAfterwards
  cases (w.events e).handleAfterwards with
  | none => rfl
  | some events =>
    have hlog := Exec.world_onMain_log (MainQueue.flush consume events) w
    cases hm : Exec.onMain (MainQueue.flush consume events) w with
    | ok _ w' | error x w' => simpa [hm, Exec.world] using hlog

theorem flush_holds {w w' : World ε κ} {p : Pending}
    (hq : (w.events e).handleAfterwards = none ∨ Quiet consume e) (h : w.Holds e p)
    (hf : flushAfterwards consume e w = .ok () w') : w'.Holds e p := by
  unfold flushAfterwards at hf
  split at hf
  · cases hf
    exact h
  rename_i events hsome
  have hq := hq.resolve_left (by simp [hsome])
  split at hf
  · rename_i _ w₁ hm
    cases hf
    unfold Exec.onMain at hm
    split at hm
    · rename_i main objs hflush
      cases hm
      have hk : MainQueue.Keeps consume fun _ s => (s e).idQueue = (w.events e).idQueue :=
        fun _ k x s b s' hs hc => (hq k x s b s' hc).trans hs
      obtain ⟨_, _, hkeep⟩ := MainQueue.tryUnqueue_inv hk rfl hflush
      simpa [World.Holds, hkeep] using h
    · cases hm
  · cases hf

/-- **The dispatches of a call of `handle`.** If all handlers do is to call `queue_as` on the event,
then every call that ends dispatches `begin_handling`, a block of queued ids, `finishing_handling`,
further blocks that are not empty with a `finishing_handling` behind each, and `finished_handling`.
Every id that is pending before `finished_handling` is dispatched once, unless it is replaced; what
is pending on return is what the handlers of `finished_handling` queued, unless afterwards events
are registered and a consumer that gets one of them queues more. -/
theorem handle_trace (hd : Queueing deeds e) {w : World ε κ} {p : Pending} (hp : w.Holds e p)
    {n : Nat} {r : EStateM.Result Fault (World ε κ) Unit}
    (hr : handle consume (handlers consume deeds) n e w = r) (hend : Exec.cutOff r = false) :
    ∃ h : HandleTrace, h.WellFormed p ∧
      (Exec.world r).log = w.log ++ h.turns.flatMap (Turn.entries e) ∧
      (p.ids ++ h.unfinished.flatMap Turn.added).Perm
        (h.queued.map Turn.id ++ h.unfinished.flatMap Turn.removed) ∧
      ∀ w', r = .ok () w' → (w.events e).handleAfterwards = none ∨ Quiet consume e →
        w'.Holds e h.finished.after := by
  obtain ⟨b, w₁, hb, hbp, hbegin, hlog₁, hw₁⟩ :=
    handleAs_spec consume hd hp Events.beginHandling
  obtain ⟨w₂, hpop, hlog₂, hw₂⟩ := popNext_spec hw₁
  rcases rounds_spec consume hd n hw₂ with
    ⟨w₃, hcut⟩ | ⟨ts, f, more, w₃, q, hrounds, hblock, hf, hfnil, hmore, hlog₃, hw₃, hq⟩
  · have hdisp : dispatches (handlers consume deeds) n e w = .error .cutOff w₃ := by
      rw [dispatches, Program.bind_ok hbegin, Program.bind_ok hpop, Program.bind_error hcut]
    rw [handle, Program.bind_error hdisp] at hr
    subst hr
    cases hend
  obtain ⟨l, w₄, hl, hlq, hfin, hlog₄, hw₄⟩ :=
    handleAs_spec consume hd hw₃ Events.finishedHandling
  have hdisp : dispatches (handlers consume deeds) n e w = .ok () w₄ := by
    rw [dispatches, Program.bind_ok hbegin, Program.bind_ok hpop, Program.bind_ok hrounds, hfin]
  rw [handle, Program.bind_ok hdisp] at hr
  have hwell : HandleTrace.WellFormed ⟨b, ts, f, more, l⟩ p :=
    ⟨⟨hb, hbp⟩, hblock, ⟨hf, hfnil⟩, hmore, ⟨hl, by rw [hlq, hq]⟩⟩
  refine ⟨⟨b, ts, f, more, l⟩, hwell, ?_, hwell.account, ?_⟩
  · rw [← hr, flush_log, hlog₄, hlog₃, hlog₂, hlog₁]
    simp [HandleTrace.turns, HandleTrace.unfinished]
  · rintro w' rfl hflush
    refine flush_holds ?_ hw₄ hr
    have hregistered : (Program.final (dispatches (handlers consume deeds) n e w)).registered e =
        w.registered e := dispatches_registered hd n w
    rw [hdisp] at hregistered
    exact hflush.imp_left hregistered.trans

end Code

/-- Handlers that queue ids in front, by replacement, and once during `finishing_handling`. -/
def busyCalls (w : World Unit Empty) (id : IdType) : List QueueCall :=
  let user := IdType.ofEnum (.user 0)
  if id = Events.beginHandling then [.single (user 2) .duplicate .atFront 0]
  else if id = user 2 then [.range [user 1, user 3] .replace .atBack 1]
  else if id = Events.finishingHandling ∧ w.log.length < 8 then
    [.single (user 4) .discard .atBack 0]
  else if id = Events.finishedHandling then [.single (user 5) .duplicate .atBack 0]
  else []

def busyWorld : World Unit Empty := ⟨fun _ => { idQueue := ⟨[.ofEnum (.user 0) 1], 0⟩ }, {}, []⟩

def noConsumer (k : Empty) : Unit → EStateM Fault (Unit → EventObj Unit) Bool := k.elim

def busyHandle : EStateM.Result Fault (World Unit Empty) Unit :=
  handle noConsumer (handlers noConsumer fun w id _ => (busyCalls w id).map .queueAs) 4 () busyWorld

theorem handle_trace_busy :
    ∃ h : HandleTrace, h.WellFormed (.one (.ofEnum (.user 0) 1) (by decide)) ∧
      (Exec.world busyHandle).log = busyWorld.log ++ h.turns.flatMap (Turn.entries ()) ∧
      ([IdType.ofEnum (.user 0) 1] ++ h.unfinished.flatMap Turn.added).Perm
        (h.queued.map Turn.id ++ h.unfinished.flatMap Turn.removed) ∧
      ∀ w', busyHandle = .ok () w' →
        (busyWorld.events ()).handleAfterwards = none ∨ Quiet noConsumer () →
        w'.Holds () h.finished.after :=
  have hd : Queueing (κ := Empty) (fun w id _ => (busyCalls w id).map .queueAs) () :=
    fun w id => ⟨busyCalls w id, rfl⟩
  have hp : busyWorld.Holds () (.one (.ofEnum (.user 0) 1) (by decide)) := by
    unfold World.Holds
    rfl
  have hend : Exec.cutOff busyHandle = false := by decide +kernel
  handle_trace (r := busyHandle) hd hp rfl hend

end Slirc
