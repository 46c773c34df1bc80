import Slirc.EventManager.Pump

/-!
# Handling that an exception interrupts

At every dispatch the handlers queue ids on the event and register afterwards events, and then they
return or throw (`Behaviour`, `throwing`).

* `Visit`: a turn with the place of `handle` it was dispatched from. `Path p vs v`: a call with `p`
  pending has made the visits `vs` and then `v`. Every prefix of a path is one, so it describes a
  call that a handler interrupts as well as one that returns.
* `Ends`: how a part of `handle` ends. There is one lemma for each loop of the source.
* `handle_resumes`: what an interrupted call leaves, and what the next call makes of it.
-/

namespace Slirc

variable {ε κ : Type}

/-- What a handler does to the event that it handles. -/
inductive Act (ε : Type) where
  | queueAs (c : QueueCall)
  | afterwards (follower : ε)
  deriving DecidableEq, Repr

namespace Act

def deed : Act ε → Deed ε
  | .queueAs c => .queueAs c
  | .afterwards follower => .afterwards follower

/-- The calls of `queue_as`. -/
def calls (acts : List (Act ε)) : List QueueCall :=
  acts.filterMap fun
    | .queueAs c => some c
    | .afterwards _ => none

/-- The events that are registered. -/
def registered (acts : List (Act ε)) : List ε :=
  acts.filterMap fun
    | .queueAs _ => none
    | .afterwards follower => some follower

end Act

/-- What the handlers of a dispatch do: their acts, and the exception that ends them, if any. -/
structure Behaviour (ε : Type) where
  acts : List (Act ε)
  throws : Option Nat := none
  deriving DecidableEq, Repr

/-- How the handlers end. -/
def Behaviour.finish (b : Behaviour ε) : Exec ε κ Unit :=
  match b.throws with
  | none => pure ()
  | some k => throw (.foreign k)

/-- The records of dispatches and of calls of `queue_as`. -/
def Entry.isShown : Entry ε → Bool
  | .afterwards _ _ => false
  | _ => true

/-- The places of `handle` that call `handle_as`. -/
inductive Place where
  | beginning | queued | finishing | finished
  deriving DecidableEq, Repr

/-- A turn, and where it was dispatched. -/
structure Visit extends Turn where
  place : Place

namespace Visit

/-- The ids that were popped, of some visits. -/
def popped (vs : List Visit) : List IdType := (vs.filter (·.place = .queued)).map (·.id)

/-- After these places the loop ends when nothing is pending. -/
def Opening (v : Visit) : Prop := v.place = .beginning ∨ v.place = .queued

/-- The dispatch that comes after a visit. -/
inductive Follows (u v : Visit) : Prop
  | popped : u.place ≠ .finished → u.after.ids = v.id :: v.before.ids → v.place = .queued →
    Follows u v
  | finishing : u.Opening → u.after.ids = [] → v.before.ids = [] → v.place = .finishing →
    v.id = Events.finishingHandling → Follows u v
  | finished : u.place = .finishing → u.after.ids = [] → v.before.ids = [] → v.place = .finished →
    v.id = Events.finishedHandling → Follows u v

/-- With `p` pending, `handle` makes the visits `vs` and then `v`. -/
inductive Path (p : Pending) : List Visit → Visit → Prop
  | start {v : Visit} : v.place = .beginning → v.id = Events.beginHandling → v.before = p →
    Path p [] v
  | next {vs : List Visit} {u v : Visit} : Path p vs u → Follows u v → Path p (vs ++ [u]) v

/-- **What is pending after a visit** is what was pending at first and was added, less what was
popped or replaced. -/
theorem Path.account {p : Pending} {vs : List Visit} {v : Visit} (h : Path p vs v) :
    (p.ids ++ (vs ++ [v]).flatMap (·.added)).Perm
      (popped (vs ++ [v]) ++ (vs ++ [v]).flatMap (·.removed) ++ v.after.ids) := by
  induction h with
  | @start v hplace _ hbefore =>
    have hturn := List.perm_iff_count.mp v.account
    rw [List.perm_iff_count]
    intro i
    have hi := hturn i
    simp only [popped, List.count_append, hbefore] at *
    simp [hplace]
    omega
  | @next vs u v _ hf ih =>
    rw [List.perm_iff_count]
    intro i
    have hturn := List.perm_iff_count.mp v.account i
    have hbefore := List.perm_iff_count.mp ih i
    have hpop : (popped [v]).count i + v.before.ids.count i = u.after.ids.count i := by
      cases hf with
      | popped _ hids hplace => simp [popped, hplace, hids, List.count_cons, Nat.add_comm]
      | finishing _ hids hnil hplace | finished _ hids hnil hplace =>
        simp [popped, hplace, hids, hnil]
    simp only [popped, List.filter_append, List.map_append, List.flatMap_append,
      List.flatMap_singleton, List.count_append] at *
    omega

/-- **What a call that gets to `finished_handling` has popped**: all that was pending and all that
was added before, less what was replaced. -/
theorem Path.account_finished {p : Pending} {vs : List Visit} {v : Visit} (h : Path p vs v)
    (hv : v.place = .finished) :
    (p.ids ++ vs.flatMap (·.added)).Perm (popped vs ++ vs.flatMap (·.removed)) := by
  have hnil : v.before.ids = [] := by
    cases h with
    | start hplace => simp [hv] at hplace
    | next _ hf =>
      cases hf with
      | popped _ _ hplace => simp [hv] at hplace
      | finishing _ _ hnil _ => exact hnil
      | finished _ _ hnil _ => exact hnil
  rw [List.perm_iff_count]
  intro i
  have hall := List.perm_iff_count.mp h.account i
  have hturn := List.perm_iff_count.mp v.account i
  have hpop : popped [v] = [] := by simp [popped, hv]
  simp only [popped, List.filter_append, List.map_append, List.flatMap_append,
    List.flatMap_singleton, List.count_append, hnil, List.count_nil] at *
  simp only [hpop, List.count_nil] at hall
  omega

end Visit

section Code

variable [DecidableEq ε] (consume : κ → ε → EStateM Fault (ε → EventObj ε) Bool)
  (script : World ε κ → IdType → ε → Behaviour ε) {e : ε}

/-- Handlers that behave as `script` says. -/
def throwing (id : IdType) (e : ε) : Exec ε κ Unit := do
  let b := script (← get) id e
  (b.acts.map Act.deed).forM (Deed.perform consume e)
  b.finish

/-- What a part of `handle` changes: `shown` and the registrations `followers` are in the log, and
the afterwards events of `e` have grown by `followers`. -/
structure Changes (e : ε) (w w' : World ε κ) (shown : List (Entry ε)) (followers : List ε) :
    Prop where
  log : ∃ more, w'.log = w.log ++ more ∧ more.filter (·.isShown) = shown ∧
    followUps e more = followers
  registered : (w'.registered e).getD [] = (w.registered e).getD [] ++ followers
  main : w'.main = w.main
  others : ∀ x, x ≠ e → w'.events x = w.events x

theorem Changes.refl (w : World ε κ) : Changes e w w [] [] :=
  ⟨⟨[], by simp, rfl, rfl⟩, by simp, rfl, fun _ _ => rfl⟩

variable {consume script} in
theorem Changes.trans {w₁ w₂ w₃ : World ε κ} {s₁ s₂ : List (Entry ε)} {f₁ f₂ : List ε}
    (h₁ : Changes e w₁ w₂ s₁ f₁) (h₂ : Changes e w₂ w₃ s₂ f₂) :
    Changes e w₁ w₃ (s₁ ++ s₂) (f₁ ++ f₂) where
  log := by
    obtain ⟨l₁, hlog₁, hs₁, hf₁⟩ := h₁.log
    obtain ⟨l₂, hlog₂, hs₂, hf₂⟩ := h₂.log
    refine ⟨l₁ ++ l₂, by rw [hlog₂, hlog₁, List.append_assoc], ?_, ?_⟩
    · rw [List.filter_append, hs₁, hs₂]
    · rw [← hf₁, ← hf₂, followUps, followUps, followUps, List.filterMap_append]
  registered := by rw [h₂.registered, h₁.registered, List.append_assoc]
  main := h₂.main.trans h₁.main
  others x hx := (h₂.others x hx).trans (h₁.others x hx)

/-- A change of the id queue or of `current_id` of `e`. -/
theorem Changes.set (w : World ε κ) {o : EventObj ε}
    (ho : o.handleAfterwards = (w.events e).handleAfterwards) : Changes e w (w.set e o) [] [] where
  log := ⟨[], by simp, rfl, rfl⟩
  registered := by simp [World.registered, ho]
  main := rfl
  others _ hx := w.set_events_ne hx o

/-- One more record, which is no registration. -/
theorem Changes.record (w : World ε κ) {r : Entry ε} (hr : r.isShown = true) :
    Changes e w (w.record r) [r] [] where
  log := by
    refine ⟨[r], rfl, by simp [hr], ?_⟩
    cases r <;> simp_all [followUps, Entry.isShown]
  registered := by simp [World.registered]
  main := rfl
  others _ _ := rfl

/-- One act. -/
theorem act_changes {w : World ε κ} {p : Pending} (h : w.Holds e p) (a : Act ε) :
    ∃ w', a.deed.perform consume e w = .ok () w' ∧
      Changes e w w' ((Act.calls [a]).map (.queueAs e)) (Act.registered [a]) ∧
      w'.Holds e (Turn.pendingAfter p (Act.calls [a])) := by
  cases a with
  | queueAs c =>
    obtain ⟨q, hcall, hq⟩ := IdQueue.call_spec h c
    let w₁ := w.set e { w.events e with idQueue := q }
    have hset : Changes e w w₁ [] [] := .set w rfl
    have hrecord : Changes e w₁ (w₁.record (.queueAs e c)) [.queueAs e c] [] := .record w₁ rfl
    refine ⟨w₁.record (.queueAs e c), ?_, hset.trans hrecord, ?_⟩
    · simp only [Act.deed, Deed.perform, hcall, w₁]
    · simpa [World.Holds, w₁, Turn.pendingAfter, Act.calls] using hq
  | afterwards follower =>
    refine ⟨_, rfl, ⟨⟨[.afterwards e follower], rfl, rfl, by simp [followUps, Act.registered]⟩,
      ?_, rfl, fun x hx => World.set_events_ne w hx _⟩, ?_⟩
    · simp [World.registered, Act.registered]
    · simpa [World.Holds, Turn.pendingAfter, Act.calls] using h

/-- All acts of the handlers of a dispatch. -/
theorem acts_changes {w : World ε κ} {p : Pending} (h : w.Holds e p) (acts : List (Act ε)) :
    ∃ w', (acts.map Act.deed).forM (Deed.perform consume e) w = .ok () w' ∧
      Changes e w w' ((Act.calls acts).map (.queueAs e)) (Act.registered acts) ∧
      w'.Holds e (Turn.pendingAfter p (Act.calls acts)) := by
  induction acts generalizing w p with
  | nil => exact ⟨w, rfl, .refl w, h⟩
  | cons a acts ih =>
    obtain ⟨w₁, hrun, hone, hw₁⟩ := act_changes consume h a
    obtain ⟨w', hrest, hall, hw'⟩ := ih hw₁
    have hcalls : Act.calls (a :: acts) = Act.calls [a] ++ Act.calls acts :=
      List.filterMap_append (l := [a])
    have hreg : Act.registered (a :: acts) = Act.registered [a] ++ Act.registered acts :=
      List.filterMap_append (l := [a])
    refine ⟨w', (Program.bind_ok hrun).trans hrest, ?_, ?_⟩
    · rw [hcalls, hreg, List.map_append]
      exact hone.trans hall
    · rw [hcalls, Turn.pendingAfter, List.foldl_append]
      exact hw'

/-- `w'` is the world in which a handler of `id` threw, but for `current_id`. -/
def Thrown (e : ε) (id : IdType) (k : Nat) (current : IdType) (w' : World ε κ) : Prop :=
  ∃ w thrown : World ε κ,
    throwing consume script id e (w.dispatching e id) = .error (.foreign k) thrown ∧
      w' = thrown.set e { thrown.events e with currentId := current }

/-- **A dispatch is a visit**, whether its handlers return or throw. -/
theorem handleAs_visit {w : World ε κ} {p : Pending} (h : w.Holds e p) (id : IdType)
    (place : Place) :
    ∃ v : Visit, ∃ w' followers, v.id = id ∧ v.before = p ∧ v.place = place ∧
      Changes e w w' (v.entries e) followers ∧ w'.Holds e v.after ∧
      (w'.events e).currentId = (w.events e).currentId ∧
      (handleAs (throwing consume script) e id w = .ok () w' ∨
        ∃ k, handleAs (throwing consume script) e id w = .error (.foreign k) w' ∧
          Thrown consume script e id k (w.events e).currentId w') := by
  let w₁ := w.dispatching e id
  let b := script w₁ id e
  have hw₁ : w₁.Holds e p := by simpa [World.Holds, w₁, World.dispatching] using h
  obtain ⟨w₂, hrun, hacts, hw₂⟩ := acts_changes consume hw₁ b.acts
  let w' := w₂.set e { w₂.events e with currentId := (w.events e).currentId }
  have hp : (w.events e).idQueue.pending = some p.ids := h
  have hbegin : Changes e w w₁ [.dispatch e id (some p.ids)] [] := by
    rw [← hp]
    exact (Changes.set (o := { w.events e with currentId := id }) w rfl).trans (.record _ rfl)
  have hrestore : Changes e w₂ w' [] [] := .set w₂ rfl
  refine ⟨⟨⟨id, p, Act.calls b.acts⟩, place⟩, w', Act.registered b.acts, rfl, rfl, rfl, ?_, ?_,
    by simp [w'], ?_⟩
  · simpa [Turn.entries] using (hbegin.trans hacts).trans hrestore
  · simpa [World.Holds, w', Turn.after] using hw₂
  · have hsig : throwing consume script id e w₁ = b.finish w₂ := by
      rw [throwing, Program.get_bind]
      exact Program.bind_ok hrun
    unfold Behaviour.finish at hsig
    cases hb : b.throws with
    | none =>
      left
      rw [hb] at hsig
      simp only [handleAs]
      rw [show throwing consume script id e ((w.set e { w.events e with currentId := id }).record
        (.dispatch e id (w.events e).idQueue.pending)) = .ok () w₂ from hsig]
    | some k =>
      right
      rw [hb] at hsig
      refine ⟨k, ?_, w, w₂, hsig, rfl⟩
      simp only [handleAs]
      rw [show throwing consume script id e ((w.set e { w.events e with currentId := id }).record
        (.dispatch e id (w.events e).idQueue.pending)) = .error (.foreign k) w₂ from hsig]

/-! ## The loops -/

/-- A call that began in `w₀` with `p` pending has made the visits `vs` and then `v`. -/
structure Made (e : ε) (p : Pending) (w₀ w : World ε κ) (vs : List Visit) (v : Visit) : Prop where
  path : v.Path p vs
  changes : ∃ followers, Changes e w₀ w ((vs ++ [v]).flatMap (·.entries e)) followers
  current : (w.events e).currentId = (w₀.events e).currentId
  pending : w.Holds e v.after

/-- How a part of a call ends, where `Q` is said of the last visit if it returns. -/
inductive Ends (e : ε) (p : Pending) (w₀ : World ε κ) (Q : Visit → Prop) :
    EStateM.Result Fault (World ε κ) Unit → Prop
  | cutOff (w : World ε κ) : Ends e p w₀ Q (.error .cutOff w)
  | thrown {vs : List Visit} {v : Visit} {w : World ε κ} {k : Nat} : Made e p w₀ w vs v →
    Thrown consume script e v.id k (w₀.events e).currentId w → Ends e p w₀ Q (.error (.foreign k) w)
  | returned {vs : List Visit} {v : Visit} {w : World ε κ} : Made e p w₀ w vs v → Q v →
    Ends e p w₀ Q (.ok () w)

variable {consume script} {p : Pending} {w₀ w : World ε κ} {vs : List Visit} {u : Visit}
  {Q R : Visit → Prop}

theorem Ends.bind {x : Exec ε κ Unit} {f : Unit → Exec ε κ Unit}
    (h : Ends consume script e p w₀ Q (x w))
    (hf : ∀ vs v w', Made e p w₀ w' vs v → Q v → Ends consume script e p w₀ R (f () w')) :
    Ends consume script e p w₀ R ((x >>= f) w) := by
  generalize hr : x w = r at h
  cases h with
  | cutOff w' =>
    rw [Program.bind_error hr]
    exact .cutOff w'
  | thrown hm ht =>
    rw [Program.bind_error hr]
    exact .thrown hm ht
  | returned hm hQ =>
    rw [Program.bind_ok hr]
    exact hf _ _ _ hm hQ

/-- The first dispatch. -/
theorem begin_ends (h : w₀.Holds e p) :
    Ends consume script e p w₀ (·.place = .beginning)
      (handleAs (throwing consume script) e Events.beginHandling w₀) := by
  obtain ⟨v, w', followers, hid, hbefore, hplace, hch, hpend, hcur, hrun⟩ :=
    handleAs_visit consume script h Events.beginHandling .beginning
  have hm : Made e p w₀ w' [] v :=
    ⟨.start hplace hid hbefore, ⟨followers, by simpa using hch⟩, hcur, hpend⟩
  rcases hrun with hrun | ⟨k, hrun, ht⟩
  · rw [hrun]
    exact .returned hm hplace
  · rw [hrun]
    rw [← hid] at ht
    exact .thrown hm ht

/-- Between two visits there is a pop. -/
structure Popped (e : ε) (w w' : World ε κ) (u : Visit) : Prop where
  run : popNext e w = .ok u.after.pop.1 w'
  changes : Changes e w w' [] []
  current : (w'.events e).currentId = (w.events e).currentId
  pending : w'.Holds e u.after.pop.2

theorem popNext_popped (h : w.Holds e u.after) : ∃ w', Popped e w w' u := by
  obtain ⟨hid, hrest⟩ := IdQueue.pop_spec h
  let w' := w.set e { w.events e with idQueue := (w.events e).idQueue.popNextQueuedId.2 }
  have hset : Changes e w w' [] [] := .set w rfl
  exact ⟨w', by rw [popNext, hid], hset, by simp [w'], by simpa [World.Holds, w'] using hrest⟩

/-- A pop of nothing changes nothing that is said of a visit. -/
theorem Made.popped (hm : Made e p w₀ w vs u) {w' : World ε κ} (hp : Popped e w w' u)
    (hnil : u.after.ids = []) : Made e p w₀ w' vs u := by
  obtain ⟨followers, hch⟩ := hm.changes
  refine ⟨hm.path, ⟨followers, ?_⟩, hp.current.trans hm.current, ?_⟩
  · simpa using hch.trans hp.changes
  · have hpend := hp.pending
    rwa [Pending.pop_of_nil hnil] at hpend

/-- A dispatch after a visit. `q` is pending when it begins. -/
theorem Made.visit (hm : Made e p w₀ w vs u) {w₁ : World ε κ} (hch : Changes e w w₁ [] [])
    (hcur : (w₁.events e).currentId = (w.events e).currentId) {q : Pending} (hq : w₁.Holds e q)
    (id : IdType) (place : Place)
    (hf : ∀ v : Visit, v.id = id → v.before = q → v.place = place → u.Follows v) :
    Ends consume script e p w₀ (·.place = place)
      (handleAs (throwing consume script) e id w₁) := by
  obtain ⟨v, w', followers, hid, hbefore, hplace, hv, hpend, hcur', hrun⟩ :=
    handleAs_visit consume script hq id place
  obtain ⟨earlier, hearlier⟩ := hm.changes
  have hcurrent := hcur.trans hm.current
  have hm' : Made e p w₀ w' (vs ++ [u]) v := by
    refine ⟨.next hm.path (hf v hid hbefore hplace), ⟨earlier ++ followers, ?_⟩,
      hcur'.trans hcurrent, hpend⟩
    simpa using (hearlier.trans hch).trans hv
  rcases hrun with hrun | ⟨k, hrun, ht⟩
  · rw [hrun]
    exact .returned hm' hplace
  · rw [hrun]
    rw [← hid, hcurrent] at ht
    exact .thrown hm' ht

/-- A valid popped id is dispatched next. -/
theorem Visit.Follows.of_pop {v : Visit} (hu : u.place ≠ .finished)
    (hpop : u.after.pop.1.isValid = true) (hid : v.id = u.after.pop.1)
    (hbefore : v.before = u.after.pop.2) (hplace : v.place = .queued) : u.Follows v := by
  refine .popped hu ?_ hplace
  rw [hid, hbefore]
  exact Pending.ids_eq_of_pop hpop

/-- **The inner loop** visits the popped ids, until nothing is pending. -/
theorem drain_ends (n : Nat) {w₁ : World ε κ} (hm : Made e p w₀ w vs u) (hp : Popped e w w₁ u)
    (hu : u.place ≠ .finished) (hnil : u.after.ids = [] → u.Opening) :
    Ends consume script e p w₀ (fun v => v.Opening ∧ v.after.ids = [])
      (drain (throwing consume script) e n u.after.pop.1 w₁) := by
  induction n generalizing w vs u w₁ with
  | zero =>
    by_cases hv : u.after.pop.1.isValid = true
    · rw [drain, if_pos hv]
      exact .cutOff w₁
    · have hids := u.after.pop_invalid_iff.mp (by simpa using hv)
      rw [drain, if_neg hv]
      exact .returned (hm.popped hp hids) ⟨hnil hids, hids⟩
  | succ n ih =>
    by_cases hv : u.after.pop.1.isValid = true
    · rw [drain, if_pos hv]
      refine (hm.visit hp.changes hp.current hp.pending u.after.pop.1 .queued
        fun v => .of_pop hu hv).bind fun vs' v w₂ hm₂ hplace => ?_
      obtain ⟨w₃, hp₃⟩ := popNext_popped hm₂.pending
      rw [Program.bind_ok hp₃.run]
      exact ih hm₂ hp₃ (by simp [hplace]) fun _ => .inr hplace
    · have hids := u.after.pop_invalid_iff.mp (by simpa using hv)
      rw [drain, if_neg hv]
      exact .returned (hm.popped hp hids) ⟨hnil hids, hids⟩

/-- **The outer loop** ends with a visit for `finishing_handling` that leaves nothing pending. -/
theorem rounds_ends (n : Nat) {w₁ : World ε κ} (hm : Made e p w₀ w vs u) (hp : Popped e w w₁ u)
    (hu : u.place ≠ .finished) (hnil : u.after.ids = [] → u.Opening) :
    Ends consume script e p w₀ (fun v => v.place = .finishing ∧ v.after.ids = [])
      (rounds (throwing consume script) e n u.after.pop.1 w₁) := by
  induction n generalizing w vs u w₁ with
  | zero => exact .cutOff w₁
  | succ n ih =>
    rw [rounds]
    refine (drain_ends (n + 1) hm hp hu hnil).bind fun vs₂ v₂ w₂ hm₂ hdrained => ?_
    obtain ⟨hopen, hids⟩ := hdrained
    refine (hm₂.visit (.refl w₂) rfl hm₂.pending Events.finishingHandling .finishing
      fun v hid hbefore hplace => .finishing hopen hids (by rw [hbefore, hids]) hplace hid).bind
      fun vs₃ v₃ w₃ hm₃ hplace => ?_
    obtain ⟨w₄, hp₄⟩ := popNext_popped hm₃.pending
    rw [Program.bind_ok hp₄.run]
    by_cases hv : v₃.after.pop.1.isValid = true
    · rw [if_pos hv]
      refine ih hm₃ hp₄ (by simp [hplace]) fun h => ?_
      simp [v₃.after.pop_invalid_iff.mpr h] at hv
    · have hids₃ := v₃.after.pop_invalid_iff.mp (by simpa using hv)
      rw [if_neg hv]
      exact .returned (hm₃.popped hp₄ hids₃) ⟨hplace, hids₃⟩

/-- **All dispatches of a call.** -/
theorem dispatches_ends (n : Nat) (h : w₀.Holds e p) :
    Ends consume script e p w₀ (·.place = .finished)
      (dispatches (throwing consume script) n e w₀) := by
  rw [dispatches]
  refine (begin_ends h).bind fun vs₁ v₁ w₁ hm₁ hplace₁ => ?_
  obtain ⟨w₂, hp₂⟩ := popNext_popped hm₁.pending
  rw [Program.bind_ok hp₂.run]
  refine (rounds_ends n hm₁ hp₂ (by simp [hplace₁]) fun _ => .inl hplace₁).bind
    fun vs₃ v₃ w₃ hm₃ hrounds => ?_
  obtain ⟨hplace₃, hids₃⟩ := hrounds
  exact hm₃.visit (.refl w₃) rfl hm₃.pending Events.finishedHandling .finished
    fun v hid hbefore hplace => .finished hplace₃ hids₃ (by rw [hbefore, hids₃]) hplace hid

/-! ## Two calls -/

/-- The end of a call that returns: the afterwards events go in front of the main queue, in one
section and in their order, and are registered no more. -/
theorem flush_puts {w' : World ε κ} (h : flushAfterwards consume e w = .ok () w') :
    w'.registered e = none ∧
      ((w.registered e).getD [] ≠ [] → ∃ s s',
        MainQueue.flush consume ((w.registered e).getD []) w.main s = .ok () (w'.main, s')) ∧
      ∃ taken, (w.registered e).getD [] ++ w.main.queue = taken ++ w'.main.queue ∧
        (w.main.queueConsumers = [] → taken = []) := by
  have hidle : w.main.queueConsumers = [] →
      w'.main.queue = (w.registered e).getD [] ++ w.main.queue := by
    intro hw
    obtain ⟨w₁, hrun, -, -, hqueue, -⟩ := flush_spec consume (e := e) hw
    rw [h] at hrun
    cases hrun
    exact hqueue
  unfold flushAfterwards at h
  cases ho : (w.events e).handleAfterwards with
  | none =>
    rw [ho] at h
    cases h
    refine ⟨ho, fun hne => absurd ?_ hne, [], ?_, fun _ => rfl⟩ <;> simp [World.registered, ho]
  | some events =>
    have hreg : (w.registered e).getD [] = events := by simp [World.registered, ho]
    simp only [ho] at h
    cases hmain : Exec.onMain (MainQueue.flush consume events) w with
    | error => simp [hmain] at h
    | ok _ w₁ =>
      simp only [hmain] at h
      cases h
      unfold Exec.onMain at hmain
      cases hflush : MainQueue.flush consume events w.main w.events with
      | error => simp [hflush] at hmain
      | ok _ r =>
        obtain ⟨main, objs⟩ := r
        simp only [hflush] at hmain
        cases hmain
        refine ⟨by simp [World.registered], fun _ => ⟨w.events, objs, ?_⟩, ?_⟩
        · rw [hreg]
          exact hflush
        by_cases hw : w.main.queueConsumers = []
        · exact ⟨[], (hidle hw).symm, fun _ => rfl⟩
        · have hk : MainQueue.Keeps consume fun _ _ => True := fun _ _ _ _ _ _ _ _ => trivial
          obtain ⟨taken, hq, -⟩ := MainQueue.tryUnqueue_inv hk trivial hflush
          exact ⟨taken, by simpa [hreg] using hq, fun h => absurd h hw⟩

variable (consume script)

/-- What a call leaves whose visit `v` a handler ends with the exception `k`. -/
structure Interrupted (e : ε) (p : Pending) (k : Nat) (w w₁ : World ε κ) (vs : List Visit)
    (v : Visit) (followers : List ε) : Prop where
  path : v.Path p vs
  changes : Changes e w w₁ ((vs ++ [v]).flatMap (·.entries e)) followers
  thrown : Thrown consume script e v.id k (w.events e).currentId w₁
  current : (w₁.events e).currentId = (w.events e).currentId
  pending : w₁.Holds e v.after
  account : (p.ids ++ (vs ++ [v]).flatMap (·.added)).Perm
    (Visit.popped (vs ++ [v]) ++ (vs ++ [v]).flatMap (·.removed) ++ v.after.ids)

/-- What a call does that returns, where `p` is pending and `kept` is registered before it. -/
structure Resumed (e : ε) (p : Pending) (kept : List ε) (w w₁ : World ε κ) (vs : List Visit)
    (v : Visit) (followers : List ε) : Prop where
  path : v.Path p vs
  finished : v.place = .finished
  log : ∃ more, w₁.log = w.log ++ more ∧
    more.filter (·.isShown) = (vs ++ [v]).flatMap (·.entries e) ∧ followUps e more = followers
  account : (p.ids ++ vs.flatMap (·.added)).Perm (Visit.popped vs ++ vs.flatMap (·.removed))
  unregistered : w₁.registered e = none
  flushed : kept ++ followers ≠ [] →
    ∃ s s', MainQueue.flush consume (kept ++ followers) w.main s = .ok () (w₁.main, s')
  queue : ∃ taken, kept ++ followers ++ w.main.queue = taken ++ w₁.main.queue ∧
    (w.main.queueConsumers = [] → taken = [])

variable {consume script}

/-- A call that a handler interrupts. -/
theorem dispatches_interrupted {n k : Nat} {w₁ : World ε κ} (hp : w.Holds e p)
    (h : dispatches (throwing consume script) n e w = .error (.foreign k) w₁) :
    ∃ vs v followers, Interrupted consume script e p k w w₁ vs v followers := by
  have hends : Ends consume script e p w (·.place = .finished) (.error (.foreign k) w₁) :=
    h ▸ dispatches_ends n hp
  cases hends with
  | @thrown vs v _ _ hm ht =>
    obtain ⟨followers, hch⟩ := hm.changes
    exact ⟨vs, v, followers, hm.path, hch, ht, hm.current, hm.pending, hm.path.account⟩

/-- A call that returns. -/
theorem handle_resumed {n : Nat} {w₁ : World ε κ} (hp : w.Holds e p)
    (h : handle consume (throwing consume script) n e w = .ok () w₁) :
    ∃ vs v followers, Resumed consume e p ((w.registered e).getD []) w w₁ vs v followers := by
  obtain ⟨_, w₂, hd, hflush⟩ := Program.of_bind_ok h
  have hends : Ends consume script e p w (·.place = .finished) (.ok () w₂) :=
    hd ▸ dispatches_ends n hp
  cases hends with
  | @returned vs v _ hm hplace =>
    obtain ⟨followers, hch⟩ := hm.changes
    obtain ⟨hnone, hflushed, hqueue⟩ := flush_puts hflush
    have hlog : (Exec.world (flushAfterwards consume e w₂)).log = w₂.log := flush_log w₂
    rw [hflush] at hlog
    replace hlog : w₁.log = w₂.log := hlog
    rw [hch.registered, hch.main] at hflushed hqueue
    refine ⟨vs, v, followers, hm.path, hplace, ?_, hm.path.account_finished hplace, hnone,
      hflushed, hqueue⟩
    rw [hlog]
    exact hch.log

/-- **An exception loses nothing.** If a handler throws at any dispatch of a call of `handle`, then
`current_id` has its old value; what is pending is what the handler left pending, and it is what was
pending before the call and was added, less what was popped or replaced; and the afterwards events
are those of before and the registered ones. The next call that returns, with any handlers and
whatever happened to the main queue and the other events before it, pops what was left and what is
added, and puts what was kept in front of the main queue, in order and once. -/
theorem handle_resumes {n k : Nat} {w₁ : World ε κ} (hp : w.Holds e p)
    (h : dispatches (throwing consume script) n e w = .error (.foreign k) w₁) :
    handle consume (throwing consume script) n e w = .error (.foreign k) w₁ ∧
    ∃ vs v followers, Interrupted consume script e p k w w₁ vs v followers ∧
      ∀ script' m (w₂ w₃ : World ε κ), w₂.events e = w₁.events e →
        handle consume (throwing consume script') m e w₂ = .ok () w₃ →
        ∃ us u followers', Resumed consume e v.after ((w.registered e).getD [] ++ followers)
          w₂ w₃ us u followers' := by
  obtain ⟨vs, v, followers, hint⟩ := dispatches_interrupted hp h
  refine ⟨Program.bind_error h, vs, v, followers, hint, fun script' m w₂ w₃ hsame hnext => ?_⟩
  have hpend : w₂.Holds e v.after := by
    rw [World.Holds, hsame]
    exact hint.pending
  have hkept : (w₂.registered e).getD [] = (w.registered e).getD [] ++ followers := by
    rw [World.registered, hsame]
    exact hint.changes.registered
  rw [← hkept]
  exact handle_resumed hpend hnext

end Code

/-- The handlers of the first user id queue another one and register the event `true`, and throw. -/
def faultyScript (_ : World Bool Empty) (id : IdType) (_ : Bool) : Behaviour Bool :=
  let user := IdType.ofEnum (.user 0)
  if id = user 1 then
    { acts := [.queueAs (.single (user 3) .discard .atBack 0), .afterwards true], throws := some 7 }
  else { acts := [] }

def faultyWorld : World Bool Empty where
  events _ := { idQueue := ⟨[.ofEnum (.user 0) 1, .ofEnum (.user 0) 2], 0⟩ }

def faultyConsume (k : Empty) : Bool → EStateM Fault (Bool → EventObj Bool) Bool := k.elim

/-- The world behind the exception. -/
def faultyRest : World Bool Empty :=
  Exec.world (dispatches (throwing faultyConsume faultyScript) 5 false faultyWorld)

theorem handle_resumes_faulty :
    handle faultyConsume (throwing faultyConsume faultyScript) 5 false faultyWorld =
      .error (.foreign 7) faultyRest ∧
    ∃ vs v followers, Interrupted faultyConsume faultyScript false
        ⟨[.ofEnum (.user 0) 1, .ofEnum (.user 0) 2], by decide⟩ 7 faultyWorld faultyRest vs v
        followers ∧
      ∀ script' m (w₂ w₃ : World Bool Empty), w₂.events false = faultyRest.events false →
        handle faultyConsume (throwing faultyConsume script') m false w₂ = .ok () w₃ →
        ∃ us u followers', Resumed faultyConsume false v.after ([] ++ followers) w₂ w₃ us u
          followers' := by
  have hp : faultyWorld.Holds false
      ⟨[.ofEnum (.user 0) 1, .ofEnum (.user 0) 2], by decide⟩ := by
    unfold World.Holds
    rfl
  have hrun : dispatches (throwing faultyConsume faultyScript) 5 false faultyWorld =
      .error (.foreign 7) faultyRest := rfl
  exact handle_resumes hp hrun

end Slirc
