import Slirc.EventManager.Resume
import Slirc.Lib.Machine
import Slirc.Lib.Scopes

/-!
# Nested dispatches

A handler may dispatch an event again, also the one that it handles: by `handle_as`, or by `handle`.
What runs at a time are the handlers of the innermost dispatch (`Nesting.frames`), and what they do
next is a call of the machine `nesting`: its runs are all trees of nested dispatches, with handlers
that return or throw anywhere.

* `Place.next`: how `handle` goes on when a dispatch has returned.
* `current_id_innermost`: `current_id` is always the id of the innermost dispatch of the event.
* `refused_iff`: an invalid id is refused by the constructor of an event only.
-/

namespace Slirc

variable {ε κ : Type}

/-- Consumers. They cannot write `current_id`, which is private to the event. -/
structure Consumers (ε κ : Type) where
  consume : κ → ε → EStateM Fault (ε → EventObj ε) Bool
  keeps : ∀ k x, Program.Frames (fun events e => (events e).currentId) (consume k x)

/-- A dispatch in progress: `handle_as` is in the scope of its `scoped_swap`. -/
structure Frame (ε : Type) extends Scope ε IdType where
  /-- The place of `handle` that it was made from, unless other code called `handle_as`. -/
  place : Option Place
  deriving DecidableEq, Repr

/-- The events, and the dispatches in progress, of which the innermost is the first. -/
structure Nesting (ε κ : Type) where
  world : World ε κ
  frames : List (Frame ε) := []

/-- What the code that runs does next. -/
inductive NestedCall (ε : Type) where
  | makeEvent (id : IdType)
  | deed (e : ε) (d : Deed ε)
  | handleAs (e : ε) (id : IdType)
  | handle (e : ε)
  /-- The handlers of the innermost dispatch return. -/
  | leave
  /-- An exception leaves the handlers of the innermost dispatch. -/
  | throw (x : Fault)
  deriving DecidableEq, Repr

/-- How a call ends, if it does not begin a dispatch. -/
inductive NestedAnswer where
  | began
  | returned
  | threw (x : Fault)
  deriving DecidableEq, Repr

section Code

variable [DecidableEq ε]

/-- How `handle` goes on after a dispatch that it made at a place, which has returned: the place and
the id of the next one, if there is one. -/
def Place.next (e : ε) (place : Place) (w : World ε κ) : Option (Place × IdType × World ε κ) :=
  let r := (w.events e).idQueue.popNextQueuedId
  let w := w.set e { w.events e with idQueue := r.2 }
  match place with
  | .beginning | .queued =>
    if r.1.isValid then some (.queued, r.1, w)
    else some (.finishing, Events.finishingHandling, w)
  | .finishing =>
    if r.1.isValid then some (.queued, r.1, w)
    else some (.finished, Events.finishedHandling, w)
  | .finished => none

/-- `handle` pops an id after every dispatch but the last one. -/
theorem Place.next_world {e : ε} {place next : Place} {id : IdType} {w w' : World ε κ}
    (h : place.next e w = some (next, id, w')) :
    w' = w.set e { w.events e with idQueue := (w.events e).idQueue.popNextQueuedId.2 } := by
  cases place with
  | beginning | queued | finishing =>
    simp only [Place.next] at h
    split at h <;> cases h <;> rfl
  | finished => cases h

namespace Nesting

/-- The handlers of a dispatch begin. -/
def enter (s : Nesting ε κ) (e : ε) (id : IdType) (place : Option Place) : Nesting ε κ where
  world := s.world.dispatching e id
  frames := ⟨⟨e, id, (s.world.events e).currentId⟩, place⟩ :: s.frames

/-- `scoped_swap` gives `current_id` its old value back. -/
def restore (f : Frame ε) (w : World ε κ) : World ε κ :=
  w.set f.key { w.events f.key with currentId := f.saved }

/-- The end of a program that was called with `frames` in progress. -/
def ended (frames : List (Frame ε)) :
    EStateM.Result Fault (World ε κ) Unit → Option (NestedAnswer × Nesting ε κ)
  | .ok () world => some (.returned, { world, frames })
  | .error .undefined _ => none
  | .error x world => some (.threw x, { world, frames })

/-- The handlers of the innermost dispatch have returned: `handle`, if it has made the dispatch,
goes on with the next one, or puts the afterwards events on the main queue and returns. -/
def leave (c : Consumers ε κ) (f : Frame ε) (frames : List (Frame ε)) (w : World ε κ) :
    Option (NestedAnswer × Nesting ε κ) :=
  match f.place with
  | none => some (.returned, { world := w, frames })
  | some place =>
    match place.next f.key w with
    | some (next, id, world) => some (.began, enter { world, frames } f.key id (some next))
    | none => ended frames (flushAfterwards c.consume f.key w)

def step (c : Consumers ε κ) (s : Nesting ε κ) :
    NestedCall ε → Option (NestedAnswer × Nesting ε κ)
  | .makeEvent id =>
    match IdQueue.make id with
    | .ok _ => some (.returned, s)
    | .error x => some (.threw x, s)
  | .deed e d => ended s.frames (d.perform c.consume e s.world)
  | .handleAs e id => some (.began, s.enter e id none)
  | .handle e => some (.began, s.enter e Events.beginHandling (some .beginning))
  | .leave =>
    match s.frames with
    | [] => none
    | f :: frames => leave c f frames (restore f s.world)
  | .throw x =>
    match s.frames with
    | [] => none
    | f :: frames => some (.threw x, { world := restore f s.world, frames })

/-- The dispatches in progress as scopes of `current_id`. -/
def scopes (s : Nesting ε κ) : List (Scope ε IdType) := s.frames.map Frame.toScope

/-- The id of the innermost dispatch of an event that is in progress. -/
def innermost (s : Nesting ε κ) (e : ε) : Option IdType := Scope.innermost s.scopes e

end Nesting

/-- The runs of code with nested dispatches. -/
def nesting (c : Consumers ε κ) : Machine (Nesting ε κ) (NestedCall ε) NestedAnswer :=
  ⟨Nesting.step c⟩

end Code

/-! ## `current_id` -/

def World.currentIds (w : World ε κ) (e : ε) : IdType := (w.events e).currentId

/-- What the consumers do not change, a section of the main queue does not change, whether it
returns or is ended by one of them. -/
theorem MainQueue.tryUnqueueLoop_frames {σ τ : Type} {m : σ → τ}
    {consume : κ → ε → EStateM Fault σ Bool} (h : ∀ k x, Program.Frames m (consume k x))
    (ks : List κ) (q : MainQueue ε κ) (s : σ) :
    m (Program.final (tryUnqueueLoop consume ks q s)).2 = m s := by
  fun_induction tryUnqueueLoop consume ks q s with
  | case1 | case2 => rfl
  | case3 k ks q s e rest hq t hc ih | case4 k ks q s e rest hq t hc ih =>
    have hone := h k e s
    rw [hc] at hone
    exact ih.trans hone
  | case5 k ks q s e rest hq x t hc =>
    have hone := h k e s
    rw [hc] at hone
    exact hone

theorem MainQueue.tryUnqueue_frames {σ τ : Type} {m : σ → τ}
    {consume : κ → ε → EStateM Fault σ Bool} (h : ∀ k x, Program.Frames m (consume k x))
    (q : MainQueue ε κ) (s : σ) : m (Program.final (tryUnqueue consume q s)).2 = m s := by
  have hloop := tryUnqueueLoop_frames h (q.queueConsumers.drop q.queueConsumerIndex) q s
  unfold tryUnqueue
  split <;> rename_i hr <;> rw [hr] at hloop <;> exact hloop

theorem onMain_currentIds {f : MainQueue ε κ → (ε → EventObj ε) →
      EStateM.Result Fault (MainQueue ε κ × (ε → EventObj ε)) Unit}
    (h : ∀ q events, (fun e => ((Program.final (f q events)).2 e).currentId) =
      fun e => (events e).currentId) :
    Program.Frames World.currentIds (Exec.onMain f) := by
  intro w
  have hw := h w.main w.events
  unfold Exec.onMain
  split <;> rename_i hr <;> rw [hr] at hw <;> exact hw

section CurrentId

variable [DecidableEq ε]

theorem currentIds_set (w : World ε κ) (e : ε) (o : EventObj ε) :
    (w.set e o).currentIds = Function.update w.currentIds e o.currentId := by
  funext x
  by_cases hx : x = e
  · subst hx
    simp [World.currentIds]
  · rw [Function.update_of_ne hx, World.currentIds, w.set_events_ne hx, World.currentIds]

/-- A change of an event that leaves its `current_id`. -/
theorem currentIds_set_same (w : World ε κ) {e : ε} {o : EventObj ε}
    (ho : o.currentId = (w.events e).currentId) : (w.set e o).currentIds = w.currentIds := by
  rw [currentIds_set, ho]
  exact Function.update_eq_self e w.currentIds

variable (c : Consumers ε κ)

theorem perform_currentIds (e : ε) (d : Deed ε) :
    Program.Frames World.currentIds (d.perform c.consume e : Exec ε κ Unit) := by
  cases d with
  | queueAs call =>
    intro w
    simp only [Deed.perform]
    split
    · rfl
    · exact currentIds_set_same w rfl
  | afterwards follower => exact fun w => currentIds_set_same w rfl
  | queue x =>
    refine Program.Keeps.bind ?_ fun _ w => rfl
    exact onMain_currentIds fun q =>
      MainQueue.tryUnqueue_frames c.keeps { q with queue := q.queue ++ [x] }

theorem flush_currentIds (e : ε) :
    Program.Frames World.currentIds (flushAfterwards c.consume e : Exec ε κ Unit) := by
  intro w
  have hmain : ∀ events, Program.Frames World.currentIds
      (Exec.onMain (MainQueue.flush c.consume events) : Exec ε κ Unit) :=
    fun events => onMain_currentIds fun q => MainQueue.tryUnqueue_frames c.keeps
      { q with queue := events.reverse.foldl (fun q e => e :: q) q.queue }
  unfold flushAfterwards
  split
  · rfl
  · rename_i events _
    have hw := hmain events w
    split
    · rename_i w₁ hr
      rw [hr] at hw
      have hset : (w₁.set e { w₁.events e with handleAfterwards := none }).currentIds =
          w₁.currentIds := currentIds_set_same w₁ rfl
      exact hset.trans hw
    · rename_i x w₁ hr
      rw [hr] at hw
      exact hw

namespace Nesting

variable {c} {w : World ε κ} {s s' : Nesting ε κ} {a : NestedAnswer}

/-- The dispatches in progress hold `current_id`, which was that of `w` outside of them. -/
def Held (w : World ε κ) (s : Nesting ε κ) : Prop :=
  Scope.Held w.currentIds s.scopes s.world.currentIds

/-- What `s` holds, `s'` holds that has the same dispatches in progress. -/
theorem Held.of_eq (h : Held w s) (hframes : s'.frames = s.frames)
    (hids : s'.world.currentIds = s.world.currentIds) : Held w s' := by
  unfold Held scopes at h ⊢
  rwa [hframes, hids]

theorem Held.enter (h : Held w s) (e : ε) (id : IdType) (place : Option Place) :
    Held w (s.enter e id place) := by
  have hids : (s.enter e id place).world.currentIds =
      Function.update s.world.currentIds e id := currentIds_set s.world e _
  rw [Held, hids]
  exact Scope.Held.enter e id h

theorem Held.restore {f : Frame ε} {frames : List (Frame ε)} (h : Held w s)
    (hs : s.frames = f :: frames) : Held w { world := restore f s.world, frames } := by
  unfold Held scopes at h ⊢
  rw [hs, List.map_cons] at h
  rw [Nesting.restore, currentIds_set]
  exact h.leave

theorem Held.ended {r : EStateM.Result Fault (World ε κ) Unit} (h : Held w s)
    (hr : (Program.final r).currentIds = s.world.currentIds)
    (hst : Nesting.ended s.frames r = some (a, s')) : Held w s' := by
  unfold Nesting.ended at hst
  split at hst <;> cases hst <;> exact h.of_eq rfl hr

theorem next_currentIds {e : ε} {place next : Place} {id : IdType} {w w' : World ε κ}
    (h : place.next e w = some (next, id, w')) : w'.currentIds = w.currentIds := by
  rw [Place.next_world h]
  exact currentIds_set_same w rfl

theorem Held.leave {f : Frame ε} (h : Held w s) (hst : leave c f s.frames s.world = some (a, s')) :
    Held w s' := by
  unfold Nesting.leave at hst
  split at hst
  · cases hst
    exact h
  split at hst
  · rename_i next id world hnext
    cases hst
    have hpopped : Held w { world, frames := s.frames } := h.of_eq rfl (next_currentIds hnext)
    exact hpopped.enter f.key id (some next)
  · exact h.ended (flush_currentIds c f.key s.world) hst

/-- **A step** of code with nested dispatches. -/
theorem step_held {call : NestedCall ε} (h : Held w s) (hst : s.step c call = some (a, s')) :
    Held w s' := by
  cases call with
  | makeEvent id =>
    simp only [step] at hst
    split at hst <;> cases hst <;> exact h
  | deed e d => exact h.ended (perform_currentIds c e d s.world) hst
  | handleAs e id =>
    cases hst
    exact h.enter e id none
  | handle e =>
    cases hst
    exact h.enter e Events.beginHandling (some .beginning)
  | leave =>
    simp only [step] at hst
    split at hst
    · cases hst
    · rename_i f frames hs
      exact (h.restore hs).leave hst
  | throw x =>
    simp only [step] at hst
    split at hst
    · cases hst
    · rename_i f frames hs
      cases hst
      exact h.restore hs

end Nesting

/-- **`current_id` is the id of the innermost dispatch.** Whatever handlers do, dispatch, return
from and throw out of, `current_id` of an event is at any time the id of the innermost dispatch of
the event that is in progress, which is what the handlers that run see; outside of all its
dispatches it has its value from before. -/
theorem current_id_innermost (c : Consumers ε κ) (w : World ε κ) (calls : List (NestedCall ε)) :
    (nesting c).AllStates (fun s =>
      (∀ e, (s.world.events e).currentId = (s.innermost e).getD (w.events e).currentId) ∧
      (∀ f frames, s.frames = f :: frames → (s.world.events f.key).currentId = f.value) ∧
      (s.frames = [] → ∀ e, (s.world.events e).currentId = (w.events e).currentId))
      { world := w } calls := by
  have hinit : Nesting.Held w { world := w } := Scope.Held.outside
  have hheld : (nesting c).AllStates (Nesting.Held w) { world := w } calls :=
    Machine.allStates_of_step (P := Nesting.Held w)
      (fun s call a s' hs hst => Nesting.step_held hs hst) hinit calls
  refine hheld.imp fun s hs => ?_
  have hvalue : ∀ e, (s.world.events e).currentId =
      (s.innermost e).getD (w.events e).currentId := fun e => Scope.Held.value hs e
  refine ⟨hvalue, fun f frames hframes => ?_, fun hframes e => ?_⟩
  · rw [hvalue f.key, Nesting.innermost, Nesting.scopes, hframes, List.map_cons, Scope.innermost,
      if_pos rfl, Option.getD_some]
  · rw [hvalue e, Nesting.innermost, Nesting.scopes, hframes, List.map_nil, Scope.innermost,
      Option.getD_none]

end CurrentId

/-! ## Invalid ids -/

/-- The calls that take an id, and are documented to throw if it is invalid. -/
inductive EntryPoint (ε : Type) where
  | makeEvent
  | handleAs (e : ε)
  | queueAs (e : ε) (strategy : QueuingStrategy) (position : QueuingPosition) (spare : Nat)
  deriving DecidableEq, Repr

def EntryPoint.call (id : IdType) : EntryPoint ε → NestedCall ε
  | .makeEvent => .makeEvent id
  | .handleAs e => .handleAs e id
  | .queueAs e strategy position spare => .deed e (.queueAs (.single id strategy position spare))

section Refusal

variable [DecidableEq ε]

/-- The call throws `invalid_event_id`, runs no handler, and changes neither what is pending nor
`current_id`. -/
def Nesting.Refuses (c : Consumers ε κ) (s : Nesting ε κ) (call : NestedCall ε) : Prop :=
  ∃ s', s.step c call = some (.threw .invalidEventId, s') ∧ s'.frames = s.frames ∧
    s'.world.log = s.world.log ∧
    ∀ e, (s'.world.events e).idQueue.pending = (s.world.events e).idQueue.pending ∧
      (s'.world.events e).currentId = (s.world.events e).currentId

/-- `queue_as` returns the status that the range form reports. -/
theorem IdQueue.call_invalid (q : IdQueue) {id : IdType} (h : id.isValid = false)
    (strategy : QueuingStrategy) (position : QueuingPosition) (spare : Nat) :
    q.call (.single id strategy position spare) = some ([.invalid], q) := by
  have hprepare : q.prepareAppendQueue [] id strategy = some (.invalid, q, []) := by
    unfold prepareAppendQueue
    rw [if_pos h]
  simp [call, queueAs, hprepare]

/-- **Only the constructor of an event refuses an invalid id.** In every state, however deeply
nested, `handle_as` dispatches it, and `queue_as` returns. -/
theorem refused_iff (c : Consumers ε κ) (s : Nesting ε κ) (p : EntryPoint ε) {id : IdType}
    (h : id.isValid = false) : s.Refuses c (p.call id) ↔ p = .makeEvent := by
  cases p with
  | makeEvent =>
    have hmake : IdQueue.make id = .error .invalidEventId := by
      rw [IdQueue.make, if_neg (by simp [h])]
    refine iff_of_true ⟨s, ?_, rfl, rfl, fun _ => ⟨rfl, rfl⟩⟩ rfl
    simp only [EntryPoint.call, Nesting.step, hmake]
  | handleAs e =>
    refine iff_of_false ?_ (by simp)
    rintro ⟨s', hst, -⟩
    cases hst
  | queueAs e strategy position spare =>
    refine iff_of_false ?_ (by simp)
    rintro ⟨s', hst, -⟩
    simp only [EntryPoint.call, Nesting.step, Deed.perform, IdQueue.call_invalid _ h] at hst
    cases hst

end Refusal

def noConsumers : Consumers Unit Empty where
  consume k := k.elim
  keeps k := k.elim

/-- A handler runs, of the id that was queued first. -/
def handling : Nesting Unit Empty where
  world :=
    { events := fun _ =>
        { idQueue := ⟨[.ofEnum (.user 0) 1, .ofEnum (.user 0) 2], 1⟩
          currentId := .ofEnum (.user 0) 1 } }
  frames := [⟨⟨(), .ofEnum (.user 0) 1, .invalid⟩, some .queued⟩]

theorem refused_iff_handling :
    handling.Refuses noConsumers (EntryPoint.makeEvent.call .invalid) ↔
      (EntryPoint.makeEvent : EntryPoint Unit) = .makeEvent :=
  refused_iff noConsumers handling .makeEvent IdType.isValid_invalid

/-- The handlers of the invalid id begin, and `queue_as` returns. -/
theorem invalid_accepted :
    (handling.step noConsumers (.handleAs () .invalid)).map (fun r => (r.1, r.2.frames.length)) =
      some (.began, 2) ∧
    (handling.step noConsumers (.deed () (.queueAs (.single .invalid .discard .atBack 0)))).map
      Prod.fst = some .returned ∧
    ¬handling.Refuses noConsumers ((EntryPoint.handleAs ()).call .invalid) ∧
    ¬handling.Refuses noConsumers ((EntryPoint.queueAs () .discard .atBack 0).call .invalid) := by
  refine ⟨by decide, by decide, ?_, ?_⟩
  · rintro ⟨s', hst, -⟩
    cases hst
  · rintro ⟨s', hst, -⟩
    cases hst

end Slirc
