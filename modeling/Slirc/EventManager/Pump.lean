import Slirc.EventManager.Trace
import Slirc.Lib.Worklist

/-!
# The event loop, and the order of follow-up events

A thread takes events with `wait_event` and handles each of them; nobody else waits for events
(`Pumps`). The handlers of an event `x` register the events `children x` to be handled afterwards
and queue the events `followers x` (`Scripted`).

`handle_spec`: a call of `handle` puts what was registered in front of the main queue, and has put
what was queued behind it. So the main queue is a worklist, and the events are handled in its
order (`handled_depth_first`).
-/

namespace Slirc

variable {ε κ : Type}

/-- The events that a piece of the log registers to be handled after `e`. -/
def followUps [DecidableEq ε] (e : ε) (log : List (Entry ε)) : List ε :=
  log.filterMap fun
    | .afterwards x follower => if x = e then some follower else none
    | _ => none

/-- The events that a piece of the log puts behind the main queue. -/
def queued (log : List (Entry ε)) : List ε :=
  log.filterMap fun
    | .queue x => some x
    | _ => none

section Code

variable [DecidableEq ε] {consume : κ → ε → EStateM Fault (ε → EventObj ε) Bool}
  {deeds : World ε κ → IdType → ε → List (Deed ε)} {e : ε}

/-- How the handling of `e` changes the world before its end: events are put behind the main queue
and registered, and the other events stay as they are. -/
structure Grew (e : ε) (w w' : World ε κ) (more : List (Entry ε)) : Prop where
  log : w'.log = w.log ++ more
  queue : w'.main.queue = w.main.queue ++ queued more
  registered : (w'.events e).handleAfterwards.getD [] =
    (w.events e).handleAfterwards.getD [] ++ followUps e more
  idle : w'.main.queueConsumers = []
  others : ∀ x, x ≠ e → w'.events x = w.events x ∧ ∀ id p, Entry.dispatch x id p ∉ more

/-- While no consumer waits, a part of the handling of `e` only does this. -/
def Grows {α : Type} (e : ε) (x : Exec ε κ α) : Prop :=
  ∀ w a w', w.main.queueConsumers = [] → x w = .ok a w' → ∃ more, Grew e w w' more

theorem Grew.refl {w : World ε κ} (hw : w.main.queueConsumers = []) : Grew e w w [] :=
  ⟨by simp, by simp [queued], by simp [followUps], hw, fun _ _ => ⟨rfl, by simp⟩⟩

theorem Grew.trans {w₁ w₂ w₃ : World ε κ} {l₁ l₂ : List (Entry ε)} (h₁ : Grew e w₁ w₂ l₁)
    (h₂ : Grew e w₂ w₃ l₂) : Grew e w₁ w₃ (l₁ ++ l₂) where
  log := by rw [h₂.log, h₁.log, List.append_assoc]
  queue := by
    rw [h₂.queue, h₁.queue, queued, queued, queued, List.filterMap_append, List.append_assoc]
  registered := by
    rw [h₂.registered, h₁.registered, followUps, followUps, followUps, List.filterMap_append,
      List.append_assoc]
  idle := h₂.idle
  others x hx := by
    refine ⟨((h₂.others x hx).1).trans (h₁.others x hx).1, fun id p hm => ?_⟩
    rcases List.mem_append.mp hm with hm | hm
    · exact (h₁.others x hx).2 id p hm
    · exact (h₂.others x hx).2 id p hm

/-- A change of the id queue or of `current_id` of `e`. -/
theorem Grew.set {w : World ε κ} (hw : w.main.queueConsumers = []) {o : EventObj ε}
    (ho : o.handleAfterwards = (w.events e).handleAfterwards) : Grew e w (w.set e o) [] where
  log := by simp
  queue := by simp [queued]
  registered := by simp [ho, followUps]
  idle := hw
  others x hx := ⟨w.set_events_ne hx o, by simp⟩

theorem Grows.pure {α : Type} (a : α) : Grows e (Pure.pure a : Exec ε κ α) := by
  intro w b w' hw h
  cases h
  exact ⟨[], .refl hw⟩

theorem Grows.bind {α β : Type} {x : Exec ε κ α} {f : α → Exec ε κ β} (hx : Grows e x)
    (hf : ∀ a, Grows e (f a)) : Grows e (x >>= f) := by
  intro w b w' hw h
  obtain ⟨a, w₁, hr, hrest⟩ := Program.of_bind_ok h
  obtain ⟨l₁, h₁⟩ := hx w a w₁ hw hr
  obtain ⟨l₂, h₂⟩ := hf a w₁ b w' h₁.idle hrest
  exact ⟨_, h₁.trans h₂⟩

omit [DecidableEq ε] in
/-- `queue` while no consumer waits. -/
theorem push_idle {w : World ε κ} (hw : w.main.queueConsumers = []) (y : ε) :
    Exec.onMain (MainQueue.pushBack consume y) w =
      .ok () { w with main := { w.main with queue := w.main.queue ++ [y] } } := by
  simp [Exec.onMain, MainQueue.pushBack, MainQueue.tryUnqueue_idle, hw]

/-- The record of a deed. -/
def Deed.entry (e : ε) : Deed ε → Entry ε
  | .queueAs c => .queueAs e c
  | .afterwards follower => .afterwards e follower
  | .queue x => .queue x

/-- **Each deed of a handler** registers, queues, or does neither. -/
theorem perform_grew {d : Deed ε} {w w' : World ε κ} (hw : w.main.queueConsumers = [])
    (h : d.perform consume e w = .ok () w') : Grew e w w' [d.entry e] := by
  cases d with
  | queueAs c =>
    simp only [Deed.perform] at h
    split at h
    · cases h
    · cases h
      exact ⟨rfl, by simp [queued, Deed.entry], by simp [followUps, Deed.entry], hw,
        fun x hx => ⟨w.set_events_ne hx _, by simp [Deed.entry]⟩⟩
  | afterwards follower =>
    cases h
    exact ⟨rfl, by simp [queued, Deed.entry], by simp [followUps, Deed.entry], hw,
      fun x hx => ⟨w.set_events_ne hx _, by simp [Deed.entry]⟩⟩
  | queue y =>
    rw [Deed.perform, Program.bind_ok (push_idle hw y)] at h
    cases h
    exact ⟨rfl, by simp [queued, Deed.entry], by simp [followUps, Deed.entry], hw,
      fun x _ => ⟨rfl, by simp [Deed.entry]⟩⟩

theorem handlers_grows (id : IdType) : Grows e (handlers consume deeds id e) := by
  intro w a w' hw h
  rw [handlers, Program.get_bind] at h
  have hall : ∀ ds : List (Deed ε), Grows e (ds.forM (Deed.perform consume e)) := by
    intro ds
    induction ds with
    | nil => exact Grows.pure ()
    | cons d ds ih => exact Grows.bind (fun w _ w' hw h => ⟨_, perform_grew hw h⟩) fun _ => ih
  exact hall _ w a w' hw h

/-- The world in which the handlers of `id` begin. -/
def World.dispatching (w : World ε κ) (e : ε) (id : IdType) : World ε κ :=
  (w.set e { w.events e with currentId := id }).record
    (.dispatch e id (w.events e).idQueue.pending)

theorem Grew.dispatch {w : World ε κ} (hw : w.main.queueConsumers = [])
    (id : IdType) :
    Grew e w (w.dispatching e id) [.dispatch e id (w.events e).idQueue.pending] := by
  have hset : Grew e w (w.set e { w.events e with currentId := id }) [] := Grew.set hw rfl
  exact hset.trans ⟨rfl, by simp [queued, World.dispatching],
    by simp [followUps, World.dispatching], hw, fun x hx => ⟨rfl, by simp [hx]⟩⟩

/-- A dispatch whose handlers return. -/
theorem handleAs_grew {signals : IdType → ε → Exec ε κ Unit} {id : IdType} {w w₁ : World ε κ}
    {more : List (Entry ε)} (hw : w.main.queueConsumers = [])
    (hsig : signals id e (w.dispatching e id) = .ok () w₁)
    (h : Grew e (w.dispatching e id) w₁ more) :
    ∃ w', handleAs signals e id w = .ok () w' ∧
      Grew e w w' (.dispatch e id (w.events e).idQueue.pending :: more) ∧
      (w'.events e).idQueue = (w₁.events e).idQueue := by
  refine ⟨w₁.set e { w₁.events e with currentId := (w.events e).currentId }, ?_, ?_, by simp⟩
  · unfold World.dispatching at hsig
    simp only [handleAs, hsig]
  · have hrestore : Grew e w₁ (w₁.set e { w₁.events e with currentId := (w.events e).currentId })
        [] := Grew.set h.idle rfl
    simpa using ((Grew.dispatch hw id).trans h).trans hrestore

theorem handleAs_grows (id : IdType) : Grows e (handleAs (handlers consume deeds) e id) := by
  intro w a w' hw h
  cases hsig : handlers consume deeds id e (w.dispatching e id) with
  | ok _ w₁ =>
    obtain ⟨more, hgrew⟩ := handlers_grows id (w.dispatching e id) () w₁ hw hsig
    obtain ⟨w₂, hrun, hgrew₂, -⟩ := handleAs_grew hw hsig hgrew
    rw [hrun] at h
    cases h
    exact ⟨_, hgrew₂⟩
  | error x w₁ =>
    unfold World.dispatching at hsig
    simp only [handleAs, hsig] at h
    cases h

theorem popNext_grew {w w' : World ε κ} {next : IdType} (hw : w.main.queueConsumers = [])
    (h : popNext e w = .ok next w') : Grew e w w' [] := by
  cases h
  exact Grew.set hw rfl

theorem popNext_grows : Grows e (popNext e : Exec ε κ IdType) :=
  fun _ _ _ hw h => ⟨[], popNext_grew hw h⟩

theorem drain_grows (n : Nat) (next : IdType) :
    Grows e (drain (handlers consume deeds) e n next) := by
  induction n generalizing next with
  | zero =>
    rw [drain]
    split
    · intro w a w' _ h
      cases h
    · exact Grows.pure ()
  | succ n ih =>
    rw [drain]
    split
    · exact (handleAs_grows next).bind fun _ => popNext_grows.bind ih
    · exact Grows.pure ()

theorem rounds_grows (n : Nat) (next : IdType) :
    Grows e (rounds (handlers consume deeds) e n next) := by
  induction n generalizing next with
  | zero =>
    intro w a w' _ h
    cases h
  | succ n ih =>
    rw [rounds]
    refine (drain_grows _ next).bind fun _ => (handleAs_grows _).bind fun _ =>
      popNext_grows.bind fun next => ?_
    split
    · exact ih next
    · exact Grows.pure ()

theorem dispatches_grows (n : Nat) : Grows e (dispatches (handlers consume deeds) n e) :=
  (handleAs_grows _).bind fun _ => popNext_grows.bind fun next =>
    (rounds_grows n next).bind fun _ => handleAs_grows _

variable (consume) in
/-- The end of `handle` while no consumer waits. -/
theorem flush_spec {w : World ε κ} (hw : w.main.queueConsumers = []) :
    ∃ w', flushAfterwards consume e w = .ok () w' ∧ w'.log = w.log ∧ w'.main.queueConsumers = [] ∧
      w'.main.queue = (w.events e).handleAfterwards.getD [] ++ w.main.queue ∧
      ∀ x, x ≠ e → w'.events x = w.events x := by
  cases ho : (w.events e).handleAfterwards with
  | none => exact ⟨w, by simp only [flushAfterwards, ho], rfl, hw, by simp, fun _ _ => rfl⟩
  | some events =>
    let w₁ : World ε κ := { w with main := { w.main with queue := events ++ w.main.queue } }
    have hmain : Exec.onMain (MainQueue.flush consume events) w = .ok () w₁ := by
      simp [Exec.onMain, MainQueue.flush, MainQueue.tryUnqueue_idle, hw, w₁]
    refine ⟨w₁.set e { w₁.events e with handleAfterwards := none }, ?_, rfl, hw, by simp [w₁],
      fun x hx => World.set_events_ne _ hx _⟩
    simp only [flushAfterwards, ho, hmain]

/-- **What a call of `handle` does to the main queue**: what was registered goes in front of it, in
the order of the registrations, and what was queued is behind it. -/
theorem handle_spec {n : Nat} {w w' : World ε κ} (hw : w.main.queueConsumers = [])
    (hnone : (w.events e).handleAfterwards = none)
    (h : handle consume (handlers consume deeds) n e w = .ok () w') :
    ∃ more, w'.log = w.log ++ more ∧
      w'.main.queue = followUps e more ++ w.main.queue ++ queued more ∧
      w'.main.queueConsumers = [] ∧
      ∀ x, x ≠ e → w'.events x = w.events x ∧ ∀ id p, Entry.dispatch x id p ∉ more := by
  obtain ⟨a, w₁, hd, hend⟩ := Program.of_bind_ok h
  obtain ⟨more, hgrew⟩ := dispatches_grows n w a w₁ hw hd
  obtain ⟨w₂, hflush, hlog, hidle, hqueue, hothers⟩ :=
    flush_spec consume (e := e) hgrew.idle
  rw [hflush] at hend
  cases hend
  refine ⟨more, hlog.trans hgrew.log, ?_, hidle, fun x hx => ?_⟩
  · rw [hqueue, hgrew.registered, hgrew.queue, hnone]
    simp
  · exact ⟨(hothers x hx).trans (hgrew.others x hx).1, (hgrew.others x hx).2⟩

/-! ## The loop -/

variable (consume deeds)

/-- The loop of `wait_event` and `handle`: from `w`, the events `xs` are taken and handled. A call
of `wait_event` on an empty queue does not return. -/
inductive Pumps : World ε κ → List ε → World ε κ → Prop
  | stop (w : World ε κ) : Pumps w [] w
  | pass {w w₁ w₂ : World ε κ} {main : MainQueue ε κ} {x : ε} {xs : List ε} {n : Nat} :
    w.main.popFront = some (x, main) →
      handle consume (handlers consume deeds) n x { w with main } = .ok () w₁ →
      Pumps w₁ xs w₂ → Pumps w (x :: xs) w₂

/-- The event `x` is as it was in `w₀`, and nobody waits for events. -/
structure Awaits (w₀ w : World ε κ) (x : ε) : Prop where
  same : w.events x = w₀.events x
  undispatched : ∀ id p, Entry.dispatch x id p ∉ w.log
  idle : w.main.queueConsumers = []

/-- Handling an event for the first time returns; it registers `children x` and queues
`followers x`, whatever ids the handlers do it for. -/
structure Scripted (w₀ : World ε κ) (children followers : ε → List ε) : Prop where
  returns : ∀ w x, Awaits w₀ w x → ∃ n w', handle consume (handlers consume deeds) n x w = .ok () w'
  script : ∀ w x n w', Awaits w₀ w x → handle consume (handlers consume deeds) n x w = .ok () w' →
    ∃ more, w'.log = w.log ++ more ∧ followUps x more = children x ∧ queued more = followers x

/-- Nothing has been handled or registered, and nobody waits for events. -/
structure Fresh (w : World ε κ) : Prop where
  log : w.log = []
  idle : w.main.queueConsumers = []
  unregistered : ∀ x, (w.events x).handleAfterwards = none

variable {consume deeds}

/-- The state after the events `xs` were handled. -/
structure Handled (children followers : ε → List ε) (w₀ : World ε κ) (xs : List ε)
    (w : World ε κ) : Prop where
  runs : Worklist.Runs children followers w₀.main.queue xs w.main.queue
  idle : w.main.queueConsumers = []
  others : ∀ x, x ∉ xs → w.events x = w₀.events x ∧ ∀ id p, Entry.dispatch x id p ∉ w.log

variable {children followers : ε → List ε} {w₀ : World ε κ}

omit [DecidableEq ε] in
theorem Fresh.handled (h : Fresh w₀) : Handled children followers w₀ [] w₀ :=
  ⟨.stop _, h.idle, fun _ _ => ⟨rfl, by simp [h.log]⟩⟩

omit [DecidableEq ε] in
/-- The front of the queue has not been handled. -/
theorem Handled.awaits {w : World ε κ} {xs rest : List ε} {x : ε}
    (hd : Worklist.Distinct children followers w₀.main.queue)
    (h : Handled children followers w₀ xs w) (hq : w.main.queue = x :: rest) :
    Awaits w₀ { w with main := { w.main with queue := rest } } x := by
  have hnot : x ∉ xs := by
    have hnodup := h.runs.nodup hd
    rw [hq, List.nodup_append] at hnodup
    exact fun hx => hnodup.2.2 x hx x (by simp) rfl
  exact ⟨(h.others x hnot).1, (h.others x hnot).2, h.idle⟩

/-- **One pass of the loop takes one element of the worklist.** -/
theorem Handled.pass {w w₁ : World ε κ} {xs rest : List ε} {x : ε} {n : Nat} (hfresh : Fresh w₀)
    (hd : Worklist.Distinct children followers w₀.main.queue)
    (hs : Scripted consume deeds w₀ children followers) (h : Handled children followers w₀ xs w)
    (hq : w.main.queue = x :: rest)
    (hrun : handle consume (handlers consume deeds) n x
      { w with main := { w.main with queue := rest } } = .ok () w₁) :
    Handled children followers w₀ (xs ++ [x]) w₁ ∧
      w₁.main.queue = children x ++ rest ++ followers x := by
  have haw := h.awaits hd hq
  obtain ⟨more, hlog, hup, hqueued⟩ := hs.script _ x n w₁ haw hrun
  have hnone : (w.events x).handleAfterwards = none := by
    rw [show w.events x = w₀.events x from haw.same]
    exact hfresh.unregistered x
  obtain ⟨more', hlog', hqueue, hidle, hothers⟩ := handle_spec haw.idle hnone hrun
  obtain rfl : more = more' := List.append_cancel_left (hlog.symm.trans hlog')
  rw [hup, hqueued] at hqueue
  refine ⟨⟨?_, hidle, fun y hy => ?_⟩, hqueue⟩
  · have hruns := h.runs
    rw [hq] at hruns
    rw [hqueue]
    exact hruns.snoc
  · simp only [List.mem_append, List.mem_singleton, not_or] at hy
    obtain ⟨hsame, hnot⟩ := h.others y hy.1
    refine ⟨((hothers y hy.2).1).trans hsame, fun id p hm => ?_⟩
    rw [hlog] at hm
    exact (List.mem_append.mp hm).elim (hnot id p) ((hothers y hy.2).2 id p)

/-- Every run of the loop takes elements of the worklist. -/
theorem Handled.pumps {w w' : World ε κ} {xs ys : List ε} (hfresh : Fresh w₀)
    (hd : Worklist.Distinct children followers w₀.main.queue)
    (hs : Scripted consume deeds w₀ children followers) (h : Handled children followers w₀ xs w)
    (hp : Pumps consume deeds w ys w') : Handled children followers w₀ (xs ++ ys) w' := by
  induction hp generalizing xs with
  | stop => simpa using h
  | pass hpop hrun _ ih =>
    obtain ⟨hq, hmain⟩ := MainQueue.popFront_eq_some hpop
    rw [hmain] at hrun
    simpa using ih (h.pass hfresh hd hs hq hrun).1

/-- The loop runs as far as the worklist does. -/
theorem Handled.goes_on {w : World ε κ} {xs ys log : List ε} (hfresh : Fresh w₀)
    (hd : Worklist.Distinct children followers w₀.main.queue)
    (hs : Scripted consume deeds w₀ children followers) (h : Handled children followers w₀ xs w)
    (hr : Worklist.Runs children followers w.main.queue log ys) :
    ∃ w', Pumps consume deeds w log w' ∧ w'.main.queue = ys := by
  generalize hqueue : w.main.queue = queue at hr
  induction hr generalizing w xs with
  | stop => exact ⟨w, .stop w, hqueue⟩
  | @take x rest log ys _ ih =>
    obtain ⟨n, w₁, hrun⟩ := hs.returns _ x (h.awaits hd hqueue)
    obtain ⟨h₁, hq₁⟩ := h.pass hfresh hd hs hqueue hrun
    obtain ⟨w', hp, hq'⟩ := ih h₁ hq₁
    refine ⟨w', .pass ?_ hrun hp, hq'⟩
    simp [MainQueue.popFront, hqueue]

/-- **Follow-up events run depth first.** The events are handled in this order: for each event of
the queue the pre-order traversal of its tree of afterwards events, with what its handlers queue put
behind everything that is there already. Nothing is handled twice; what is at the front of the queue
is followed by the rest of its tree; and everything in the queue is handled at some time. -/
theorem handled_depth_first (hfin : WellFounded fun y x => y ∈ children x) (hfresh : Fresh w₀)
    (hd : Worklist.Distinct children followers w₀.main.queue)
    (hs : Scripted consume deeds w₀ children followers) :
    (∀ n, ∃ w, Pumps consume deeds w₀ (Worklist.order hfin followers n w₀.main.queue).1 w ∧
      w.main.queue = (Worklist.order hfin followers n w₀.main.queue).2) ∧
    ∀ xs w, Pumps consume deeds w₀ xs w →
      xs <+: (Worklist.order hfin followers xs.length w₀.main.queue).1 ∧
      (xs ++ w.main.queue).Nodup ∧
      (∀ x rest, w.main.queue = x :: rest → ∃ w',
        Pumps consume deeds w (Worklist.preorder hfin x) w' ∧
        w'.main.queue = rest ++ (Worklist.preorder hfin x).flatMap followers) ∧
      ∀ x ∈ w.main.queue, ∃ ys w', Pumps consume deeds w ys w' ∧ x ∈ ys := by
  refine ⟨fun n => hfresh.handled.goes_on hfresh hd hs (.order hfin n _), fun xs w hp => ?_⟩
  have h : Handled children followers w₀ xs w := by
    simpa using hfresh.handled.pumps hfresh hd hs hp
  refine ⟨h.runs.prefix_order hfin, h.runs.nodup hd, fun x rest hq => ?_, fun x hx => ?_⟩
  · refine h.goes_on hfresh hd hs ?_
    rw [hq]
    exact .preorder hfin x rest
  · obtain ⟨n, hn⟩ := Worklist.mem_order hfin followers hx
    obtain ⟨w', hp', -⟩ := h.goes_on hfresh hd hs (.order hfin n _)
    exact ⟨_, w', hp', hn⟩

/-! ## Handlers of one id -/

/-- Handlers of the id `id` that register `children x` and queue `followers x`. -/
def scriptOn (id : IdType) (children followers : ε → List ε) (_ : World ε κ) (i : IdType) (x : ε) :
    List (Deed ε) :=
  if i = id then (children x).map .afterwards ++ (followers x).map .queue else []

variable (consume e) in
/-- Deeds that leave the ids of the event alone return. -/
theorem forM_grew {ds : List (Deed ε)} (hds : ∀ d ∈ ds, ∀ c, d ≠ .queueAs c) {w : World ε κ}
    (hw : w.main.queueConsumers = []) :
    ∃ w', ds.forM (Deed.perform consume e) w = .ok () w' ∧
      Grew e w w' (ds.map (Deed.entry e)) ∧ (w'.events e).idQueue = (w.events e).idQueue := by
  induction ds generalizing w with
  | nil => exact ⟨w, rfl, Grew.refl hw, rfl⟩
  | cons d ds ih =>
    have hone : ∃ w₁, d.perform consume e w = .ok () w₁ ∧
        (w₁.events e).idQueue = (w.events e).idQueue := by
      cases d with
      | queueAs c => exact absurd rfl (hds _ (by simp) c)
      | afterwards follower => exact ⟨_, rfl, by simp⟩
      | queue y => exact ⟨_, Program.bind_ok (push_idle hw y), rfl⟩
    obtain ⟨w₁, hrun, hids⟩ := hone
    have hgrew := perform_grew hw hrun
    obtain ⟨w', hrest, hgrew', hids'⟩ :=
      ih (fun d hd => hds d (List.mem_cons_of_mem _ hd)) hgrew.idle
    exact ⟨w', (Program.bind_ok hrun).trans hrest, hgrew.trans hgrew', hids'.trans hids⟩

theorem followUps_script (id i : IdType) (w : World ε κ) :
    followUps e ((scriptOn id children followers w i e).map (Deed.entry e)) =
      if i = id then children e else [] := by
  unfold scriptOn
  split
  · simp [followUps, List.filterMap_map, Function.comp_def, Deed.entry]
  · rfl

omit [DecidableEq ε] in
theorem queued_script (id i : IdType) (w : World ε κ) :
    queued ((scriptOn id children followers w i e).map (Deed.entry e)) =
      if i = id then followers e else [] := by
  unfold scriptOn
  split
  · simp [queued, List.filterMap_map, Function.comp_def, Deed.entry]
  · rfl

variable (consume children followers) in
/-- A dispatch to handlers of one id. -/
theorem handleAs_script (id i : IdType) {w : World ε κ} {p : Pending}
    (hw : w.main.queueConsumers = []) (hp : w.Holds e p) :
    ∃ w' more, handleAs (handlers consume (scriptOn id children followers)) e i w = .ok () w' ∧
      Grew e w w' more ∧ w'.Holds e p ∧ followUps e more = (if i = id then children e else []) ∧
      queued more = (if i = id then followers e else []) := by
  have hds : ∀ d ∈ scriptOn id children followers w i e, ∀ c, d ≠ .queueAs c := by
    intro d hd c
    unfold scriptOn at hd
    split at hd <;> grind
  obtain ⟨w₁, hrun, hgrew, hids⟩ := forM_grew consume e hds
    (show (w.dispatching e i).main.queueConsumers = [] from hw)
  have hsig : handlers consume (scriptOn id children followers) i e (w.dispatching e i) =
      .ok () w₁ := hrun
  obtain ⟨w', hhandle, hgrew', hids'⟩ := handleAs_grew hw hsig hgrew
  refine ⟨w', _, hhandle, hgrew', ?_, followUps_script id i w, queued_script id i w⟩
  have hsame : (w'.events e).idQueue = (w.events e).idQueue :=
    hids'.trans (hids.trans (by simp [World.dispatching]))
  simpa [World.Holds, hsame] using hp

/-- A pop between two dispatches. -/
theorem popNext_holds {w : World ε κ} {p : Pending} (hw : w.main.queueConsumers = [])
    (hp : w.Holds e p) :
    ∃ w', popNext e w = .ok p.pop.1 w' ∧ Grew e w w' [] ∧ w'.Holds e p.pop.2 := by
  obtain ⟨w', hpop, -, hp'⟩ := popNext_spec hp
  exact ⟨w', hpop, popNext_grew hw hpop, hp'⟩

variable (consume children followers) in
/-- Handlers of one id, which the event is queued as: its handling ends, and does what they do. -/
theorem handle_script {id : IdType} (hid : id.isValid = true) (hb : Events.beginHandling ≠ id)
    (hf : Events.finishingHandling ≠ id) (hl : Events.finishedHandling ≠ id) {w : World ε κ}
    (hw : w.main.queueConsumers = []) (hp : w.Holds e (.one id hid)) :
    ∃ w' more,
      (∀ n, handle consume (handlers consume (scriptOn id children followers)) (n + 1) e w =
        .ok () w') ∧
      w'.log = w.log ++ more ∧ followUps e more = children e ∧ queued more = followers e := by
  obtain ⟨w₁, l₁, hbegin, hg₁, hp₁, hu₁, hq₁⟩ := handleAs_script consume children followers
    id Events.beginHandling hw hp
  obtain ⟨w₂, hpop₂, hg₂, hp₂⟩ := popNext_holds hg₁.idle hp₁
  obtain ⟨w₃, l₃, hid₃, hg₃, hp₃, hu₃, hq₃⟩ := handleAs_script consume children followers
    id id hg₂.idle hp₂
  obtain ⟨w₄, hpop₄, hg₄, hp₄⟩ := popNext_holds hg₃.idle hp₃
  obtain ⟨w₅, l₅, hfin₅, hg₅, hp₅, hu₅, hq₅⟩ := handleAs_script consume children followers
    id Events.finishingHandling hg₄.idle hp₄
  obtain ⟨w₆, hpop₆, hg₆, hp₆⟩ := popNext_holds hg₅.idle hp₅
  obtain ⟨w₇, l₇, hfin₇, hg₇, -, hu₇, hq₇⟩ := handleAs_script consume children followers
    id Events.finishedHandling hg₆.idle hp₆
  obtain ⟨w₈, hflush, hlog₈, -⟩ := flush_spec consume (e := e) hg₇.idle
  have hgrew := (((((hg₁.trans hg₂).trans hg₃).trans hg₄).trans hg₅).trans hg₆).trans hg₇
  refine ⟨w₈, _, fun n => ?_, hlog₈.trans hgrew.log, ?_, ?_⟩
  · have hdrain : drain (handlers consume (scriptOn id children followers)) e (n + 1) id w₂ =
        .ok () w₄ := by
      rw [drain, if_pos hid, Program.bind_ok hid₃, Program.bind_ok hpop₄]
      exact drain_idle _ n w₄ rfl
    have hrounds : rounds (handlers consume (scriptOn id children followers)) e (n + 1) id w₂ =
        .ok () w₆ := by
      rw [rounds, Program.bind_ok hdrain, Program.bind_ok hfin₅, Program.bind_ok hpop₆]
      rfl
    rw [handle, Program.bind_ok (show dispatches _ (n + 1) e w = .ok () w₇ by
      rw [dispatches, Program.bind_ok hbegin, Program.bind_ok hpop₂]
      exact (Program.bind_ok hrounds).trans hfin₇), hflush]
  · simp only [followUps, List.filterMap_append] at *
    simp [hu₁, hu₃, hu₅, hu₇, hb, hf, hl]
  · simp only [queued, List.filterMap_append] at *
    simp [hq₁, hq₃, hq₅, hq₇, hb, hf, hl]

/-- **Handlers of one id are scripted**, for events that are queued as this id. -/
theorem scripted_scriptOn {id : IdType} (hid : id.isValid = true) (hb : Events.beginHandling ≠ id)
    (hf : Events.finishingHandling ≠ id) (hl : Events.finishedHandling ≠ id)
    (hp : ∀ x, w₀.Holds x (.one id hid)) :
    Scripted consume (scriptOn id children followers) w₀ children followers := by
  have hscript : ∀ w x, Awaits w₀ w x → w.Holds x (.one id hid) := by
    intro w x h
    rw [World.Holds, h.same]
    exact hp x
  refine ⟨fun w x h => ?_, fun w x n w' h hrun => ?_⟩
  · obtain ⟨w', -, hrun, -⟩ := handle_script consume children followers
      hid hb hf hl h.idle (hscript w x h)
    exact ⟨1, w', hrun 0⟩
  · obtain ⟨w₁, more, hrun₁, hlog, hup, hqueued⟩ := handle_script consume children followers
      hid hb hf hl h.idle (hscript w x h)
    cases n with
    | zero =>
      -- no pass of the outer loop is left
      obtain ⟨_, _, hd, -⟩ := Program.of_bind_ok hrun
      obtain ⟨_, _, -, hd⟩ := Program.of_bind_ok hd
      obtain ⟨_, _, -, hd⟩ := Program.of_bind_ok hd
      obtain ⟨_, _, hd, -⟩ := Program.of_bind_ok hd
      cases hd
    | succ n =>
      rw [hrun₁ n] at hrun
      cases hrun
      exact ⟨more, hlog, hup, hqueued⟩

end Code

/-- Event 0 registers event 1, event 1 queues event 3; the events 0 and 2 are queued. -/
def familyChildren (x : Fin 4) : List (Fin 4) := if x = 0 then [1] else []

def familyFollowers (x : Fin 4) : List (Fin 4) := if x = 1 then [3] else []

def familyWorld : World (Fin 4) Empty where
  events _ := { idQueue := ⟨[.ofEnum (.user 0) 1], 0⟩ }
  main := { queue := [0, 2] }

def familyDeeds : World (Fin 4) Empty → IdType → Fin 4 → List (Deed (Fin 4)) :=
  scriptOn (.ofEnum (.user 0) 1) familyChildren familyFollowers

def familyConsume (k : Empty) : Fin 4 → EStateM Fault (Fin 4 → EventObj (Fin 4)) Bool := k.elim

theorem family_finite : WellFounded fun y x => y ∈ familyChildren x := by
  refine Subrelation.wf ?_ (measure fun x : Fin 4 => 4 - x.val).wf
  intro y x
  show y ∈ familyChildren x → 4 - y.val < 4 - x.val
  decide +revert

theorem handled_depth_first_family :
    (∀ n, ∃ w, Pumps familyConsume familyDeeds familyWorld
        (Worklist.order family_finite familyFollowers n [0, 2]).1 w ∧
      w.main.queue = (Worklist.order family_finite familyFollowers n [0, 2]).2) ∧
    ∀ xs w, Pumps familyConsume familyDeeds familyWorld xs w →
      xs <+: (Worklist.order family_finite familyFollowers xs.length [0, 2]).1 ∧
      (xs ++ w.main.queue).Nodup ∧
      (∀ x rest, w.main.queue = x :: rest → ∃ w',
        Pumps familyConsume familyDeeds w (Worklist.preorder family_finite x) w' ∧
        w'.main.queue = rest ++ (Worklist.preorder family_finite x).flatMap familyFollowers) ∧
      ∀ x ∈ w.main.queue, ∃ ys w', Pumps familyConsume familyDeeds w ys w' ∧ x ∈ ys :=
  have hfresh : Fresh familyWorld := ⟨rfl, rfl, fun _ => rfl⟩
  have hd : Worklist.Distinct familyChildren familyFollowers familyWorld.main.queue :=
    ⟨by decide, by decide, by decide, by decide⟩
  have hs : Scripted familyConsume familyDeeds familyWorld familyChildren familyFollowers :=
    scripted_scriptOn (by decide) (by decide) (by decide) (by decide) fun _ => by
      unfold World.Holds
      rfl
  handled_depth_first family_finite hfresh hd hs

end Slirc
