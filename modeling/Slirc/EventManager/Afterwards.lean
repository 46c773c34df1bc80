import Slirc.EventManager.Resume

/-!
# Afterwards events

`handle` copies the afterwards events of its event to the main queue, calls the consumers that wait
for events, and then removes the component that holds the list. What a consumer does meanwhile is
its conduct: it calls `afterwards` on some events, and then takes its event, or not, or throws.

* `called` and `accepted`: the conducts of the consumers that `try_unqueue` calls, and the events
  that they take. `flushAfterwards_called`: what they leave on the main queue and registered.
* `life`: what happens to one event. `Account`: what others have put on the main queue, and what has
  left it.
* `registered_once_iff`: every registration is on the main queue once, has left it or is still
  registered, exactly if no consumer that is called at a flush throws, or registers on the event
  that is flushed.
-/

namespace Slirc

variable {ε κ : Type}

/-! ## Registrations -/

/-- The afterwards events of an event after some more registrations. -/
def enroll (o : Option (List ε)) : List ε → Option (List ε)
  | [] => o
  | f :: followers => some (o.getD [] ++ f :: followers)

@[simp] theorem enroll_nil (o : Option (List ε)) : enroll o [] = o := rfl

theorem enroll_append (o : Option (List ε)) (fs gs : List ε) :
    enroll (enroll o fs) gs = enroll o (fs ++ gs) := by
  cases fs with
  | nil => rfl
  | cons f fs => cases gs <;> simp [enroll]

@[simp] theorem getD_enroll (o : Option (List ε)) (fs : List ε) :
    (enroll o fs).getD [] = o.getD [] ++ fs := by
  cases fs <;> simp [enroll]

/-- A list that is registered is not empty. -/
theorem enroll_ne_nil {o : Option (List ε)} (h : o ≠ some []) (fs : List ε) :
    enroll o fs ≠ some [] := by
  cases fs with
  | nil => exact h
  | cons f fs => simp [enroll]

variable [DecidableEq ε]

/-- The afterwards events of `e` have grown by those that are logged meanwhile, and the main queue
is the same. -/
def Registers (e : ε) (w w' : World ε κ) : Prop :=
  ∃ more, w'.log = w.log ++ more ∧
    w'.registered e = enroll (w.registered e) (followUps e more) ∧ w'.main = w.main

theorem followUps_append (e : ε) (l₁ l₂ : List (Entry ε)) :
    followUps e (l₁ ++ l₂) = followUps e l₁ ++ followUps e l₂ := List.filterMap_append

instance isPreorder_registers (e : ε) :
    IsPreorder (World ε κ) fun w w' => Registers e w w' where
  refl w := ⟨[], by simp, by simp [followUps], rfl⟩
  trans w₁ w₂ w₃ h₁ h₂ := by
    obtain ⟨l₁, hlog₁, hreg₁, hmain₁⟩ := h₁
    obtain ⟨l₂, hlog₂, hreg₂, hmain₂⟩ := h₂
    refine ⟨l₁ ++ l₂, by rw [hlog₂, hlog₁, List.append_assoc], ?_, hmain₂.trans hmain₁⟩
    rw [hreg₂, hreg₁, enroll_append, followUps_append]

/-- A change of `e` that leaves its afterwards events. -/
theorem Registers.set {e : ε} {w : World ε κ} {o : EventObj ε}
    (ho : o.handleAfterwards = (w.events e).handleAfterwards) : Registers e w (w.set e o) :=
  ⟨[], by simp, by simp [World.registered, ho, followUps], rfl⟩

theorem Registers.dispatch {e : ε} {w : World ε κ} (id : IdType) (pending : Option (List IdType)) :
    Registers e w (w.record (.dispatch e id pending)) :=
  ⟨[.dispatch e id pending], rfl, by simp [World.registered, followUps], rfl⟩

section Dispatches

variable (consume : κ → ε → EStateM Fault (ε → EventObj ε) Bool)
  (script : World ε κ → IdType → ε → Behaviour ε) (e : ε)

theorem act_registers (a : Act ε) :
    Program.Keeps (Registers e) (a.deed.perform consume e : Exec ε κ Unit) := by
  intro w
  cases a with
  | queueAs c =>
    simp only [Act.deed, Deed.perform]
    cases (w.events e).idQueue.call c with
    | none => exact refl_of (Registers e) w
    | some r =>
      exact ⟨[.queueAs e c], rfl, by simp [Program.final, World.registered, followUps], rfl⟩
  | afterwards follower =>
    exact ⟨[.afterwards e follower], rfl, by
      simp [Act.deed, Deed.perform, Program.final, World.registered, followUps, enroll], rfl⟩

theorem throwing_registers (id : IdType) :
    Program.Keeps (Registers e) (throwing consume script id e) := by
  intro w
  rw [throwing, Program.get_bind]
  have hacts : Program.Keeps (Registers e)
      (((script w id e).acts.map Act.deed).forM (Deed.perform consume e) : Exec ε κ Unit) := by
    refine .forM fun d hd => ?_
    obtain ⟨a, -, rfl⟩ := List.mem_map.mp hd
    exact act_registers consume e a
  refine hacts.bind (fun _ => ?_) w
  unfold Behaviour.finish
  cases (script w id e).throws with
  | none => exact Program.keeps_pure _
  | some k => exact Program.keeps_throw _

theorem handleAs_registers (id : IdType) :
    Program.Keeps (Registers e) (handleAs (throwing consume script) e id) :=
  handleAs_keeps (fun _ _ => .set rfl) (fun _ pending => .dispatch id pending)
    (throwing_registers consume script e id)

theorem popNext_registers : Program.Keeps (Registers e) (popNext e : Exec ε κ IdType) := by
  intro w
  exact ⟨[], by simp [popNext, Program.final], by
    simp [popNext, Program.final, World.registered, followUps], rfl⟩

theorem dispatches_registers (n : Nat) :
    Program.Keeps (Registers e) (dispatches (throwing consume script) n e) :=
  dispatches_keeps (handleAs_registers consume script e) (popNext_registers e) n

end Dispatches

/-! ## Consumers -/

/-- How a call of a consumer ends. -/
inductive Ending where
  | accepts | rejects | throws (n : Nat)
  deriving DecidableEq, Repr

/-- What a consumer does: the calls of `afterwards`, each with its event and the one it registers,
and then the end. -/
structure Conduct (ε : Type) where
  afterwards : List (ε × ε) := []
  ending : Ending
  deriving DecidableEq, Repr

namespace Conduct

def Throws (c : Conduct ε) : Prop := ∃ n, c.ending = .throws n

/-- What is registered on an event. -/
def followers (c : Conduct ε) (e : ε) : List ε :=
  c.afterwards.filterMap fun r => if r.1 = e then some r.2 else none

/-- One call of `afterwards`. -/
def register (events : ε → EventObj ε) (r : ε × ε) : ε → EventObj ε :=
  Function.update events r.1
    { events r.1 with handleAfterwards := some ((events r.1).handleAfterwards.getD [] ++ [r.2]) }

def run (c : Conduct ε) : EStateM Fault (ε → EventObj ε) Bool := fun events =>
  match c.ending with
  | .accepts => .ok true (c.afterwards.foldl register events)
  | .rejects => .ok false (c.afterwards.foldl register events)
  | .throws n => .error (.foreign n) (c.afterwards.foldl register events)

theorem handleAfterwards_foldl (calls : List (ε × ε)) (events : ε → EventObj ε) (e : ε) :
    (calls.foldl register events e).handleAfterwards =
      enroll (events e).handleAfterwards
        (calls.filterMap fun r => if r.1 = e then some r.2 else none) := by
  induction calls generalizing events with
  | nil => rfl
  | cons r calls ih =>
    rw [List.foldl_cons, ih]
    by_cases hr : r.1 = e
    · subst hr
      have hone : (register events r r.1).handleAfterwards =
          enroll (events r.1).handleAfterwards [r.2] := by
        simp [register, enroll]
      rw [hone, enroll_append]
      simp
    · have hsame : (register events r e).handleAfterwards = (events e).handleAfterwards := by
        rw [register, Function.update_of_ne (Ne.symm hr)]
      rw [hsame]
      simp [hr]

end Conduct

/-- What the consumers do, by the event they are offered and the state of the events. -/
abbrev Conducts (ε κ : Type) := κ → ε → (ε → EventObj ε) → Conduct ε

/-- Consumers that act accordingly. -/
def conducted (conduct : Conducts ε κ) (k : κ) (x : ε) : EStateM Fault (ε → EventObj ε) Bool :=
  fun events => (conduct k x events).run events

/-- The conducts of the consumers that `try_unqueue` calls, by those that wait and the events that
are queued: it ends with the first one that throws. -/
def called (conduct : Conducts ε κ) : List κ → List ε → (ε → EventObj ε) → List (Conduct ε)
  | [], _, _ => []
  | _ :: _, [], _ => []
  | k :: ks, x :: queue, events =>
    let c := conduct k x events
    let events' := c.afterwards.foldl Conduct.register events
    match c.ending with
    | .accepts => c :: called conduct ks queue events'
    | .rejects => c :: called conduct ks (x :: queue) events'
    | .throws _ => [c]

/-- The events that these consumers take. -/
def accepted (conduct : Conducts ε κ) : List κ → List ε → (ε → EventObj ε) → List ε
  | [], _, _ => []
  | _ :: _, [], _ => []
  | k :: ks, x :: queue, events =>
    let c := conduct k x events
    let events' := c.afterwards.foldl Conduct.register events
    match c.ending with
    | .accepts => x :: accepted conduct ks queue events'
    | .rejects => accepted conduct ks (x :: queue) events'
    | .throws _ => []

/-- How a section ends that begins with `queue` on the main queue, and whose consumers had the
conducts `cs` and took the events `taken`. -/
inductive SectionEnds (cs : List (Conduct ε)) (queue taken : List ε) (events : ε → EventObj ε) :
    EStateM.Result Fault (MainQueue ε κ × (ε → EventObj ε)) Unit → Prop
  | returned {m : MainQueue ε κ} {events' : ε → EventObj ε} : (∀ c ∈ cs, ¬c.Throws) →
    taken ++ m.queue = queue →
    (∀ e, (events' e).handleAfterwards =
      enroll (events e).handleAfterwards (cs.flatMap (·.followers e))) →
    SectionEnds cs queue taken events (.ok () (m, events'))
  | threw {m : MainQueue ε κ} {events' : ε → EventObj ε} {n : Nat} : (∃ c ∈ cs, c.Throws) →
    taken ++ m.queue = queue →
    (∀ e, (events' e).handleAfterwards =
      enroll (events e).handleAfterwards (cs.flatMap (·.followers e))) →
    SectionEnds cs queue taken events (.error (.foreign n) (m, events'))

/-- One more consumer, called first, that takes `front`. -/
theorem SectionEnds.cons {c : Conduct ε} {cs : List (Conduct ε)} {queue taken : List ε}
    {events : ε → EventObj ε} {r : EStateM.Result Fault (MainQueue ε κ × (ε → EventObj ε)) Unit}
    (front : List ε) (hc : ¬c.Throws)
    (h : SectionEnds cs queue taken (c.afterwards.foldl Conduct.register events) r) :
    SectionEnds (c :: cs) (front ++ queue) (front ++ taken) events r := by
  have hgrown : ∀ {o : Option (List ε)} (e : ε),
      o = enroll (c.afterwards.foldl Conduct.register events e).handleAfterwards
        (cs.flatMap (·.followers e)) →
      o = enroll (events e).handleAfterwards ((c :: cs).flatMap (·.followers e)) := by
    intro o e ho
    rw [ho, Conduct.handleAfterwards_foldl, enroll_append, List.flatMap_cons]
    rfl
  cases h with
  | returned hcs hqueue hreg =>
    refine .returned (fun d hd => ?_) (by rw [List.append_assoc, hqueue])
      fun e => hgrown e (hreg e)
    rcases List.mem_cons.mp hd with rfl | hd
    · exact hc
    · exact hcs d hd
  | threw hcs hqueue hreg =>
    obtain ⟨d, hd, hthrows⟩ := hcs
    exact .threw ⟨d, List.mem_cons_of_mem c hd, hthrows⟩ (by rw [List.append_assoc, hqueue])
      fun e => hgrown e (hreg e)

theorem tryUnqueueLoop_called (conduct : Conducts ε κ) (ks : List κ) (m : MainQueue ε κ)
    (events : ε → EventObj ε) :
    SectionEnds (called conduct ks m.queue events) m.queue (accepted conduct ks m.queue events)
      events (MainQueue.tryUnqueueLoop (conducted conduct) ks m events) := by
  induction ks generalizing m events with
  | nil => exact .returned (by simp [called]) rfl fun e => rfl
  | cons k ks ih =>
    unfold MainQueue.tryUnqueueLoop
    cases hq : m.queue with
    | nil => exact .returned (by simp [called]) hq fun e => rfl
    | cons x rest =>
      simp only [conducted, Conduct.run, called, accepted]
      cases hend : (conduct k x events).ending with
      | accepts =>
        have hrest := ih { m with queue := rest, queueConsumerIndex := m.queueConsumerIndex + 1 }
          ((conduct k x events).afterwards.foldl Conduct.register events)
        exact hrest.cons [x] (by simp [Conduct.Throws, hend])
      | rejects =>
        have hrest := ih { m with queueConsumerIndex := m.queueConsumerIndex + 1 }
          ((conduct k x events).afterwards.foldl Conduct.register events)
        rw [show MainQueue.queue _ = x :: rest from hq] at hrest
        exact hrest.cons [] (by simp [Conduct.Throws, hend])
      | throws n =>
        refine .threw ⟨_, List.mem_singleton_self _, n, hend⟩ rfl fun e => ?_
        rw [Conduct.handleAfterwards_foldl, List.flatMap_singleton]
        rfl

/-- **The consumers that `try_unqueue` calls**, what they take and what they leave registered. -/
theorem tryUnqueue_called (conduct : Conducts ε κ) (m : MainQueue ε κ) (events : ε → EventObj ε) :
    SectionEnds (called conduct m.remaining m.queue events) m.queue
      (accepted conduct m.remaining m.queue events) events
      (MainQueue.tryUnqueue (conducted conduct) m events) := by
  have hloop := tryUnqueueLoop_called conduct m.remaining m events
  unfold MainQueue.tryUnqueue
  unfold MainQueue.remaining at hloop ⊢
  generalize MainQueue.tryUnqueueLoop (conducted conduct)
    (m.queueConsumers.drop m.queueConsumerIndex) m events = r at hloop
  cases hloop with
  | returned hcs hqueue hreg =>
    exact .returned hcs (by rw [MainQueue.queue_dropCalled, hqueue]) hreg
  | threw hcs hqueue hreg => exact .threw hcs hqueue hreg

/-! ## The flush -/

/-- The conducts of the consumers that are called at a flush of `followers`. -/
def World.atFlush (conduct : Conducts ε κ) (followers : List ε) (w : World ε κ) :
    List (Conduct ε) :=
  called conduct w.main.remaining (followers ++ w.main.queue) w.events

/-- The events that they take. -/
def World.takenAtFlush (conduct : Conducts ε κ) (followers : List ε) (w : World ε κ) : List ε :=
  accepted conduct w.main.remaining (followers ++ w.main.queue) w.events

theorem flush_called (conduct : Conducts ε κ) (followers : List ε) (w : World ε κ) :
    SectionEnds (w.atFlush conduct followers) (followers ++ w.main.queue)
      (w.takenAtFlush conduct followers) w.events
      (MainQueue.flush (conducted conduct) followers w.main w.events) := by
  have hqueue : followers.reverse.foldl (fun q x => x :: q) w.main.queue =
      followers ++ w.main.queue := by
    simp
  rw [MainQueue.flush, hqueue]
  exact tryUnqueue_called conduct { w.main with queue := followers ++ w.main.queue } w.events

/-- **What a flush leaves**: on the main queue all of it and of the followers that no consumer took,
and registered nothing if no consumer throws, and otherwise all that was registered, before it and
by the consumers. -/
theorem flushAfterwards_called (conduct : Conducts ε κ) {e : ε} {w : World ε κ}
    {followers : List ε} (h : w.registered e = some followers) :
    ∃ w', w'.log = w.log ∧
      w.takenAtFlush conduct followers ++ w'.main.queue = followers ++ w.main.queue ∧
      ((flushAfterwards (conducted conduct) e w = .ok () w' ∧ w'.registered e = none ∧
          ∀ c ∈ w.atFlush conduct followers, ¬c.Throws) ∨
        (∃ n, flushAfterwards (conducted conduct) e w = .error (.foreign n) w') ∧
          w'.registered e =
            enroll (some followers) ((w.atFlush conduct followers).flatMap (·.followers e)) ∧
          ∃ c ∈ w.atFlush conduct followers, c.Throws) := by
  have hends := flush_called conduct followers w
  have h' : (w.events e).handleAfterwards = some followers := h
  simp only [flushAfterwards, h', Exec.onMain]
  generalize MainQueue.flush (conducted conduct) followers w.main w.events = r at hends
  cases hends with
  | @returned m events' hcs hqueue hreg =>
    let w₁ : World ε κ := { w with main := m, events := events' }
    refine ⟨w₁.set e { w₁.events e with handleAfterwards := none }, rfl, hqueue,
      .inl ⟨rfl, ?_, hcs⟩⟩
    simp [World.registered]
  | @threw m events' n hcs hqueue hreg =>
    refine ⟨{ w with main := m, events := events' }, rfl, hqueue, .inr ⟨⟨n, rfl⟩, ?_, hcs⟩⟩
    rw [← h']
    exact hreg e

/-! ## The life of an event -/

/-- What happens to an event: `afterwards` is called on it, or it is handled by handlers that behave
as a script says, or something happens to the main queue and to other events. -/
inductive Occasion (ε κ : Type) where
  | afterwards (follower : ε)
  | handle (n : Nat) (script : World ε κ → IdType → ε → Behaviour ε)
  | elsewhere (main : MainQueue ε κ) (events : ε → EventObj ε)

/-- How a call ends: it returns, or passes an exception of a handler or a consumer on. -/
def ended : EStateM.Result Fault (World ε κ) Unit → Option (Option Nat × World ε κ)
  | .ok () w => some (none, w)
  | .error (.foreign k) w => some (some k, w)
  | .error _ _ => none

/-- The life of `e`. A call that is cut off or undefined has no result. -/
def life (conduct : Conducts ε κ) (e : ε) : Machine (World ε κ) (Occasion ε κ) (Option Nat) where
  step w
    | .afterwards follower => ended (Deed.perform (conducted conduct) e (.afterwards follower) w)
    | .handle n script =>
      ended (handle (conducted conduct) (throwing (conducted conduct) script) n e w)
    | .elsewhere main events =>
      some (none, { w with main, events := Function.update events e (w.events e) })

/-- What others did, as far as it concerns the registrations of an event. -/
structure Account (ε : Type) where
  /-- The events that others have put on the main queue. -/
  others : List ε := []
  /-- The events that have left the main queue: taken by a consumer that was called at a flush, or
  elsewhere. -/
  left : List ε := []
  /-- What the consumers that were called at the flushes have registered on the event. -/
  late : List ε := []
  deriving DecidableEq, Repr

/-- The account of an event that nothing is registered on. -/
def Account.start (w : World ε κ) : Account ε := { others := w.main.queue }

/-- The world in which a call of `handle` flushes, and the afterwards events that it flushes. -/
def World.flushes (conduct : Conducts ε κ) (e : ε) (w : World ε κ) :
    Occasion ε κ → Option (World ε κ × List ε)
  | .handle n script =>
    match dispatches (throwing (conducted conduct) script) n e w with
    | .ok () w₁ => (w₁.registered e).map fun followers => (w₁, followers)
    | .error _ _ => none
  | .afterwards _ | .elsewhere _ _ => none

/-- Elsewhere, all that is on the main queue may leave it, and all that is there then is put by
others. A flush only adds what the consumers take and register: what it puts on the main queue is
read off the deque. -/
def Account.after (conduct : Conducts ε κ) (e : ε) (w : World ε κ) (o : Occasion ε κ)
    (_ : World ε κ) (a : Account ε) : Account ε :=
  match w.flushes conduct e o with
  | some (w₁, followers) =>
    { a with
      left := a.left ++ w₁.takenAtFlush conduct followers
      late := a.late ++ (w₁.atFlush conduct followers).flatMap (·.followers e) }
  | none =>
    match o with
    | .elsewhere main _ =>
      { a with others := a.others ++ main.queue, left := a.left ++ w.main.queue }
    | .afterwards _ | .handle _ _ => a

/-- The life of `e`, with the account of its afterwards events. -/
def accountedLife (conduct : Conducts ε κ) (e : ε) :
    Machine (World ε κ × Account ε) (Occasion ε κ) (Option Nat) :=
  (life conduct e).observe (Account.after conduct e)

/-- Each registration, by the log or by a consumer at a flush, and each event that others put on the
main queue is on the main queue once, has left it, or is still registered. -/
def RegisteredOnce (e : ε) (g : World ε κ × Account ε) : Prop :=
  (followUps e g.1.log ++ g.2.late ++ g.2.others).Perm
    (g.1.main.queue ++ g.2.left ++ (g.1.registered e).getD [])

/-- No consumer that is called at the flush throws, or registers on the event. -/
def Undisturbed (conduct : Conducts ε κ) (e : ε) (g : World ε κ × Account ε)
    (o : Occasion ε κ) : Prop :=
  ∀ w₁ followers, g.1.flushes conduct e o = some (w₁, followers) →
    ∀ c ∈ w₁.atFlush conduct followers, ¬c.Throws ∧ c.followers e = []

section Life

variable {conduct : Conducts ε κ} {e : ε} {w w' : World ε κ} {a a' : Account ε}
  {o : Occasion ε κ} {answer : Option Nat}

/-- A call of `handle` whose dispatches end with an exception. -/
theorem handle_threw {n : Nat} {script : World ε κ → IdType → ε → Behaviour ε} {x : Fault}
    {w₁ : World ε κ}
    (h : dispatches (throwing (conducted conduct) script) n e w = .error x w₁) :
    handle (conducted conduct) (throwing (conducted conduct) script) n e w = .error x w₁ :=
  Program.bind_error h

theorem handle_flushes {n : Nat} {script : World ε κ → IdType → ε → Behaviour ε} {w₁ : World ε κ}
    (h : dispatches (throwing (conducted conduct) script) n e w = .ok () w₁) :
    handle (conducted conduct) (throwing (conducted conduct) script) n e w =
      flushAfterwards (conducted conduct) e w₁ :=
  Program.bind_ok h

/-- A step that does not flush registers what it logs, and leaves the main queue to others. -/
theorem step_registers (hflush : w.flushes conduct e o = none)
    (hst : (life conduct e).step w o = some (answer, w')) (a : Account ε) :
    ∃ more, w'.log = w.log ++ more ∧
      w'.registered e = enroll (w.registered e) (followUps e more) ∧
      (a.after conduct e w o w').late = a.late ∧
      ((a.after conduct e w o w').others ++ (w.main.queue ++ a.left)).Perm
        (a.others ++ (w'.main.queue ++ (a.after conduct e w o w').left)) := by
  have hown (hafter : a.after conduct e w o w' = a) (hreg : Registers e w w') :
      ∃ more, w'.log = w.log ++ more ∧
        w'.registered e = enroll (w.registered e) (followUps e more) ∧
        (a.after conduct e w o w').late = a.late ∧
        ((a.after conduct e w o w').others ++ (w.main.queue ++ a.left)).Perm
          (a.others ++ (w'.main.queue ++ (a.after conduct e w o w').left)) := by
    obtain ⟨more, hlog, hmore, hmain⟩ := hreg
    exact ⟨more, hlog, hmore, by rw [hafter], by rw [hafter, hmain]⟩
  cases o with
  | afterwards follower =>
    cases hst
    exact hown rfl (act_registers (conducted conduct) e (.afterwards follower) w)
  | elsewhere main events =>
    cases hst
    refine ⟨[], by simp, by simp [World.registered, followUps], rfl, ?_⟩
    simp only [Account.after, World.flushes, List.append_assoc]
    refine List.Perm.append_left _ (List.Perm.append_left _ ?_)
    exact List.perm_append_comm
  | handle n script =>
    refine hown (by simp only [Account.after, hflush]) ?_
    have hreg := dispatches_registers (conducted conduct) script e n w
    simp only [World.flushes] at hflush
    simp only [life] at hst
    cases hrun : dispatches (throwing (conducted conduct) script) n e w with
    | error x w₁ =>
      rw [hrun] at hreg
      rw [handle_threw hrun] at hst
      cases x <;> cases hst
      exact hreg
    | ok u w₁ =>
      rw [hrun] at hreg hflush
      have hnone : w₁.registered e = none := Option.map_eq_none_iff.mp hflush
      have hidle : flushAfterwards (conducted conduct) e w₁ = .ok () w₁ := by
        unfold World.registered at hnone
        simp only [flushAfterwards, hnone]
      rw [handle_flushes hrun, hidle] at hst
      cases hst
      exact hreg

/-- A step that flushes: what the dispatches registered is logged, and what is registered behind the
flush depends on whether a consumer throws. -/
theorem step_flushes {w₁ : World ε κ} {followers : List ε}
    (hflush : w.flushes conduct e o = some (w₁, followers))
    (hst : (life conduct e).step w o = some (answer, w')) :
    ∃ more, w'.log = w.log ++ more ∧
      some followers = enroll (w.registered e) (followUps e more) ∧
      w₁.takenAtFlush conduct followers ++ w'.main.queue = followers ++ w.main.queue ∧
      ((w'.registered e = none ∧ ∀ c ∈ w₁.atFlush conduct followers, ¬c.Throws) ∨
        w'.registered e =
            enroll (some followers) ((w₁.atFlush conduct followers).flatMap (·.followers e)) ∧
          ∃ c ∈ w₁.atFlush conduct followers, c.Throws) := by
  cases o with
  | afterwards follower => cases hflush
  | elsewhere main events => cases hflush
  | handle n script =>
    have hreg := dispatches_registers (conducted conduct) script e n w
    simp only [World.flushes] at hflush
    simp only [life] at hst
    cases hrun : dispatches (throwing (conducted conduct) script) n e w with
    | error x w₂ =>
      rw [hrun] at hflush
      cases hflush
    | ok u w₂ =>
      rw [hrun] at hreg hflush
      obtain ⟨fs, hsome, heq⟩ := Option.map_eq_some_iff.mp hflush
      cases heq
      obtain ⟨more, hlog, hmore, hmain⟩ := hreg
      rw [handle_flushes hrun] at hst
      obtain ⟨w₃, hlog₃, hqueue, hend⟩ := flushAfterwards_called conduct hsome
      rw [show w₁.main = w.main from hmain] at hqueue
      rcases hend with ⟨hret, hnone, hcs⟩ | ⟨⟨k, hthrew⟩, hkept, hcs⟩
      · rw [hret] at hst
        cases hst
        exact ⟨more, hlog₃.trans hlog, hsome.symm.trans hmore, hqueue, .inl ⟨hnone, hcs⟩⟩
      · rw [hthrew] at hst
        cases hst
        exact ⟨more, hlog₃.trans hlog, hsome.symm.trans hmore, hqueue, .inr ⟨hkept, hcs⟩⟩

section Counts

variable {logged late others others' queue queue' left left' taken old more new : List ε}

/-- Nothing is flushed. -/
theorem perm_registered (h : (logged ++ late ++ others).Perm (queue ++ left ++ old))
    (hmoved : (others' ++ (queue ++ left)).Perm (others ++ (queue' ++ left'))) :
    (logged ++ more ++ late ++ others').Perm (queue' ++ left' ++ (old ++ more)) := by
  rw [List.perm_iff_count] at h hmoved ⊢
  intro i
  have hi := h i
  have hm := hmoved i
  simp only [List.count_append] at hi hm ⊢
  omega

/-- What was registered is flushed and removed, and so is `new`. -/
theorem perm_flushed (h : (logged ++ late ++ others).Perm (queue ++ left ++ old))
    (hqueue : taken ++ queue' = old ++ more ++ queue) :
    (logged ++ more ++ (late ++ new) ++ others).Perm (queue' ++ (left ++ taken)) ↔ new = [] := by
  have hcount : ∀ i, (logged ++ more ++ (late ++ new) ++ others).count i =
      (queue' ++ (left ++ taken)).count i + new.count i := by
    intro i
    have hi := List.perm_iff_count.mp h i
    have hq := congrArg (List.count i) hqueue
    simp only [List.count_append] at hi hq ⊢
    omega
  rw [List.perm_iff_count]
  constructor
  · intro hperm
    refine List.eq_nil_iff_forall_not_mem.mpr fun i hin => ?_
    have hpos := List.count_pos_iff.mpr hin
    have hnow := hperm i
    rw [hcount] at hnow
    omega
  · rintro rfl i
    exact hcount i

/-- What was registered is flushed and stays registered. -/
theorem not_perm_kept (h : (logged ++ late ++ others).Perm (queue ++ left ++ old))
    (hqueue : taken ++ queue' = old ++ more ++ queue) (hne : old ++ more ≠ []) :
    ¬(logged ++ more ++ (late ++ new) ++ others).Perm
      (queue' ++ (left ++ taken) ++ (old ++ more ++ new)) := by
  intro hperm
  obtain ⟨i, hin⟩ := List.exists_mem_of_ne_nil _ hne
  have hnow := List.perm_iff_count.mp hperm i
  have hi := List.perm_iff_count.mp h i
  have hq := congrArg (List.count i) hqueue
  have hpos := List.count_pos_iff.mpr hin
  simp only [List.count_append] at hnow hi hq hpos
  omega

end Counts

theorem undisturbed_flush {w₁ : World ε κ} {followers : List ε}
    (hflush : w.flushes conduct e o = some (w₁, followers)) :
    Undisturbed conduct e (w, a) o ↔
      ∀ c ∈ w₁.atFlush conduct followers, ¬c.Throws ∧ c.followers e = [] := by
  constructor
  · exact fun hu => hu w₁ followers hflush
  · intro hall w₂ fs hsome
    cases hflush.symm.trans hsome
    exact hall

/-- **One step** keeps every registration exactly if its flush is undisturbed. -/
theorem accounted_step (hne : w.registered e ≠ some []) (h : RegisteredOnce e (w, a))
    (hst : (accountedLife conduct e).step (w, a) o = some (answer, (w', a'))) :
    w'.registered e ≠ some [] ∧
      (RegisteredOnce e (w', a') ↔ Undisturbed conduct e (w, a) o) := by
  obtain ⟨hlife, rfl⟩ := Machine.observe_step.mp hst
  unfold RegisteredOnce at h ⊢
  cases hflush : w.flushes conduct e o with
  | none =>
    obtain ⟨more, hlog, hreg, hlate, hmoved⟩ := step_registers hflush hlife a
    refine ⟨hreg ▸ enroll_ne_nil hne _, iff_of_true ?_ fun w₁ followers hsome => ?_⟩
    · simp only [hlog, hreg, hlate, getD_enroll, followUps_append]
      exact perm_registered h hmoved
    · cases hflush.symm.trans hsome
  | some r =>
    obtain ⟨w₁, followers⟩ := r
    obtain ⟨more, hlog, hmore, hqueue, hend⟩ := step_flushes hflush hlife
    have hfollowers : followers = (w.registered e).getD [] ++ followUps e more := by
      have hget := congrArg (fun o => Option.getD o []) hmore
      simpa using hget
    have hpos : followers ≠ [] := by
      rintro rfl
      exact enroll_ne_nil hne _ hmore.symm
    rw [undisturbed_flush hflush]
    simp only [Account.after, hflush, hlog, followUps_append]
    rcases hend with ⟨hnone, hcs⟩ | ⟨hkept, c, hc, hthrows⟩
    · -- a registration of a consumer is removed with the component
      have hlate : (w₁.atFlush conduct followers).flatMap (·.followers e) = [] ↔
          ∀ c ∈ w₁.atFlush conduct followers, ¬c.Throws ∧ c.followers e = [] := by
        rw [List.flatMap_eq_nil_iff]
        exact forall₂_congr fun c hc => ⟨fun hf => ⟨hcs c hc, hf⟩, And.right⟩
      rw [hnone, ← hlate, Option.getD_none, List.append_nil]
      exact ⟨by simp, perm_flushed h (hfollowers ▸ hqueue)⟩
    · -- what was put on the main queue is still registered
      refine ⟨hkept ▸ enroll_ne_nil (by simpa using hpos) _,
        iff_of_false (fun hperm => ?_) fun hall => (hall c hc).1 hthrows⟩
      rw [hkept, getD_enroll, Option.getD_some] at hperm
      exact not_perm_kept h (hfollowers ▸ hqueue) (hfollowers ▸ hpos) (by rwa [← hfollowers])

end Life

/-- **Once on the main queue.** Whatever happens to an event, in every state the main queue and what
has left it are what others put there and, once each, the registrations that are not registered any
more, exactly if no consumer that is called at a flush of the event throws or registers on it. -/
theorem registered_once_iff (conduct : Conducts ε κ) (e : ε) {w : World ε κ} (hlog : w.log = [])
    (hnone : w.registered e = none) (occasions : List (Occasion ε κ)) :
    (accountedLife conduct e).AllStates (RegisteredOnce e) (w, .start w) occasions ↔
      (accountedLife conduct e).AllSteps (Undisturbed conduct e) (w, .start w) occasions := by
  refine Machine.allStates_iff_allSteps
    (P := fun g => g.1.registered e ≠ some [] ∧ RegisteredOnce e g) (fun _ hg => hg.2) ?_ ?_
    ⟨by simp [hnone], ?_⟩ occasions
  · intro g o answer g' hg hst
    exact (accounted_step hg.1 hg.2 hst).2
  · intro g o answer g' hg hst honce
    exact ⟨(accounted_step hg.1 hg.2 hst).1, honce⟩
  · simp [RegisteredOnce, Account.start, hlog, hnone, followUps]

/-- One consumer throws, one registers the event `true` on the event `false` and does not take what
it is offered, and one takes it. -/
def badConduct : Conducts Bool (Fin 3)
  | 0, _, _ => { ending := .throws 7 }
  | 1, _, _ => { afterwards := [(false, true)], ending := .rejects }
  | 2, _, _ => { ending := .accepts }

def waiting (k : Fin 3) : World Bool (Fin 3) where
  events _ := { idQueue := ⟨[.ofEnum (.user 0) 1], 0⟩ }
  main := { queueConsumers := [k] }

/-- Handlers that do nothing. -/
def idle (_ : World Bool (Fin 3)) (_ : IdType) (_ : Bool) : Behaviour Bool := { acts := [] }

theorem registered_once_accepted :
    (accountedLife badConduct false).AllStates (RegisteredOnce false)
        (waiting 2, .start (waiting 2)) [.afterwards true, .handle 3 idle] ↔
      (accountedLife badConduct false).AllSteps (Undisturbed badConduct false)
        (waiting 2, .start (waiting 2)) [.afterwards true, .handle 3 idle] :=
  registered_once_iff badConduct false rfl rfl _

instance decidableRegisteredOnce (e : ε) (g : World ε κ × Account ε) :
    Decidable (RegisteredOnce e g) :=
  inferInstanceAs (Decidable (List.Perm _ _))

/-- An event that is registered once is put on the main queue by two calls of `handle`, the first of
which a consumer ends; and one that a consumer registers is lost. -/
theorem registered_twice_and_lost :
    ((accountedLife badConduct false).run (waiting 0, .start (waiting 0))
        [.afterwards true, .handle 3 idle, .handle 3 idle]).map
          (fun r => (r.1, followUps false r.2.1.log, r.2.1.main.queue,
            decide (RegisteredOnce false r.2))) =
      some ([none, some 7, none], [true], [true, true], false) ∧
    ((accountedLife badConduct false).run (waiting 1, .start (waiting 1))
        [.afterwards true, .handle 3 idle]).map
          (fun r => (r.2.2.late, r.2.1.main.queue, (r.2.1.registered false).getD [],
            decide (RegisteredOnce false r.2))) =
      some ([true], [true], [], false) := by
  decide +kernel

end Slirc
