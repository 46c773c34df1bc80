import Slirc.Connection.Engaged
import Slirc.Connection.Outgoing
import Slirc.Lib.ListUpdate
import Mathlib.Data.List.Perm.Basic

/-!
# The lifetime of a connection (`weak_impl` and `locked_impl` in `src/modules/connection.cpp`)

The module owns `impl` by a shared pointer. A handler that was started has a weak pointer only: it
locks it, and returns at once if `impl` has been destroyed; else it takes the mutex, runs, and gives
its shared pointer back afterwards. Handlers of other threads go on while the module is destroyed.
`send_raw` takes no mutex: where it overlaps a section, or another call of it, the buffers may
become anything, and any writes may be started (`LifetimeStep.race`).

* `Lifetime`: the objects, and the handlers that have been called. A use of an object that does not
  exist any more is recorded (`dangling`).
* `Inv`: the references are counted, at most one section has the mutex, and without a race `impl`
  goes through the states of a connection whose handlers are called one at a time.
* `no_dangling`: no function of the module and no handler uses what does not exist.
  `impl_destroyed`: `impl` does not outlive the handlers that were started.

The functions of the module are called while it exists. Only they and the handlers are followed, not
what an outstanding operation does with the stream and the send buffer of `impl` that were handed to
it. An exception of a handler ends the process; the steps that follow it here are then not taken.
-/

namespace Slirc.Connection

/-! ## What is started -/

section Started

variable {s s' : Impl} {o : Outcome}

theorem TryNext.started (h : TryNext s o s') : ∃ m, s'.operations = s.operations ++ m := by
  cases h with
  | exhausted _ hdown => exact ⟨[], by rw [hdown.operations, List.append_nil]⟩
  | missing => exact ⟨[], (List.append_nil _).symm⟩
  | @next endpoint rest sock =>
    have htrying : (s.trying sock endpoint rest).operations =
        (s.setOpen sock true).operations ++
          [⟨(s.setOpen sock true).attempt, .connect endpoint⟩] := rfl
    exact ⟨_, htrying.trans (by rw [Impl.setOpen_operations])⟩

theorem Handled.started {operation : Operation} {completion : Completion}
    (h : Handled s operation completion o s') : ∃ m, s'.operations = s.operations ++ m := by
  cases h with
  | idle => exact ⟨[], (List.append_nil _).symm⟩
  | lookupFailed _ hdown | readFailed _ hdown | writeFailed _ hdown =>
    exact ⟨[], by rw [hdown.operations, Impl.emitting_operations, List.append_nil]⟩
  | resolved _ hnext | connectFailed _ hnext => exact hnext.started
  | handshakeFailed => exact ⟨[], (List.append_nil _).symm⟩
  | handshake | connected | shaken | received | transferred => exact ⟨_, rfl⟩

/-- A call adds to the operations, other than the one that has completed. -/
theorem step_started {sslSupport : Bool} {call : Call}
    (hst : s.step sslSupport call = some (o, s')) :
    ∃ m, s'.operations = s.remaining call ++ m := by
  cases step_effect hst with
  | endpointRefused | connectRefused | ignored | setEndpoint =>
    exact ⟨[], (List.append_nil _).symm⟩
  | connect | sendRaw => exact ⟨_, rfl⟩
  | disconnect _ hdown => exact ⟨[], by rw [hdown.operations]; exact (List.append_nil _).symm⟩
  | deliver _ _ hdone => exact hdone.started

end Started

/-! ## The objects -/

/-- Where a handler is. -/
inductive HandlerPhase where
  /-- It has been called, and has not locked its weak pointer. -/
  | called
  /-- It waits for the mutex. -/
  | locked
  /-- It has the mutex. -/
  | inside
  /-- It has left the mutex, and still has its shared pointer. -/
  | finished
  deriving DecidableEq, Repr

/-- A handler that a thread runs. -/
structure Handler where
  started : Started
  completion : Completion
  phase : HandlerPhase := .called
  deriving DecidableEq, Repr

namespace Handler

/-- The number of shared pointers of the handler. -/
def holds (h : Handler) : Nat :=
  match h.phase with
  | .called => 0
  | .locked | .inside | .finished => 1

/-- Whether the handler has the mutex. -/
def owns (h : Handler) : Nat :=
  match h.phase with
  | .inside => 1
  | .called | .locked | .finished => 0

theorem owns_le (h : Handler) : h.owns ≤ 1 := by
  unfold owns
  split <;> simp

/-- The operation, until the handler has run. -/
def pending (h : Handler) : Option Started :=
  match h.phase with
  | .called | .locked | .inside => some h.started
  | .finished => none

/-- The number of steps that the handler still makes. -/
def budget (h : Handler) : Nat :=
  match h.phase with
  | .called => 4
  | .locked => 3
  | .inside => 2
  | .finished => 1

end Handler

/-- The module and its `impl`. The operations of `impl` are those whose handlers have not run. -/
structure Lifetime where
  impl : Impl := {}
  /-- The module exists. -/
  module : Bool := true
  /-- `impl_.use_count()`: `impl` exists as long as this is not zero. -/
  useCount : Nat := 1
  /-- A public function has the mutex. -/
  calling : Bool := false
  handlers : List Handler := []
  /-- A call of `send_raw` has overlapped a section, or another one. -/
  raced : Bool := false
  /-- An object was used that did not exist. -/
  dangling : Bool := false
  deriving DecidableEq, Repr

inductive LifetimeStep where
  /-- A public function gets the mutex. -/
  | begin
  /-- The section of a public function, which leaves the mutex; or a whole call of `send_raw`. -/
  | call (call : Call)
  /-- A call of `send_raw` that overlaps a section, or another one. -/
  | race (buffers : Buffers) (requests : List WriteRequest)
  /-- An operation completes, and a thread calls its handler. -/
  | complete (x : Started) (completion : Completion)
  /-- The handler locks its weak pointer. -/
  | lock (n : Nat)
  /-- The handler gets the mutex. -/
  | enter (n : Nat)
  /-- The section of the handler, of the `i`th operation. -/
  | run (n i : Nat)
  /-- The handler has found that `impl` does not exist any more. -/
  | gone (n i : Nat)
  /-- The handler ends, and gives its shared pointer back. -/
  | release (n : Nat)
  /-- `~connection` -/
  | destroy

namespace Lifetime

/-- The operations whose handlers have been called, and have not run. -/
def pending (s : Lifetime) : List Started := s.handlers.filterMap Handler.pending

/-- The number of sections that have the mutex. -/
def sections (s : Lifetime) : Nat := s.calling.toNat + ListUpdate.weight Handler.owns s.handlers

/-- Code that uses `impl`, and also the module if it makes an event. -/
def uses (s : Lifetime) (impl : Impl) : Lifetime :=
  { s with
    impl
    dangling := s.dangling || s.useCount == 0 ||
      (impl.emitted.length != s.impl.emitted.length && !s.module) }

/-- The `n`th handler is at a phase, and is that of the `i`th operation. -/
def handlerOf (s : Lifetime) (n i : Nat) (phase : HandlerPhase) : Option Handler :=
  s.handlers[n]?.bind fun h =>
    if h.phase = phase ∧ s.impl.operations[i]? = some h.started then some h else none

def step (sslSupport : Bool) (s : Lifetime) : LifetimeStep → Option Lifetime
  | .begin =>
    if s.module = true ∧ s.sections = 0 then some { s with calling := true } else none
  | .call (.deliver _ _) => none
  | .call call =>
    if s.module = true ∧ (if call.locks then s.calling = true else s.sections = 0) then
      (s.impl.step sslSupport call).map fun r => { s.uses r.2 with calling := false }
    else none
  | .race buffers requests =>
    if s.module = true then
      let writes := requests.map fun request => ⟨s.impl.attempt, .write request⟩
      some { s.uses { s.impl with buffers, operations := s.impl.operations ++ writes } with
        raced := true }
    else none
  | .complete x completion =>
    if s.pending.count x < s.impl.operations.count x ∧
        (x.operation.complete completion).isSome = true then
      some { s with handlers := s.handlers ++ [{ started := x, completion }] }
    else none
  | .lock n =>
    s.handlers[n]?.bind fun h =>
      if h.phase = .called ∧ s.useCount ≠ 0 then
        some { s with
          useCount := s.useCount + 1
          handlers := s.handlers.set n { h with phase := .locked } }
      else none
  | .enter n =>
    s.handlers[n]?.bind fun h =>
      if h.phase = .locked ∧ s.sections = 0 then
        some { s with handlers := s.handlers.set n { h with phase := .inside } }
      else none
  | .run n i =>
    (s.handlerOf n i .inside).bind fun h =>
      (s.impl.step sslSupport (.deliver i h.completion)).map fun r =>
        { s.uses r.2 with handlers := s.handlers.set n { h with phase := .finished } }
  | .gone n i =>
    (s.handlerOf n i .called).bind fun _ =>
      if s.useCount = 0 then
        some { s with impl := s.impl.without i, handlers := s.handlers.eraseIdx n }
      else none
  | .release n =>
    s.handlers[n]?.bind fun h =>
      if h.phase = .finished then
        some { s with useCount := s.useCount - 1, handlers := s.handlers.eraseIdx n }
      else none
  | .destroy =>
    -- an exception would leave a destructor
    if s.module = true ∧ s.sections = 0 then
      match outcome (Connection.destroy s.impl) with
      | some (.returned, impl) =>
        some { s.uses impl with module := false, useCount := s.useCount - 1 }
      | _ => none
    else none

/-- The runs of a module that was newly constructed. -/
def machine (sslSupport : Bool) : Machine Lifetime LifetimeStep Unit :=
  ⟨fun s a => (s.step sslSupport a).map fun s' => ((), s')⟩

/-- What a step can do. -/
inductive Effect (sslSupport : Bool) (s : Lifetime) : LifetimeStep → Lifetime → Prop where
  | begin : s.module = true → s.sections = 0 → Effect sslSupport s .begin { s with calling := true }
  | call {call : Call} {o : Outcome} {impl : Impl} : s.module = true →
    (if call.locks then s.calling = true else s.sections = 0) →
    (∀ i completion, call ≠ .deliver i completion) →
    s.impl.step sslSupport call = some (o, impl) →
    Effect sslSupport s (.call call) { s.uses impl with calling := false }
  | race {buffers : Buffers} {requests : List WriteRequest} {m : List Started} :
    s.module = true →
    Effect sslSupport s (.race buffers requests)
      { s.uses { s.impl with buffers, operations := s.impl.operations ++ m } with raced := true }
  | complete {x : Started} {completion : Completion} :
    s.pending.count x < s.impl.operations.count x →
    (x.operation.complete completion).isSome = true →
    Effect sslSupport s (.complete x completion)
      { s with handlers := s.handlers ++ [{ started := x, completion }] }
  | lock {n : Nat} {h : Handler} : s.handlers[n]? = some h → h.phase = .called → s.useCount ≠ 0 →
    Effect sslSupport s (.lock n) { s with
      useCount := s.useCount + 1
      handlers := s.handlers.set n { h with phase := .locked } }
  | enter {n : Nat} {h : Handler} : s.handlers[n]? = some h → h.phase = .locked →
    s.sections = 0 →
    Effect sslSupport s (.enter n)
      { s with handlers := s.handlers.set n { h with phase := .inside } }
  | run {n i : Nat} {h : Handler} {o : Outcome} {impl : Impl} :
    s.handlers[n]? = some h → h.phase = .inside → s.impl.operations[i]? = some h.started →
    s.impl.step sslSupport (.deliver i h.completion) = some (o, impl) →
    Effect sslSupport s (.run n i)
      { s.uses impl with handlers := s.handlers.set n { h with phase := .finished } }
  | gone {n i : Nat} {h : Handler} : s.handlers[n]? = some h → h.phase = .called →
    s.impl.operations[i]? = some h.started → s.useCount = 0 →
    Effect sslSupport s (.gone n i)
      { s with impl := s.impl.without i, handlers := s.handlers.eraseIdx n }
  | release {n : Nat} {h : Handler} : s.handlers[n]? = some h → h.phase = .finished →
    Effect sslSupport s (.release n)
      { s with useCount := s.useCount - 1, handlers := s.handlers.eraseIdx n }
  | destroy {impl : Impl} : s.module = true → s.sections = 0 →
    s.impl.step sslSupport .disconnect = some (.returned, impl) →
    Effect sslSupport s .destroy
      { s.uses impl with module := false, useCount := s.useCount - 1 }

theorem handlerOf_eq_some {s : Lifetime} {n i : Nat} {phase : HandlerPhase} {h : Handler}
    (hh : s.handlerOf n i phase = some h) :
    s.handlers[n]? = some h ∧ h.phase = phase ∧ s.impl.operations[i]? = some h.started := by
  obtain ⟨x, hx, hh⟩ := Option.bind_eq_some_iff.mp hh
  obtain ⟨hphase, heq⟩ := Option.ite_none_right_eq_some.mp hh
  cases heq
  exact ⟨hx, hphase⟩

theorem step_effect {sslSupport : Bool} {s s' : Lifetime} {a : LifetimeStep}
    (hst : s.step sslSupport a = some s') : Effect sslSupport s a s' := by
  cases a with
  | begin =>
    obtain ⟨⟨hmodule, hfree⟩, heq⟩ := Option.ite_none_right_eq_some.mp hst
    cases heq
    exact .begin hmodule hfree
  | call call =>
    have hpublic : ((s.module = true ∧ (if call.locks then s.calling = true else s.sections = 0)) ∧
        (s.impl.step sslSupport call).map (fun r => { s.uses r.2 with calling := false }) =
          some s') ∧ ∀ i completion, call ≠ .deliver i completion := by
      cases call with
      | deliver => cases hst
      | _ => exact ⟨Option.ite_none_right_eq_some.mp hst, by simp⟩
    obtain ⟨⟨⟨hmodule, hmutex⟩, hmap⟩, hne⟩ := hpublic
    obtain ⟨⟨o, impl⟩, hcall, rfl⟩ := Option.map_eq_some_iff.mp hmap
    exact .call hmodule hmutex hne hcall
  | race buffers requests =>
    obtain ⟨hmodule, heq⟩ := Option.ite_none_right_eq_some.mp hst
    cases heq
    exact .race hmodule
  | complete x completion =>
    obtain ⟨⟨hcount, hc⟩, heq⟩ := Option.ite_none_right_eq_some.mp hst
    cases heq
    exact .complete hcount hc
  | lock n =>
    obtain ⟨h, hn, hst⟩ := Option.bind_eq_some_iff.mp hst
    obtain ⟨⟨hp, hcount⟩, heq⟩ := Option.ite_none_right_eq_some.mp hst
    cases heq
    exact .lock hn hp hcount
  | enter n =>
    obtain ⟨h, hn, hst⟩ := Option.bind_eq_some_iff.mp hst
    obtain ⟨⟨hp, hfree⟩, heq⟩ := Option.ite_none_right_eq_some.mp hst
    cases heq
    exact .enter hn hp hfree
  | run n i =>
    obtain ⟨h, hh, hst⟩ := Option.bind_eq_some_iff.mp hst
    obtain ⟨⟨o, impl⟩, hcall, rfl⟩ := Option.map_eq_some_iff.mp hst
    obtain ⟨hn, hp, hi⟩ := handlerOf_eq_some hh
    exact .run hn hp hi hcall
  | gone n i =>
    obtain ⟨h, hh, hst⟩ := Option.bind_eq_some_iff.mp hst
    obtain ⟨hcount, heq⟩ := Option.ite_none_right_eq_some.mp hst
    cases heq
    obtain ⟨hn, hp, hi⟩ := handlerOf_eq_some hh
    exact .gone hn hp hi hcount
  | release n =>
    obtain ⟨h, hn, hst⟩ := Option.bind_eq_some_iff.mp hst
    obtain ⟨hp, heq⟩ := Option.ite_none_right_eq_some.mp hst
    cases heq
    exact .release hn hp
  | destroy =>
    obtain ⟨⟨hmodule, hfree⟩, hst⟩ := Option.ite_none_right_eq_some.mp hst
    split at hst
    · rename_i hout
      cases hst
      exact .destroy hmodule hfree hout
    · cases hst

/-! ## The invariant -/

/-- The connection is left for good: its handlers return at once. -/
def Left (s : Impl) : Prop := s.curstate = .disconnected ∨ s.curstate = .disconnecting

/-- The references are counted; at most one section has the mutex; the handlers that have been
called are those of some operations; and when the module is gone, the connection is left. -/
structure Inv (sslSupport : Bool) (s : Lifetime) : Prop where
  impl : s.raced = false → (Connection.machine sslSupport).Reaches {} s.impl
  count : s.useCount = s.module.toNat + ListUpdate.weight Handler.holds s.handlers
  exclusive : s.sections ≤ 1
  calling : s.calling = true → s.module = true
  called : ∃ waiting, s.impl.operations.Perm (s.pending ++ waiting)
  completed : ∀ h ∈ s.handlers, (h.started.operation.complete h.completion).isSome = true
  left : s.module = false → Left s.impl
  safe : s.dangling = false

theorem inv_init (sslSupport : Bool) : Inv sslSupport {} :=
  ⟨fun _ => .refl _, rfl, by decide, fun _ => rfl, ⟨[], .nil⟩, by simp, by simp, rfl⟩

section Inv

variable {sslSupport : Bool} {s s' : Lifetime}

/-- `impl` takes the steps of a connection. -/
theorem Inv.reaches (hs : s.Inv sslSupport) {call : Call} {o : Outcome} {impl : Impl}
    (hcall : s.impl.step sslSupport call = some (o, impl)) (hraced : s.raced = false) :
    (Connection.machine sslSupport).Reaches {} impl :=
  (hs.impl hraced).trans (.single (a := call) (o := o) hcall)

/-- A handler that is about to run holds a reference. -/
theorem Inv.held (hs : s.Inv sslSupport) {n : Nat} {h : Handler} (hn : s.handlers[n]? = some h)
    (hp : h.phase ≠ .called) : 0 < s.useCount := by
  have hset := ListUpdate.weight_eraseIdx (f := Handler.holds) hn
  have hone : h.holds = 1 := by
    cases hphase : h.phase <;> simp_all [Handler.holds]
  have hcount := hs.count
  omega

/-- The module holds a reference. -/
theorem Inv.owned (hs : s.Inv sslSupport) (hmodule : s.module = true) : 0 < s.useCount := by
  have hcount := hs.count
  rw [hmodule, Bool.toNat_true] at hcount
  omega

/-- `~connection` leaves the connection. -/
theorem left_of_disconnect {s s' : Impl}
    (hst : s.step sslSupport .disconnect = some (.returned, s')) : Left s' := by
  cases Connection.step_effect hst with
  | ignored hidle => exact hidle.symm
  | disconnect _ hdown =>
    cases hdown
    exact .inl rfl

/-- The handler of a connection that is left does nothing. -/
theorem deliver_of_left {s : Impl} (hs : Left s) {i : Nat} {x : Started} {completion : Completion}
    (hx : s.operations[i]? = some x) (hc : (x.operation.complete completion).isSome = true) :
    s.step sslSupport (.deliver i completion) = some (.returned, s.without i) := by
  obtain ⟨code, hcode⟩ := Option.isSome_iff_exists.mp hc
  have hne : (s.without i).curstate ≠ x.operation.expects := by
    rcases hs with hs | hs <;> rw [Impl.without_curstate, hs] <;> cases x.operation <;>
      simp [Operation.expects]
  rw [deliver_eq sslSupport hx hcode, complete_idle hcode hne]
  rfl

/-- Code that has the objects that it uses. -/
theorem Inv.uses (hs : s.Inv sslSupport) {impl : Impl} (hcount : 0 < s.useCount)
    (hmodule : s.module = false → impl.emitted = s.impl.emitted) :
    (s.uses impl).dangling = false := by
  have hne : (s.useCount == 0) = false := by
    rw [beq_eq_false_iff_ne]
    omega
  rw [Lifetime.uses, hs.safe, hne]
  cases hm : s.module with
  | true => simp
  | false => simp [hmodule hm]

/-- The handler's operation is removed. -/
theorem called_eraseIdx (hs : s.Inv sslSupport) {i : Nat} {x : Started}
    (hi : s.impl.operations[i]? = some x) {pending m : List Started}
    (hpending : s.pending.Perm (x :: pending)) :
    ∃ waiting, (s.impl.operations.eraseIdx i ++ m).Perm (pending ++ waiting) := by
  obtain ⟨waiting, hwaiting⟩ := hs.called
  obtain ⟨hlt, rfl⟩ := List.getElem?_eq_some_iff.mp hi
  have herase : (s.impl.operations.eraseIdx i).Perm (pending ++ waiting) := by
    refine (List.perm_cons s.impl.operations[i]).mp ?_
    exact (List.getElem_cons_eraseIdx_perm hlt).trans (hwaiting.trans (hpending.append_right _))
  refine ⟨waiting ++ m, ?_⟩
  rw [← List.append_assoc]
  exact herase.append_right m

/-- Operations are started, and no handler is called. -/
theorem called_append (hs : s.Inv sslSupport) (m : List Started) :
    ∃ waiting, (s.impl.operations ++ m).Perm (s.pending ++ waiting) := by
  obtain ⟨waiting, hwaiting⟩ := hs.called
  refine ⟨waiting ++ m, ?_⟩
  rw [← List.append_assoc]
  exact hwaiting.append_right m

/-- A section of a public function, or a call of `send_raw`. -/
theorem Inv.call (hs : s.Inv sslSupport) {call : Call} {o : Outcome} {impl : Impl}
    (hmodule : s.module = true) (hpublic : ∀ i completion, call ≠ .deliver i completion)
    (hcall : s.impl.step sslSupport call = some (o, impl)) :
    ({ s.uses impl with calling := false } : Lifetime).Inv sslSupport := by
  have hsections : ListUpdate.weight Handler.owns s.handlers ≤ 1 :=
    (Nat.le_add_left _ _).trans hs.exclusive
  refine ⟨hs.reaches hcall, hs.count, ?_, by simp, ?_, hs.completed,
    fun hm => by simp [Lifetime.uses, hmodule] at hm,
    hs.uses (hs.owned hmodule) fun hm => by simp [hmodule] at hm⟩
  · simpa [sections, Lifetime.uses] using hsections
  · obtain ⟨m, hm⟩ := step_started hcall
    have hremaining : s.impl.remaining call = s.impl.operations := by
      cases call with
      | deliver i completion => exact absurd rfl (hpublic i completion)
      | _ => rfl
    have hwaiting := called_append hs m
    rw [← hremaining, ← hm] at hwaiting
    exact hwaiting

/-- An operation has completed. -/
theorem Inv.complete (hs : s.Inv sslSupport) {x : Started} {completion : Completion}
    (hlt : s.pending.count x < s.impl.operations.count x)
    (hc : (x.operation.complete completion).isSome = true) :
    ({ s with handlers := s.handlers ++ [{ started := x, completion }] } : Lifetime).Inv
      sslSupport := by
  refine ⟨hs.impl, ?_, ?_, hs.calling, ?_, fun h hh => ?_, hs.left, hs.safe⟩
  · rw [ListUpdate.weight_append]
    exact hs.count
  · rw [sections, ListUpdate.weight_append]
    exact hs.exclusive
  · obtain ⟨waiting, hwaiting⟩ := hs.called
    have hmem : x ∈ waiting := by
      rw [hwaiting.count_eq, List.count_append] at hlt
      exact List.count_pos_iff.mp (by omega)
    refine ⟨waiting.erase x, hwaiting.trans ?_⟩
    have hpending : ({ s with handlers := s.handlers ++ [{ started := x, completion }] } :
        Lifetime).pending = s.pending ++ [x] := by
      simp [Lifetime.pending, Handler.pending]
    rw [hpending, List.append_assoc]
    exact (List.perm_cons_erase hmem).append_left _
  · rcases List.mem_append.mp hh with hh | hh
    · exact hs.completed h hh
    · rw [List.mem_singleton.mp hh]
      exact hc

/-- A handler goes on to its section. -/
theorem Inv.moves (hs : s.Inv sslSupport) {n : Nat} {h : Handler} {phase : HandlerPhase}
    (hn : s.handlers[n]? = some h)
    (hpending : Handler.pending { h with phase } = h.pending) {useCount : Nat}
    (hcount : useCount + h.holds = s.useCount + Handler.holds { h with phase })
    (hsections : Handler.owns { h with phase } = h.owns ∨ s.sections = 0) :
    ({ s with useCount, handlers := s.handlers.set n { h with phase } } : Lifetime).Inv
      sslSupport := by
  have hholds := ListUpdate.weight_set (f := Handler.holds) (y := { h with phase }) hn
  have howns := ListUpdate.weight_set (f := Handler.owns) (y := { h with phase }) hn
  have hsame : (s.handlers.set n { h with phase }).filterMap Handler.pending = s.pending :=
    ListUpdate.filterMap_set_same hn hpending
  have hone := Handler.owns_le { h with phase }
  have hexclusive := hs.exclusive
  refine ⟨hs.impl, ?_, ?_, hs.calling, ?_,
    ListUpdate.forall_mem_set hs.completed (hs.completed h (List.mem_of_getElem? hn)), hs.left,
    hs.safe⟩
  · have hbefore := hs.count
    dsimp only
    omega
  · dsimp only [sections] at hexclusive hsections ⊢
    omega
  · rw [Lifetime.pending, hsame]
    exact hs.called

/-- **The section of a handler.** -/
theorem Inv.run (hs : s.Inv sslSupport) {n i : Nat} {h : Handler} {o : Outcome} {impl : Impl}
    (hn : s.handlers[n]? = some h) (hp : h.phase = .inside)
    (hi : s.impl.operations[i]? = some h.started)
    (hcall : s.impl.step sslSupport (.deliver i h.completion) = some (o, impl)) :
    ({ s.uses impl with handlers := s.handlers.set n { h with phase := .finished } } :
      Lifetime).Inv sslSupport := by
  have hholds := ListUpdate.weight_set (f := Handler.holds) (y := { h with phase := .finished }) hn
  have howns := ListUpdate.weight_set (f := Handler.owns) (y := { h with phase := .finished }) hn
  have hone : h.holds = 1 := by simp [Handler.holds, hp]
  have hone' : Handler.holds { h with phase := .finished } = 1 := rfl
  have hnone : Handler.owns { h with phase := .finished } = 0 := rfl
  have hcount := hs.count
  have hexclusive := hs.exclusive
  have hh := hs.completed h (List.mem_of_getElem? hn)
  have hgone : s.module = false → impl = s.impl.without i := fun hm => by
    rw [deliver_of_left (hs.left hm) hi hh] at hcall
    cases hcall
    rfl
  have hpending := ListUpdate.filterMap_set_none (g := Handler.pending) (b := h.started)
    (y := { h with phase := .finished }) hn (by simp [Handler.pending, hp]) rfl
  refine ⟨hs.reaches hcall, ?_, ?_, hs.calling, ?_, ListUpdate.forall_mem_set hs.completed hh,
    fun hm => ?_, hs.uses (hs.held hn (by simp [hp])) fun hm => by rw [hgone hm]; rfl⟩
  · simp only [Lifetime.uses]
    omega
  · simp only [sections, Lifetime.uses] at hexclusive ⊢
    omega
  · obtain ⟨m, hm⟩ := step_started hcall
    have hwaiting := called_eraseIdx hs (m := m) hi hpending
    rw [show (s.impl.operations.eraseIdx i ++ m) = impl.operations from hm.symm] at hwaiting
    exact hwaiting
  · show Left impl
    rw [hgone hm]
    exact hs.left hm

/-- A handler that has locked its weak pointer in vain ends. -/
theorem Inv.gone (hs : s.Inv sslSupport) {n i : Nat} {h : Handler} (hn : s.handlers[n]? = some h)
    (hp : h.phase = .called) (hi : s.impl.operations[i]? = some h.started)
    (hzero : s.useCount = 0) :
    ({ s with impl := s.impl.without i, handlers := s.handlers.eraseIdx n } : Lifetime).Inv
      sslSupport := by
  have hh := hs.completed h (List.mem_of_getElem? hn)
  have hholds := ListUpdate.weight_eraseIdx (f := Handler.holds) hn
  have howns := ListUpdate.weight_eraseIdx (f := Handler.owns) hn
  have hnone : h.holds = 0 := by simp [Handler.holds, hp]
  have hcount := hs.count
  have hexclusive := hs.exclusive
  have hm : s.module = false := by
    cases hm : s.module with
    | false => rfl
    | true => exact absurd hzero (Nat.ne_of_gt (hs.owned hm))
  have hpending := ListUpdate.filterMap_eraseIdx_perm (g := Handler.pending) (b := h.started) hn
    (by simp [Handler.pending, hp])
  refine ⟨hs.reaches (deliver_of_left (hs.left hm) hi hh), ?_, ?_, hs.calling, ?_,
    fun h hh => hs.completed h (List.mem_of_mem_eraseIdx hh), hs.left, hs.safe⟩
  · dsimp only
    omega
  · dsimp only [sections] at hexclusive ⊢
    omega
  · have hwaiting := called_eraseIdx hs (m := []) hi hpending
    rw [List.append_nil] at hwaiting
    exact hwaiting

/-- A handler that has run gives its shared pointer back. -/
theorem Inv.release (hs : s.Inv sslSupport) {n : Nat} {h : Handler} (hn : s.handlers[n]? = some h)
    (hp : h.phase = .finished) :
    ({ s with useCount := s.useCount - 1, handlers := s.handlers.eraseIdx n } : Lifetime).Inv
      sslSupport := by
  have hholds := ListUpdate.weight_eraseIdx (f := Handler.holds) hn
  have howns := ListUpdate.weight_eraseIdx (f := Handler.owns) hn
  have hone : h.holds = 1 := by simp [Handler.holds, hp]
  have hcount := hs.count
  have hexclusive := hs.exclusive
  have hpending : (s.handlers.eraseIdx n).filterMap Handler.pending = s.pending :=
    ListUpdate.filterMap_eraseIdx_none hn (by simp [Handler.pending, hp])
  refine ⟨hs.impl, ?_, ?_, hs.calling, ?_,
    fun h hh => hs.completed h (List.mem_of_mem_eraseIdx hh), hs.left, hs.safe⟩
  · dsimp only
    omega
  · dsimp only [sections] at hexclusive ⊢
    omega
  · rw [Lifetime.pending, hpending]
    exact hs.called

/-- `~connection` -/
theorem Inv.destroy (hs : s.Inv sslSupport) {impl : Impl} (hmodule : s.module = true)
    (hfree : s.sections = 0)
    (hcall : s.impl.step sslSupport .disconnect = some (.returned, impl)) :
    ({ s.uses impl with module := false, useCount := s.useCount - 1 } : Lifetime).Inv
      sslSupport := by
  have hcount := hs.count
  obtain ⟨m, hm⟩ := step_started hcall
  refine ⟨hs.reaches hcall, ?_, hs.exclusive, fun hcalling => ?_, ?_, hs.completed,
    fun _ => left_of_disconnect hcall,
    hs.uses (hs.owned hmodule) fun hm => by simp [hmodule] at hm⟩
  · simp only [Lifetime.uses, Bool.toNat_false]
    rw [hcount, hmodule]
    simp
  · have hidle : s.calling = true := hcalling
    simp [sections, hidle] at hfree
  · show ∃ waiting, impl.operations.Perm (s.pending ++ waiting)
    rw [hm]
    exact called_append hs m

/-- **A step.** -/
theorem Inv.step (hs : s.Inv sslSupport) {a : LifetimeStep}
    (hst : s.step sslSupport a = some s') : s'.Inv sslSupport := by
  cases step_effect hst with
  | begin hmodule hfree =>
    refine ⟨hs.impl, hs.count, ?_, fun _ => hmodule, hs.called, hs.completed, hs.left, hs.safe⟩
    have hnone : ListUpdate.weight Handler.owns s.handlers = 0 := by
      rw [sections] at hfree
      omega
    simp [sections, hnone]
  | call hmodule _ hpublic hcall => exact hs.call hmodule hpublic hcall
  | @race _ _ m hmodule =>
    exact ⟨fun hraced => absurd hraced (by simp), hs.count, hs.exclusive, hs.calling,
      called_append hs m, hs.completed, hs.left, hs.uses (hs.owned hmodule) fun _ => rfl⟩
  | complete hlt hc => exact hs.complete hlt hc
  | lock hn hp =>
    exact hs.moves hn (by simp [Handler.pending, hp]) (by simp [Handler.holds, hp])
      (.inl (by simp [Handler.owns, hp]))
  | enter hn hp hfree =>
    exact hs.moves hn (by simp [Handler.pending, hp]) (by simp [Handler.holds, hp]) (.inr hfree)
  | run hn hp hi hcall => exact hs.run hn hp hi hcall
  | gone hn hp hi hzero => exact hs.gone hn hp hi hzero
  | release hn hp => exact hs.release hn hp
  | destroy hmodule hfree hcall => exact hs.destroy hmodule hfree hcall

theorem inv_of_reaches (h : (machine sslSupport).Reaches {} s) : s.Inv sslSupport := by
  refine h.inv (fun s a o s' hs hst => ?_) (inv_init sslSupport)
  obtain ⟨t, ht, he⟩ := Option.map_eq_some_iff.mp hst
  cases he
  exact hs.step ht

end Inv

/-! ## When the module is gone -/

/-- What a step does when the module is gone: it tells nothing, and starts nothing. -/
structure Silent (s s' : Lifetime) : Prop where
  module : s'.module = false
  emitted : s'.impl.emitted = s.impl.emitted
  operations : s'.impl.operations.Sublist s.impl.operations

theorem Silent.refl {s : Lifetime} (hm : s.module = false) : Silent s s :=
  ⟨hm, rfl, .refl _⟩

theorem Silent.trans {s s' s'' : Lifetime} (h : Silent s s') (h' : Silent s' s'') :
    Silent s s'' :=
  ⟨h'.module, h'.emitted.trans h.emitted, h'.operations.trans h.operations⟩

/-- A bound for the steps of the handlers of what was started. -/
def budget (s : Lifetime) : Nat :=
  5 * (s.impl.operations.length - s.pending.length) +
    ListUpdate.weight Handler.budget s.handlers

theorem Inv.pending_le {sslSupport : Bool} {s : Lifetime} (hs : s.Inv sslSupport) :
    s.pending.length ≤ s.impl.operations.length := by
  obtain ⟨waiting, hwaiting⟩ := hs.called
  rw [hwaiting.length_eq, List.length_append]
  exact Nat.le_add_right ..

/-- A handler that goes on to its section lowers the bound. -/
theorem budget_moves {s : Lifetime} {n : Nat} {h : Handler} {phase : HandlerPhase}
    (hn : s.handlers[n]? = some h) (hpending : Handler.pending { h with phase } = h.pending)
    (hlt : Handler.budget { h with phase } < h.budget) {useCount : Nat} :
    ({ s with useCount, handlers := s.handlers.set n { h with phase } } : Lifetime).budget <
      s.budget := by
  have hset := ListUpdate.weight_set (f := Handler.budget) (y := { h with phase }) hn
  have hsame : (s.handlers.set n { h with phase }).filterMap Handler.pending = s.pending :=
    ListUpdate.filterMap_set_same hn hpending
  dsimp only [budget, Lifetime.pending] at hsame ⊢
  rw [hsame]
  omega

/-- **A step when the module is gone.** -/
theorem Inv.silent {sslSupport : Bool} {s s' : Lifetime} (hs : s.Inv sslSupport)
    (hm : s.module = false) {a : LifetimeStep} (hst : s.step sslSupport a = some s') :
    Silent s s' ∧ s'.budget < s.budget := by
  have hle' := (hs.step hst).pending_le
  cases step_effect hst with
  | begin hmodule | call hmodule | race hmodule | destroy hmodule => simp [hm] at hmodule
  | @complete x completion hlt =>
    refine ⟨⟨hm, rfl, .refl _⟩, ?_⟩
    have hlen : ({ s with handlers := s.handlers ++ [{ started := x, completion }] } :
        Lifetime).pending.length = s.pending.length + 1 := by
      simp [Lifetime.pending, Handler.pending]
    have hone := ListUpdate.weight_append (f := Handler.budget) s.handlers
      [{ started := x, completion }]
    have hfour : ListUpdate.weight Handler.budget [{ started := x, completion }] = 4 := rfl
    dsimp only [budget] at hle' ⊢
    rw [hlen] at hle' ⊢
    omega
  | lock hn hp =>
    exact ⟨⟨hm, rfl, .refl _⟩, budget_moves hn (by simp [Handler.pending, hp])
      (by simp [Handler.budget, hp])⟩
  | enter hn hp =>
    exact ⟨⟨hm, rfl, .refl _⟩, budget_moves hn (by simp [Handler.pending, hp])
      (by simp [Handler.budget, hp])⟩
  | @run n i h o impl hn hp hi hcall =>
    have hset := ListUpdate.weight_set (f := Handler.budget)
      (y := { h with phase := .finished }) hn
    have htwo : h.budget = 2 := by simp [Handler.budget, hp]
    have hone : Handler.budget { h with phase := .finished } = 1 := rfl
    have hlen := (ListUpdate.filterMap_set_none (g := Handler.pending) (b := h.started)
      (y := { h with phase := .finished }) hn (by simp [Handler.pending, hp]) rfl).length_eq
    have hh := hs.completed h (List.mem_of_getElem? hn)
    rw [deliver_of_left (hs.left hm) hi hh] at hcall
    cases hcall
    have hlt := (List.getElem?_eq_some_iff.mp hi).choose
    have herase := List.length_eraseIdx_of_lt hlt
    refine ⟨⟨hm, rfl, List.eraseIdx_sublist _ _⟩, ?_⟩
    simp only [List.length_cons] at hlen
    dsimp only [budget, Lifetime.pending, Lifetime.uses, Impl.without] at hlen ⊢
    omega
  | @gone n i h hn hp hi =>
    have hweight := ListUpdate.weight_eraseIdx (f := Handler.budget) hn
    have hfour : h.budget = 4 := by simp [Handler.budget, hp]
    have hlen := (ListUpdate.filterMap_eraseIdx_perm (g := Handler.pending) (b := h.started) hn
      (by simp [Handler.pending, hp])).length_eq
    have hlt := (List.getElem?_eq_some_iff.mp hi).choose
    have herase := List.length_eraseIdx_of_lt hlt
    refine ⟨⟨hm, rfl, List.eraseIdx_sublist _ _⟩, ?_⟩
    simp only [List.length_cons] at hlen
    dsimp only [budget, Lifetime.pending, Impl.without] at hlen ⊢
    omega
  | @release n h hn hp =>
    have hweight := ListUpdate.weight_eraseIdx (f := Handler.budget) hn
    have hone : h.budget = 1 := by simp [Handler.budget, hp]
    have hpending : (s.handlers.eraseIdx n).filterMap Handler.pending = s.pending :=
      ListUpdate.filterMap_eraseIdx_none hn (by simp [Handler.pending, hp])
    refine ⟨⟨hm, rfl, .refl _⟩, ?_⟩
    dsimp only [budget, Lifetime.pending] at hpending ⊢
    rw [hpending]
    omega

/-- Nothing that was started is left, and `impl` has been destroyed. -/
structure AtRest (s : Lifetime) : Prop where
  operations : s.impl.operations = []
  handlers : s.handlers = []
  useCount : s.useCount = 0

/-- A handler that has been called finds its operation. -/
theorem Inv.handlerOf {sslSupport : Bool} {s : Lifetime} (hs : s.Inv sslSupport) {h : Handler}
    (hh : h ∈ s.handlers) (hpending : h.pending = some h.started) :
    ∃ i : Nat, s.impl.operations[i]? = some h.started := by
  obtain ⟨waiting, hwaiting⟩ := hs.called
  have hmem : h.started ∈ s.pending := List.mem_filterMap.mpr ⟨h, hh, hpending⟩
  exact List.mem_iff_getElem?.mp (hwaiting.mem_iff.mpr (List.mem_append_left _ hmem))

/-- When the module is gone and nothing can go on, no handler has the mutex. -/
theorem Inv.outside {sslSupport : Bool} {s : Lifetime} (hs : s.Inv sslSupport)
    (hm : s.module = false) (hrest : ∀ a, s.step sslSupport a = none) :
    ∀ h ∈ s.handlers, h.phase ≠ .inside := by
  intro h hmem hp
  obtain ⟨n, hn⟩ := List.mem_iff_getElem?.mp hmem
  obtain ⟨i, hi⟩ := hs.handlerOf hmem (by simp [Handler.pending, hp])
  have hrun : s.impl.step sslSupport (.deliver i h.completion) =
      some (.returned, s.impl.without i) :=
    deliver_of_left (hs.left hm) hi (hs.completed h hmem)
  have hnone := hrest (.run n i)
  simp [Lifetime.step, Lifetime.handlerOf, hn, hp, hi, hrun] at hnone

theorem Inv.atRest {sslSupport : Bool} {s : Lifetime} (hs : s.Inv sslSupport)
    (hm : s.module = false) (hrest : ∀ a, s.step sslSupport a = none) : s.AtRest := by
  have houtside := hs.outside hm hrest
  have hfree : s.sections = 0 := by
    have hcalling : s.calling = false := by
      cases hcalling : s.calling with
      | false => rfl
      | true => rw [hs.calling hcalling] at hm; cases hm
    have hnone : ListUpdate.weight Handler.owns s.handlers = 0 :=
      ListUpdate.weight_eq_zero fun h hmem => by
        cases hp : h.phase with
        | inside => exact absurd hp (houtside h hmem)
        | _ => simp [Handler.owns, hp]
    rw [sections, hcalling, hnone]
    rfl
  have hhandlers : s.handlers = [] := by
    cases hhs : s.handlers with
    | nil => rfl
    | cons h handlers =>
      have hmem : h ∈ s.handlers := hhs ▸ List.mem_cons_self
      cases hp : h.phase with
      | called =>
        obtain ⟨i, hi⟩ := hs.handlerOf hmem (by simp [Handler.pending, hp])
        by_cases hzero : s.useCount = 0
        · have hnone := hrest (.gone 0 i)
          simp [Lifetime.step, Lifetime.handlerOf, hhs, hp, hi, hzero] at hnone
        · have hnone := hrest (.lock 0)
          simp [Lifetime.step, hhs, hp, hzero] at hnone
      | locked =>
        have hnone := hrest (.enter 0)
        simp [Lifetime.step, hfree, hhs, hp] at hnone
      | inside => exact absurd hp (houtside h hmem)
      | finished =>
        have hnone := hrest (.release 0)
        simp [Lifetime.step, hhs, hp] at hnone
  have hoperations : s.impl.operations = [] := by
    cases hops : s.impl.operations with
    | nil => rfl
    | cons x operations =>
      have hfails : (x.operation.complete (.failed ⟨0, ""⟩)).isSome = true := by
        cases x.operation <;> rfl
      have hnone := hrest (.complete x (.failed ⟨0, ""⟩))
      simp [Lifetime.step, Lifetime.pending, hhandlers, hops, hfails] at hnone
  refine ⟨hoperations, hhandlers, ?_⟩
  rw [hs.count, hm, hhandlers]
  rfl

/-- **Nothing that is used is gone.** In every run of a module, its destructor and its handlers, in
which the handlers wait for the mutex and `send_raw` does not: at most one section has the mutex,
and as long as no call of `send_raw` overlaps, `impl` goes through states of the connection. In
every run, no handler and no function of the module uses `impl` after it was destroyed, and none
makes an event after the module was destroyed; `impl` exists exactly as long as the module or a
handler that has locked it; and when the module is gone, nothing is put on the main queue and
nothing is started any more, whatever the handlers that are still to come report. -/
theorem no_dangling {sslSupport : Bool} {s : Lifetime} (h : (machine sslSupport).Reaches {} s) :
    s.sections ≤ 1 ∧
    (s.raced = false → (Connection.machine sslSupport).Reaches {} s.impl) ∧
    s.dangling = false ∧
    (s.useCount = 0 ↔ s.module = false ∧ ∀ x ∈ s.handlers, x.phase = .called) ∧
    (s.module = false → ∀ as os s', (machine sslSupport).run s as = some (os, s') →
      s'.module = false ∧ s'.impl.emitted = s.impl.emitted ∧
        s'.impl.operations.Sublist s.impl.operations) := by
  have hs := inv_of_reaches h
  refine ⟨hs.exclusive, hs.impl, hs.safe, ?_, fun hm as os s' hrun => ?_⟩
  · have hcount := hs.count
    constructor
    · intro hzero
      have hm : s.module = false := by
        cases hm : s.module with
        | false => rfl
        | true => exact absurd hzero (Nat.ne_of_gt (hs.owned hm))
      refine ⟨hm, fun x hx => ?_⟩
      by_contra hp
      obtain ⟨n, hn⟩ := List.mem_iff_getElem?.mp hx
      exact absurd hzero (Nat.ne_of_gt (hs.held hn hp))
    · rintro ⟨hm, hcalled⟩
      have hnone : ListUpdate.weight Handler.holds s.handlers = 0 :=
        ListUpdate.weight_eq_zero fun x hx => by simp [Handler.holds, hcalled x hx]
      rw [hcount, hm, hnone]
      rfl
  · have hgone := Machine.run_inv (M := machine sslSupport)
      (P := fun t : Lifetime => t.Inv sslSupport ∧ Silent s t) (fun t a o t' ht hst => ?_)
      ⟨hs, Silent.refl hm⟩ hrun
    · exact ⟨hgone.2.module, hgone.2.emitted, hgone.2.operations⟩
    · obtain ⟨u, hu, he⟩ := Option.map_eq_some_iff.mp hst
      cases he
      exact ⟨ht.1.step hu, ht.2.trans (ht.1.silent ht.2.module hu).1⟩

/-- **`impl` is destroyed.** Once the module is gone, the handlers of what was started make at most
`budget` steps in all, in whatever order they are called; when none of them can go on, none is left,
and `impl` has been destroyed. -/
theorem impl_destroyed {sslSupport : Bool} {s : Lifetime} (h : (machine sslSupport).Reaches {} s)
    (hm : s.module = false) :
    (∀ as os s', (machine sslSupport).run s as = some (os, s') → as.length ≤ s.budget ∧
      ((∀ a, s'.step sslSupport a = none) → s'.AtRest)) ∧
    ∃ as os s', (machine sslSupport).run s as = some (os, s') ∧ s'.AtRest := by
  have hs := inv_of_reaches h
  let gone (t : Lifetime) : Prop := t.Inv sslSupport ∧ t.module = false
  have hlower : ∀ t a (o : Unit) t', gone t → True →
      (machine sslSupport).step t a = some (o, t') → gone t' ∧ t'.budget < t.budget := by
    rintro t a o t' ⟨ht, hm⟩ - hst
    obtain ⟨u, hu, he⟩ := Option.map_eq_some_iff.mp hst
    cases he
    obtain ⟨hsilent, hlt⟩ := ht.silent hm hu
    exact ⟨⟨ht.step hu, hsilent.module⟩, hlt⟩
  constructor
  · intro as os s' hrun
    have hle := Machine.run_length_le hlower ⟨hs, hm⟩ (fun _ _ => trivial) hrun
    have hgone : gone s' := Machine.run_inv (M := machine sslSupport) (P := gone)
      (fun t a o t' ht hst => (hlower t a o t' ht trivial hst).1) ⟨hs, hm⟩ hrun
    exact ⟨by omega, fun hrest => hgone.1.atRest hgone.2 hrest⟩
  · obtain ⟨as, os, s', -, hrun, hgone, hlast⟩ :=
      Machine.exists_run_to_rest (G := fun _ => True) hlower ⟨hs, hm⟩
    refine ⟨as, os, s', hrun, hgone.1.atRest hgone.2 fun a => ?_⟩
    exact Option.map_eq_none_iff.mp (hlast a trivial)

/-- The module is destroyed while a handler of its connection ends, and another operation is
outstanding. -/
def destroyedEarly : List LifetimeStep :=
  [.begin, .call (.setEndpoint ['h'] 0), .begin, .call .connect,
    .complete ⟨some 1, .resolve ['h'] ['6', '6', '6', '7']⟩ (.resolved [⟨['a'], 1⟩]), .lock 0,
    .enter 0, .run 0 0, .destroy]

def afterDestroyedEarly : Lifetime where
  impl :=
    { hostname := ['h']
      socket := some {}
      emitted := [stateEvent .connecting, stateEvent .disconnecting, stateEvent .disconnected]
      operations := [⟨some 1, .connect ⟨['a'], 1⟩⟩]
      attempts := 1 }
  module := false
  handlers :=
    [{ started := ⟨some 1, .resolve ['h'] ['6', '6', '6', '7']⟩
       completion := .resolved [⟨['a'], 1⟩]
       phase := .finished }]

theorem destroyedEarly_reached : (machine true).Reaches {} afterDestroyedEarly :=
  ⟨destroyedEarly, List.replicate 9 (), by decide +kernel⟩

theorem no_dangling_destroyedEarly : ¬∀ x ∈ afterDestroyedEarly.handlers, x.phase = .called :=
  fun hcalled => by cases (no_dangling destroyedEarly_reached).2.2.2.1.mpr ⟨rfl, hcalled⟩

theorem impl_destroyed_destroyedEarly :
    ∃ as os s', (machine true).run afterDestroyedEarly as = some (os, s') ∧ s'.AtRest :=
  (impl_destroyed destroyedEarly_reached rfl).2

end Lifetime

end Slirc.Connection
