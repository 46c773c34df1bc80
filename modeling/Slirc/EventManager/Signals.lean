import Slirc.EventManager.Handle
import Slirc.Lib.Groups
import Slirc.Lib.Machine
import Mathlib.Data.Int.Order.Basic
import Mathlib.Data.List.Nodup

/-!
# Connecting handlers (`src/modules/event_manager.cpp`)

`connect` puts a handler into the signal of an event id, in the group of its priority; a dispatch
calls the signal of the current id.

* `Signals2`: what is used of `boost::signals2`, as a parameter, and `Signals2.Lawful`: what its
  documentation says of it. Groups are called in ascending order, and a slot that is connected
  without a position goes to the back of its group.
* `SignalMap`: the signals of a manager and the connections that it gave out.
* `Registry`: the handlers that are connected, in the order in which they came, and `InOrder`: the
  order of calls that the interface documents. Handlers of priority `first` come in the reverse
  order of their connection.
* `DispatchesBy`: what `handle_as` runs, against the registry.
* `dispatch_order_iff`: the code calls in this order exactly if at most one handler of priority
  `first` is connected.
-/

namespace Slirc

variable {ε κ σ χ η : Type}

/-- `event_manager::connection_priority`: a value of its underlying type. -/
structure ConnectionPriority where
  value : Int
  deriving DecidableEq, Repr

namespace ConnectionPriority

def first : ConnectionPriority := ⟨-1000⟩
def filter : ConnectionPriority := ⟨-800⟩
def highest : ConnectionPriority := ⟨-600⟩
def higher : ConnectionPriority := ⟨-400⟩
def high : ConnectionPriority := ⟨-200⟩
def normal : ConnectionPriority := ⟨0⟩
def low : ConnectionPriority := ⟨200⟩
def lower : ConnectionPriority := ⟨400⟩
def lowest : ConnectionPriority := ⟨600⟩
def summarize : ConnectionPriority := ⟨800⟩
def last : ConnectionPriority := ⟨1000⟩

theorem ext {p q : ConnectionPriority} (h : p.value = q.value) : p = q := by
  cases p
  cases q
  cases h
  rfl

end ConnectionPriority

/-- A slot of a signal with its connection. -/
structure Slot (χ η : Type) where
  conn : χ
  group : Int
  handler : η
  deriving DecidableEq, Repr

/-- `boost::signals2::signal` and `boost::signals2::connection`, as far as they are used. -/
structure Signals2 (σ χ η : Type) where
  /-- A new signal. -/
  empty : σ
  /-- `signal::connect(group, slot)` -/
  connect : σ → Int → η → σ × χ
  /-- `connection::disconnect` -/
  disconnect : σ → χ → σ
  /-- The slots in the order in which `signal::operator()` calls them. -/
  slots : σ → List (Slot χ η)

/-- The documented behaviour. -/
structure Signals2.Lawful [DecidableEq χ] (B : Signals2 σ χ η) : Prop where
  empty : B.slots B.empty = []
  ascending : ∀ s, (B.slots s).Pairwise (·.group ≤ ·.group)
  fresh : ∀ s g h, ∀ x ∈ B.slots s, x.conn ≠ (B.connect s g h).2
  /-- `connect_position` is `at_back` by default. -/
  at_back : ∀ s g h, (B.slots (B.connect s g h).1).filter (·.group = g) =
    (B.slots s).filter (·.group = g) ++ [⟨(B.connect s g h).2, g, h⟩]
  others : ∀ s g h g', g ≠ g' →
    (B.slots (B.connect s g h).1).filter (·.group = g') = (B.slots s).filter (·.group = g')
  disconnect : ∀ s c, B.slots (B.disconnect s c) = (B.slots s).filter (·.conn ≠ c)

/-- The laws of `connect` in one equation. -/
theorem Signals2.Lawful.connect [DecidableEq χ] {B : Signals2 σ χ η} (hB : B.Lawful) (s : σ)
    (g : Int) (h : η) :
    B.slots (B.connect s g h).1 =
      Groups.insertBehind Slot.group ⟨(B.connect s g h).2, g, h⟩ (B.slots s) := by
  refine Groups.eq_insertBehind (hB.ascending s) (hB.ascending _) fun g' => ?_
  by_cases hg : g = g'
  · subst hg
    simpa using hB.at_back s g h
  · simpa [hg] using hB.others s g h g' hg

/-- The signals of a manager, and the connections that `connect` returned. A connection that was
disconnected belongs to no handler. -/
structure SignalMap (σ χ : Type) where
  signals : IdType → σ
  connections : List (Option (IdType × χ))

/-- A call of `connect`, or of `disconnect` on the connection that the `n`th `connect` returned. -/
inductive SignalOp (η : Type) where
  | connect (eventId : IdType) (handler : η) (priority : ConnectionPriority)
  | disconnect (n : Nat)
  deriving DecidableEq, Repr

namespace SignalMap

variable (B : Signals2 σ χ η)

def init : SignalMap σ χ := ⟨fun _ => B.empty, []⟩

/-- `event_manager::connect` -/
def connect (m : SignalMap σ χ) (eventId : IdType) (handler : η) (priority : ConnectionPriority) :
    SignalMap σ χ :=
  let r := B.connect (m.signals eventId) priority.value handler
  { signals := Function.update m.signals eventId r.1,
    connections := m.connections ++ [some (eventId, r.2)] }

/-- `connection::disconnect` -/
def disconnect (m : SignalMap σ χ) (n : Nat) : SignalMap σ χ :=
  match m.connections[n]? with
  | some (some (eventId, c)) =>
    { signals := Function.update m.signals eventId (B.disconnect (m.signals eventId) c),
      connections := m.connections.set n none }
  | _ => m

/-- `event_manager::handle_as`: calls the signal of `current_id`. -/
def handleAs (m : SignalMap σ χ) (run : η → ε → Exec ε κ Unit) (id : IdType) (e : ε) :
    Exec ε κ Unit :=
  (B.slots (m.signals id)).forM fun s => run s.handler e

def machine : Machine (SignalMap σ χ) (SignalOp η) Unit where
  step m
    | .connect eventId handler priority => some ((), m.connect B eventId handler priority)
    | .disconnect n => some ((), m.disconnect B n)

end SignalMap

/-! ## The documented order -/

/-- A handler that is connected. `serial` counts the calls of `connect` before its own. -/
structure Registration (η : Type) where
  serial : Nat
  id : IdType
  priority : ConnectionPriority
  handler : η
  deriving DecidableEq, Repr

/-- The handlers that are connected, in the order in which they came. -/
structure Registry (η : Type) where
  live : List (Registration η) := []
  count : Nat := 0

namespace Registry

def connect (r : Registry η) (id : IdType) (handler : η) (priority : ConnectionPriority) :
    Registry η :=
  ⟨r.live ++ [⟨r.count, id, priority, handler⟩], r.count + 1⟩

def disconnect (r : Registry η) (n : Nat) : Registry η :=
  { r with live := r.live.filter (·.serial ≠ n) }

def machine : Machine (Registry η) (SignalOp η) Unit where
  step r
    | .connect id handler priority => some ((), r.connect id handler priority)
    | .disconnect n => some ((), r.disconnect n)

/-- The handlers of an id. -/
def onId (r : Registry η) (id : IdType) : List (Registration η) := r.live.filter (·.id = id)

end Registry

namespace Registration

/-- The order of connection within a priority. -/
def Before (x y : Registration η) : Prop :=
  x.priority.value < y.priority.value ∨ x.priority = y.priority ∧ x.serial < y.serial

/-- The documented order: handlers of priority `first` are called last come, first served. -/
def DocumentedBefore (x y : Registration η) : Prop :=
  x.priority.value < y.priority.value ∨ x.priority = y.priority ∧
    if x.priority = .first then y.serial < x.serial else x.serial < y.serial

end Registration

section Dispatch

variable (B : Signals2 σ χ η)

/-- The slot is that of the registered handler. -/
structure Serves (m : SignalMap σ χ) (r : Registry η) (id : IdType) (s : Slot χ η)
    (x : Registration η) : Prop where
  live : x ∈ r.live
  connection : m.connections[x.serial]? = some (some (id, s.conn))
  group : s.group = x.priority.value
  handler : s.handler = x.handler

/-- A dispatch of `id` calls the handlers `called`, in order. -/
def Dispatches (m : SignalMap σ χ) (r : Registry η) (id : IdType) (called : List (Registration η)) :
    Prop :=
  List.Forall₂ (Serves m r id) (B.slots (m.signals id)) called

/-- `handle_as` runs the handlers `called`, one after the other, whatever they do. -/
def Runs (m : SignalMap σ χ) (id : IdType) (called : List (Registration η)) : Prop :=
  ∀ (ε κ : Type) (run : η → ε → Exec ε κ Unit) (e : ε),
    m.handleAs B run id e = called.forM fun x => run x.handler e

/-- A dispatch of `id` calls the handlers of `id`, each once, in the order `before`. -/
def DispatchesBy (before : Registration η → Registration η → Prop) (m : SignalMap σ χ)
    (r : Registry η) (id : IdType) : Prop :=
  ∃ called, Dispatches B m r id called ∧ Runs B m id called ∧ called.Perm (r.onId id) ∧
    called.Pairwise before

variable {B}

/-- What a dispatch runs. -/
theorem Dispatches.runs {m : SignalMap σ χ} {r : Registry η} {id : IdType}
    {called : List (Registration η)} (h : Dispatches B m r id called) : Runs B m id called := by
  intro ε κ run e
  unfold SignalMap.handleAs
  unfold Dispatches at h
  generalize B.slots (m.signals id) = slots at h
  induction h with
  | nil => rfl
  | cons hx _ ih =>
    show (run _ e >>= fun _ => _) = (run _ e >>= fun _ => _)
    rw [hx.handler]
    exact bind_congr fun _ => ih

variable (B) in
/-- The manager and the registry after the same calls. -/
structure Tracks (m : SignalMap σ χ) (r : Registry η) : Prop where
  length : m.connections.length = r.count
  serial_lt : ∀ x ∈ r.live, x.serial < r.count
  ascending : r.live.Pairwise (·.serial < ·.serial)
  /-- A connection belongs to one slot, and connections to different ones. -/
  attached : ∀ (n : Nat) id c, m.connections[n]? = some (some (id, c)) →
    ∃ s ∈ B.slots (m.signals id), s.conn = c
  unique : ∀ (n n' : Nat) id c, m.connections[n]? = some (some (id, c)) →
    m.connections[n']? = some (some (id, c)) → n = n'
  order : ∀ id, DispatchesBy B Registration.Before m r id

variable {m : SignalMap σ χ} {r : Registry η} [DecidableEq χ]

theorem Tracks.init (hB : B.Lawful) : Tracks B (SignalMap.init B) {} := by
  refine ⟨rfl, by simp, .nil, by simp [SignalMap.init], by simp [SignalMap.init], fun id => ?_⟩
  have hd : Dispatches B (SignalMap.init B) {} id [] := by
    rw [Dispatches, SignalMap.init, hB.empty]
    exact .nil
  exact ⟨[], hd, hd.runs, .nil, .nil⟩

omit [DecidableEq χ] in
/-- Every connected handler has its slot. -/
theorem Tracks.served (h : Tracks B m r) {x : Registration η} (hx : x ∈ r.live) :
    ∃ s, Serves m r x.id s x := by
  obtain ⟨called, hd, -, hp, -⟩ := h.order x.id
  have hmem : x ∈ called := hp.mem_iff.mpr (List.mem_filter.mpr ⟨hx, by simp⟩)
  unfold Dispatches at hd
  clear hp
  generalize B.slots (m.signals x.id) = slots at hd
  induction hd with
  | nil => cases hmem
  | cons hy _ ih =>
    rcases List.mem_cons.mp hmem with rfl | hmem
    · exact ⟨_, hy⟩
    · exact ih hmem

/-! ## One call -/

omit [DecidableEq χ] in
theorem Serves.connect {id id' : IdType} {s : Slot χ η} {x : Registration η} {handler : η}
    {priority : ConnectionPriority} (h : Serves m r id' s x) :
    Serves (m.connect B id handler priority) (r.connect id handler priority) id' s x where
  live := List.mem_append_left _ h.live
  connection := by
    have hlt := (List.getElem?_eq_some_iff.mp h.connection).1
    rw [SignalMap.connect, List.getElem?_append_left hlt]
    exact h.connection
  group := h.group
  handler := h.handler

/-- The slots of the id that is connected to. -/
theorem SignalMap.connect_slots (hB : B.Lawful) (m : SignalMap σ χ) (id : IdType) (handler : η)
    (priority : ConnectionPriority) :
    B.slots ((m.connect B id handler priority).signals id) =
      Groups.insertBehind Slot.group
        ⟨(B.connect (m.signals id) priority.value handler).2, priority.value, handler⟩
        (B.slots (m.signals id)) := by
  rw [SignalMap.connect]
  simpa using hB.connect (m.signals id) priority.value handler

/-- The order of a dispatch after `connect`. -/
theorem DispatchesBy.connect (hB : B.Lawful) (h : Tracks B m r) (id id' : IdType) (handler : η)
    (priority : ConnectionPriority) :
    DispatchesBy B Registration.Before (m.connect B id handler priority)
      (r.connect id handler priority) id' := by
  obtain ⟨called, hd, -, hp, hbefore⟩ := h.order id'
  have hkept : Dispatches B m r id' called → List.Forall₂
      (Serves (m.connect B id handler priority) (r.connect id handler priority) id')
      (B.slots (m.signals id')) called := List.Forall₂.imp fun _ _ hs => hs.connect
  by_cases hid : id' = id
  · subst hid
    let x : Registration η := ⟨r.count, id', priority, handler⟩
    let c := (B.connect (m.signals id') priority.value handler).2
    have hcalls : Dispatches B (m.connect B id' handler priority)
        (r.connect id' handler priority) id'
        (Groups.insertBehind (·.priority.value) x called) := by
      have hnew : Serves (m.connect B id' handler priority) (r.connect id' handler priority) id'
          ⟨c, priority.value, handler⟩ x := by
        refine ⟨by simp [Registry.connect, x], ?_, rfl, rfl⟩
        rw [SignalMap.connect, List.getElem?_append_right (by simp [x, h.length])]
        simp [x, h.length, c]
      rw [Dispatches, m.connect_slots hB]
      exact Groups.forall₂_insertBehind (fun _ _ hs => hs.group) (hkept hd) hnew
    refine ⟨Groups.insertBehind (·.priority.value) x called, hcalls, hcalls.runs, ?_, ?_⟩
    · refine (Groups.insertBehind_perm _ x called).trans ?_
      have honId : (r.connect id' handler priority).onId id' = r.onId id' ++ [x] := by
        simp [Registry.onId, Registry.connect, x]
      rw [honId]
      exact (hp.cons x).trans (List.perm_append_singleton x _).symm
    · refine Groups.insertBehind_pairwise (fun _ _ => .inl) hbefore fun y hy hval => .inr ⟨?_, ?_⟩
      · exact ConnectionPriority.ext hval
      · exact h.serial_lt y (List.mem_filter.mp (hp.mem_iff.mp hy)).1
  · have hcalls : Dispatches B (m.connect B id handler priority) (r.connect id handler priority)
        id' called := by
      have hsame : (m.connect B id handler priority).signals id' = m.signals id' := by
        simp [SignalMap.connect, hid]
      rw [Dispatches, hsame]
      exact hkept hd
    refine ⟨called, hcalls, hcalls.runs, ?_, hbefore⟩
    have honId : (r.connect id handler priority).onId id' = r.onId id' := by
      simp [Registry.onId, Registry.connect, Ne.symm hid]
    rw [honId]
    exact hp

theorem Tracks.connect (hB : B.Lawful) (h : Tracks B m r) (id : IdType) (handler : η)
    (priority : ConnectionPriority) :
    Tracks B (m.connect B id handler priority) (r.connect id handler priority) := by
  let c := (B.connect (m.signals id) priority.value handler).2
  -- a connection of the new list is an old one or the new one
  have hcases : ∀ (n : Nat) id' c', (m.connect B id handler priority).connections[n]? =
      some (some (id', c')) → m.connections[n]? = some (some (id', c')) ∨
        n = m.connections.length ∧ id' = id ∧ c' = c := by
    intro n id' c' hn
    rw [SignalMap.connect, List.getElem?_append] at hn
    split at hn
    · exact .inl hn
    · rename_i hlt
      obtain ⟨hlen, hval⟩ := List.getElem?_eq_some_iff.mp hn
      have hzero : n - m.connections.length = 0 := by simpa using hlen
      simp only [hzero, List.getElem_cons_zero, Option.some.injEq, Prod.mk.injEq] at hval
      exact .inr ⟨by omega, hval.1.symm, hval.2.symm⟩
  have hslots := m.connect_slots hB id handler priority
  have hmem := fun s => (Groups.insertBehind_perm Slot.group
    (⟨c, priority.value, handler⟩ : Slot χ η) (B.slots (m.signals id))).mem_iff (a := s)
  refine ⟨by simp [SignalMap.connect, Registry.connect, h.length], fun x hx => ?_, ?_,
    fun n id' c' hn => ?_, fun n n' id' c' hn hn' => ?_,
    fun id' => DispatchesBy.connect hB h id id' handler priority⟩
  · rcases List.mem_append.mp hx with hx | hx
    · exact Nat.lt_succ_of_lt (h.serial_lt x hx)
    · rw [List.mem_singleton.mp hx]
      exact Nat.lt_succ_self _
  · refine List.pairwise_append.mpr ⟨h.ascending, List.pairwise_singleton _ _, fun x hx y hy => ?_⟩
    rw [List.mem_singleton.mp hy]
    exact h.serial_lt x hx
  · rcases hcases n id' c' hn with hold | ⟨-, rfl, rfl⟩
    · obtain ⟨s, hs, hc⟩ := h.attached n id' c' hold
      by_cases hid : id' = id
      · subst hid
        exact ⟨s, by rw [hslots, hmem]; exact List.mem_cons_of_mem _ hs, hc⟩
      · exact ⟨s, by simpa [SignalMap.connect, hid] using hs, hc⟩
    · exact ⟨_, by rw [hslots, hmem]; exact List.mem_cons_self, rfl⟩
  · -- the new connection differs from those that have slots already
    have hfresh : ∀ k : Nat, m.connections[k]? ≠ some (some (id, c)) := by
      intro k hk
      obtain ⟨s, hs, hc⟩ := h.attached k id c hk
      exact hB.fresh _ _ _ s hs hc
    rcases hcases n id' c' hn with hold | ⟨hlast, rfl, rfl⟩
    · rcases hcases n' id' c' hn' with hold' | ⟨-, rfl, rfl⟩
      · exact h.unique n n' id' c' hold hold'
      · exact absurd hold (hfresh n)
    · rcases hcases n' _ _ hn' with hold' | ⟨hlast', -, -⟩
      · exact absurd hold' (hfresh n')
      · rw [hlast, hlast']

omit [DecidableEq χ] in
theorem SignalMap.disconnect_attached {n : Nat} {id : IdType} {c : χ}
    (hn : m.connections[n]? = some (some (id, c))) :
    m.disconnect B n =
      { signals := Function.update m.signals id (B.disconnect (m.signals id) c),
        connections := m.connections.set n none } := by
  simp [SignalMap.disconnect, hn]

omit [DecidableEq χ] in
/-- A connection that belongs to no handler. -/
theorem SignalMap.disconnect_detached {n : Nat}
    (hn : ∀ id c, m.connections[n]? ≠ some (some (id, c))) : m.disconnect B n = m := by
  unfold SignalMap.disconnect
  split
  · rename_i id c h
    exact absurd h (hn id c)
  · rfl

omit [DecidableEq χ] in
theorem Serves.disconnect {n : Nat} {id id' : IdType} {c : χ} {s : Slot χ η} {x : Registration η}
    (hn : m.connections[n]? = some (some (id, c))) (h : Serves m r id' s x) (hx : x.serial ≠ n) :
    Serves (m.disconnect B n) (r.disconnect n) id' s x where
  live := List.mem_filter.mpr ⟨h.live, by simpa using hx⟩
  connection := by
    rw [SignalMap.disconnect_attached hn, List.getElem?_set_ne (Ne.symm hx)]
    exact h.connection
  group := h.group
  handler := h.handler

omit [DecidableEq χ] in
/-- The slot that a connection belongs to serves the handler it was made for. -/
theorem Serves.of_serial {n : Nat} {id id' : IdType} {c : χ} {s : Slot χ η} {x : Registration η}
    (hn : m.connections[n]? = some (some (id, c))) (h : Serves m r id' s x) (hx : x.serial = n) :
    id' = id ∧ s.conn = c := by
  have hconn := h.connection
  rw [hx, hn] at hconn
  cases hconn
  exact ⟨rfl, rfl⟩

omit [DecidableEq χ] in
/-- The handlers of an id without the one that is disconnected. -/
theorem Registry.onId_disconnect (r : Registry η) (n : Nat) (id : IdType) :
    (r.disconnect n).onId id = (r.onId id).filter (·.serial ≠ n) := by
  simp only [Registry.onId, Registry.disconnect, List.filter_filter]
  exact List.filter_congr fun x _ => Bool.and_comm _ _

/-- The order of a dispatch after `disconnect`. -/
theorem DispatchesBy.disconnect (hB : B.Lawful) (h : Tracks B m r) {n : Nat} {id : IdType} {c : χ}
    (hn : m.connections[n]? = some (some (id, c))) (id' : IdType) :
    DispatchesBy B Registration.Before (m.disconnect B n) (r.disconnect n) id' := by
  obtain ⟨called, hd, -, hp, hbefore⟩ := h.order id'
  by_cases hid : id' = id
  · subst hid
    have hiff : ∀ s x, Serves m r id' s x → (s.conn ≠ c ↔ x.serial ≠ n) := by
      intro s x hs
      refine not_congr ⟨fun hc => ?_, fun hx => (hs.of_serial hn hx).2⟩
      exact h.unique _ n id' c (hc ▸ hs.connection) hn
    have hfilter : List.Forall₂ (Serves m r id') ((B.slots (m.signals id')).filter (·.conn ≠ c))
        (called.filter (·.serial ≠ n)) :=
      List.rel_filter (fun {s x} hs => by simpa using hiff s x hs) hd
    have hconn : ∀ s ∈ (B.slots (m.signals id')).filter (·.conn ≠ c), s.conn ≠ c := fun s hs =>
      of_decide_eq_true (List.mem_filter.mp hs).2
    have hcalls : Dispatches B (m.disconnect B n) (r.disconnect n) id'
        (called.filter (·.serial ≠ n)) := by
      have hslots : B.slots ((m.disconnect B n).signals id') =
          (B.slots (m.signals id')).filter (·.conn ≠ c) := by
        rw [SignalMap.disconnect_attached hn]
        simpa using hB.disconnect (m.signals id') c
      rw [Dispatches, hslots]
      refine ((List.forall₂_and_left _ _).mpr ⟨hconn, hfilter⟩).imp fun s x hs => ?_
      exact hs.2.disconnect hn ((hiff s x hs.2).mp hs.1)
    refine ⟨called.filter (·.serial ≠ n), hcalls, hcalls.runs, ?_, hbefore.filter _⟩
    rw [Registry.onId_disconnect]
    exact hp.filter _
  · have hne : ∀ s x, Serves m r id' s x → x.serial ≠ n := by
      intro s x hs hx
      have hconn := hs.connection
      rw [hx, hn] at hconn
      cases hconn
      exact hid rfl
    have hcalls : Dispatches B (m.disconnect B n) (r.disconnect n) id' called := by
      have hsame : (m.disconnect B n).signals id' = m.signals id' := by
        rw [SignalMap.disconnect_attached hn]
        simp [hid]
      rw [Dispatches, hsame]
      exact hd.imp fun s x hs => hs.disconnect hn (hne s x hs)
    refine ⟨called, hcalls, hcalls.runs, ?_, hbefore⟩
    rw [Registry.onId_disconnect, List.filter_eq_self.mpr]
    · exact hp
    · intro x hx
      obtain ⟨hlive, hxid⟩ := List.mem_filter.mp hx
      obtain ⟨s, hs⟩ := h.served hlive
      have hxid : x.id = id' := of_decide_eq_true hxid
      rw [hxid] at hs
      exact decide_eq_true (hne s x hs)

theorem Tracks.disconnect (hB : B.Lawful) (h : Tracks B m r) (n : Nat) :
    Tracks B (m.disconnect B n) (r.disconnect n) := by
  by_cases hn : ∃ id c, m.connections[n]? = some (some (id, c))
  · obtain ⟨id, c, hn⟩ := hn
    have hold : ∀ (k : Nat) id' c', (m.disconnect B n).connections[k]? = some (some (id', c')) →
        k ≠ n ∧ m.connections[k]? = some (some (id', c')) := by
      intro k id' c' hk
      rw [SignalMap.disconnect_attached hn] at hk
      have hkn : k ≠ n := by
        rintro rfl
        rw [List.getElem?_set_self (List.getElem?_eq_some_iff.mp hn).1] at hk
        cases hk
      exact ⟨hkn, by rwa [List.getElem?_set_ne hkn.symm] at hk⟩
    refine ⟨?_, fun x hx => h.serial_lt x (List.mem_filter.mp hx).1, h.ascending.filter _,
      fun k id' c' hk => ?_, fun k k' id' c' hk hk' => ?_,
      fun id' => DispatchesBy.disconnect hB h hn id'⟩
    · rw [SignalMap.disconnect_attached hn, List.length_set]
      exact h.length
    · obtain ⟨hkn, hk⟩ := hold k id' c' hk
      obtain ⟨s, hs, hc⟩ := h.attached k id' c' hk
      refine ⟨s, ?_, hc⟩
      rw [SignalMap.disconnect_attached hn]
      by_cases hid : id' = id
      · subst hid
        have hne : s.conn ≠ c := by
          rintro rfl
          exact hkn (h.unique k n id' _ (hc ▸ hk) hn)
        simpa [hB.disconnect, hne] using hs
      · simpa [hid] using hs
    · exact h.unique k k' id' c' (hold k id' c' hk).2 (hold k' id' c' hk').2
  · have hdetached : ∀ id c, m.connections[n]? ≠ some (some (id, c)) := fun id c hc =>
      hn ⟨id, c, hc⟩
    have hsame : r.disconnect n = r := by
      unfold Registry.disconnect
      rw [List.filter_eq_self.mpr]
      intro x hx
      obtain ⟨s, hs⟩ := h.served hx
      refine decide_eq_true fun hxn => hdetached x.id s.conn ?_
      rw [← hxn]
      exact hs.connection
    rw [SignalMap.disconnect_detached hdetached, hsame]
    exact h

/-- **The manager follows the registry.** -/
theorem SignalMap.simulates (hB : B.Lawful) :
    (SignalMap.machine B).Simulates Registry.machine (Tracks B) := by
  intro m r op h
  cases op with
  | connect id handler priority => exact ⟨(), _, _, rfl, rfl, h.connect hB id handler priority⟩
  | disconnect n => exact ⟨(), _, _, rfl, rfl, h.disconnect hB n⟩

/-! ## The order of a dispatch -/

omit [DecidableEq χ] in
/-- A slot belongs to one registered handler. -/
theorem Tracks.serves_unique (h : Tracks B m r) (id : IdType) :
    Relator.RightUnique (Serves m r id) := by
  intro s x y hx hy
  have hnodup : (r.live.map (·.serial)).Nodup :=
    List.pairwise_map.mpr (h.ascending.imp Nat.ne_of_lt)
  exact List.inj_on_of_nodup_map hnodup hx.live hy.live
    (h.unique _ _ _ _ hx.connection hy.connection)

/-- The handlers of priority `first` on an id. -/
def Registry.firsts (r : Registry η) (id : IdType) : List (Registration η) :=
  (r.onId id).filter (·.priority = .first)

omit [DecidableEq χ] in
/-- **The documented order holds for one handler of priority `first`, and for no more.** -/
theorem Tracks.documented_iff (h : Tracks B m r) (id : IdType) :
    DispatchesBy B Registration.DocumentedBefore m r id ↔ (r.firsts id).length ≤ 1 := by
  obtain ⟨called, hd, -, hp, hbefore⟩ := h.order id
  constructor
  · rintro ⟨called', hd', -, -, hdoc⟩
    obtain rfl : called = called' := List.right_unique_forall₂' (h.serves_unique id) hd hd'
    have hnone : (called.filter (·.priority = .first)).Pairwise fun _ _ => False := by
      refine ((hbefore.and hdoc).filter _).imp_of_mem fun {x y} hx hy hxy => ?_
      have hx : x.priority = .first := of_decide_eq_true (List.mem_filter.mp hx).2
      have hy : y.priority = .first := of_decide_eq_true (List.mem_filter.mp hy).2
      obtain ⟨hcode, hdoc⟩ := hxy
      simp only [Registration.Before, Registration.DocumentedBefore, hx, hy, if_true] at hcode hdoc
      omega
    rw [Registry.firsts, ← (hp.filter _).length_eq]
    generalize called.filter (·.priority = .first) = firsts at hnone
    cases hnone with
    | nil => exact Nat.zero_le 1
    | @cons x rest hx _ =>
      obtain rfl : rest = [] := List.eq_nil_iff_forall_not_mem.mpr hx
      exact Nat.le_refl 1
  · intro hone
    refine ⟨called, hd, hd.runs, hp, hbefore.imp_of_mem fun {x y} hx hy hxy => ?_⟩
    refine hxy.imp_right fun ⟨hprio, hserial⟩ => ⟨hprio, ?_⟩
    split
    · -- two handlers of this priority
      rename_i hfirst
      have hmem : ∀ z ∈ called, z.priority = .first → z ∈ r.firsts id := fun z hz hzf =>
        List.mem_filter.mpr ⟨hp.mem_iff.mp hz, decide_eq_true hzf⟩
      have hx := hmem x hx hfirst
      have hy := hmem y hy (hprio ▸ hfirst)
      obtain ⟨z, hz⟩ : ∃ z, r.firsts id = [z] :=
        List.length_eq_one_iff.mp (Nat.le_antisymm hone (List.length_pos_of_mem hx))
      rw [hz, List.mem_singleton] at hx hy
      rw [hx, hy] at hserial
      exact absurd hserial (Nat.lt_irrefl _)
    · exact hserial

/-- **The order of a dispatch**, after any calls of `connect` and `disconnect`: `handle_as` runs the
handlers of the id that are still connected, once each, by ascending priority and within a priority
in the order of connection. So the documented order, by which handlers of priority `first` are
called in the reverse order, holds exactly if the id has at most one handler of this priority. -/
theorem dispatch_order_iff (hB : B.Lawful) (ops : List (SignalOp η)) :
    ∃ answers m r, (SignalMap.machine B).run (SignalMap.init B) ops = some (answers, m) ∧
      Registry.machine.run {} ops = some (answers, r) ∧
      ∀ id, DispatchesBy B Registration.Before m r id ∧
        (DispatchesBy B Registration.DocumentedBefore m r id ↔ (r.firsts id).length ≤ 1) := by
  obtain ⟨answers, m, r, hm, hr, h⟩ := (SignalMap.simulates hB).run (Tracks.init hB) ops
  exact ⟨answers, m, r, hm, hr, fun id => ⟨h.order id, h.documented_iff id⟩⟩

end Dispatch

/-! ## An implementation -/

/-- The slots of a signal as a list; connections are numbers. -/
structure ListSignal (η : Type) where
  slots : List (Slot Nat η) := []
  next : Nat := 0
  ascending : slots.Pairwise (·.group ≤ ·.group) := by simp
  conn_lt : ∀ s ∈ slots, s.conn < next := by simp

namespace ListSignal

def connect (s : ListSignal η) (group : Int) (handler : η) : ListSignal η × Nat :=
  ({ slots := Groups.insertBehind Slot.group ⟨s.next, group, handler⟩ s.slots
     next := s.next + 1
     ascending := Groups.insertBehind_pairwise (fun _ _ => le_of_lt) s.ascending
       fun _ _ => le_of_eq
     conn_lt := fun x hx => by
       rcases List.mem_cons.mp ((Groups.insertBehind_perm _ _ _).mem_iff.mp hx) with rfl | hx
       · exact Nat.lt_succ_self _
       · exact Nat.lt_succ_of_lt (s.conn_lt x hx) },
    s.next)

def disconnect (s : ListSignal η) (c : Nat) : ListSignal η where
  slots := s.slots.filter (·.conn ≠ c)
  next := s.next
  ascending := s.ascending.filter _
  conn_lt x hx := s.conn_lt x (List.mem_filter.mp hx).1

/-- Signals as lists. -/
def signals2 : Signals2 (ListSignal η) Nat η := ⟨{}, connect, disconnect, slots⟩

theorem lawful : (signals2 (η := η)).Lawful where
  empty := rfl
  ascending := ListSignal.ascending
  fresh s _ _ x hx := Nat.ne_of_lt (s.conn_lt x hx)
  at_back s g h := by
    have hins := Groups.insertBehind_filter Slot.group ⟨s.next, g, h⟩ s.slots g
    rwa [if_pos rfl] at hins
  others s g h g' hg := by
    have hins := Groups.insertBehind_filter Slot.group ⟨s.next, g, h⟩ s.slots g'
    rwa [if_neg hg, List.append_nil] at hins
  disconnect _ _ := rfl

end ListSignal

/-- Three handlers, of which the second is disconnected, and one more. -/
def mixedOps : List (SignalOp Nat) :=
  [.connect Events.beginHandling 1 .normal, .connect Events.beginHandling 2 .first,
    .connect Events.beginHandling 3 .filter, .disconnect 1, .connect Events.beginHandling 4 .first]

theorem dispatch_order_iff_mixed :
    ∃ answers m r,
      (SignalMap.machine ListSignal.signals2).run (SignalMap.init ListSignal.signals2) mixedOps =
        some (answers, m) ∧
      Registry.machine.run {} mixedOps = some (answers, r) ∧
      ∀ id, DispatchesBy ListSignal.signals2 Registration.Before m r id ∧
        (DispatchesBy ListSignal.signals2 Registration.DocumentedBefore m r id ↔
          (r.firsts id).length ≤ 1) :=
  dispatch_order_iff ListSignal.lawful mixedOps

/-- Two handlers of priority `first`: the second one is to be called first. -/
def twoFirsts : List (SignalOp Nat) :=
  [.connect Events.beginHandling 1 .first, .connect Events.beginHandling 2 .first]

/-- The first one is run first. -/
theorem two_first_handlers :
    (ListSignal.signals2 (η := Nat)).Lawful ∧ ∃ answers m r,
      (SignalMap.machine ListSignal.signals2).run (SignalMap.init ListSignal.signals2) twoFirsts =
        some (answers, m) ∧
      Registry.machine.run {} twoFirsts = some (answers, r) ∧
      (∀ (ε κ : Type) (run : Nat → ε → Exec ε κ Unit) (e : ε),
        m.handleAs ListSignal.signals2 run Events.beginHandling e =
          [1, 2].forM fun handler => run handler e) ∧
      ¬DispatchesBy ListSignal.signals2 Registration.DocumentedBefore m r
        Events.beginHandling := by
  obtain ⟨answers, m, r, hm, hr, h⟩ :=
    (SignalMap.simulates ListSignal.lawful).run (Tracks.init ListSignal.lawful) twoFirsts
  refine ⟨ListSignal.lawful, answers, m, r, hm, hr, fun ε κ run e => ?_, fun hdoc => ?_⟩
  · cases hm
    rfl
  · have hone := (h.documented_iff Events.beginHandling).mp hdoc
    cases hr
    exact absurd hone (by decide)

end Slirc
