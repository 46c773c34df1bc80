import Slirc.Lib.Hierarchy
import Slirc.Lib.Machine
import Slirc.Lib.Program

/-!
# The modules of a context (`include/slirc/irc.hpp`, `src/irc.cpp`)

A context files each module under its API type, and keeps a pointer to the module that is filed
under `apis::event_manager`. `load` and `unload` find out by a type test whether the pointer is
concerned.

What `load` constructs is the result of the constructor: an object, or its exception. Constructors
do not load or unload modules. An assertion that fails is `IrcFault.assertion`.

`modules_coherent`: after any calls the modules are filed and the pointer is right, and the calls
return, fail and throw as documented.
-/

namespace Slirc

open Hierarchy

/-- What ends a call other than by returning. -/
inductive IrcFault where
  /-- `SLIRC_ASSERT` -/
  | assertion
  /-- `exceptions::module_conflict` -/
  | moduleConflict
  /-- `std::range_error` -/
  | rangeError (what : String)
  /-- An exception of the constructor of a module. -/
  | foreign (n : Nat)
  deriving DecidableEq, Repr

/-- The module types with the two that a context knows. -/
structure ModuleHierarchy (τ : Type) [PartialOrder τ] extends Hierarchy τ where
  /-- `apis::event_manager` -/
  apiEventManager : τ
  /-- `modules::event_manager` -/
  implEventManager : τ
  api_base : base apiEventManager = apiEventManager
  impl_le : implEventManager ≤ apiEventManager

/-- `irc`, as far as its modules are concerned. -/
structure Irc (τ ν : Type) where
  modules_ : Slots τ ν
  eventManager_ : Option (Object τ ν)

/-- Code that works on a context. -/
abbrev IrcM (τ ν : Type) := EStateM IrcFault (Irc τ ν)

namespace Irc

variable {τ ν : Type} [PartialOrder τ] [DecidableEq τ] (H : ModuleHierarchy τ)

/-- `irc::find_` -/
def find_ (t : τ) : IrcM τ ν (Option (Object τ ν)) := do
  return (← get).modules_.lookup (H.base t)

/-- `irc::load_` -/
def load_ (index : τ) (module : Object τ ν) : IrcM τ ν Unit := do
  -- "Must not replace an already loaded module!"
  if ((← get).modules_.lookup index).isSome then
    throw .assertion
  modify fun s => { s with modules_ := s.modules_.insert index module }

/-- `irc::unload_` -/
def unload_ (index : τ) : IrcM τ ν Bool := do
  if ((← get).modules_.lookup index).isNone then
    return false
  modify fun s => { s with modules_ := s.modules_.erase index }
  return true

/-- `irc::event_manager` -/
def eventManager : IrcM τ ν (Object τ ν) := do
  match (← get).eventManager_ with
  | none => throw .assertion
  | some m => return m

variable [DecidableLE τ]

/-- `irc::load`. The type test is `std::is_base_of<apis::event_manager, Module>`. -/
def load (t : τ) (construct : Except Nat ν) : IrcM τ ν (Object τ ν) := do
  if (← find_ H t).isSome then
    throw .moduleConflict
  match construct with
  | .error n => throw (.foreign n)
  | .ok v =>
    let realmod : Object τ ν := ⟨t, v⟩
    load_ (H.base t) realmod
    if t ≤ H.apiEventManager then
      modify fun s => { s with eventManager_ := some realmod }
    return realmod

/-- `irc::unload` -/
def unload (t : τ) : IrcM τ ν Bool := do
  match ← find_ H t with
  | none => return false
  | some m =>
    if ¬m.type ≤ t then
      throw .moduleConflict
    if t ≤ H.apiEventManager then
      modify fun s => { s with eventManager_ := none }
    unload_ (H.base t)

/-- `irc::find` -/
def find (t : τ) : IrcM τ ν (Option (Object τ ν)) := do
  return (← find_ H t).filter (·.type ≤ t)

/-- `irc::get` -/
protected def get (t : τ) : IrcM τ ν (Object τ ν) := do
  match ← find_ H t with
  | none => throw (.rangeError "Requested module not found.")
  | some m => if m.type ≤ t then return m else throw .moduleConflict

/-- `irc::irc` -/
def make (construct : Except Nat ν) : EStateM.Result IrcFault (Irc τ ν) (Object τ ν) :=
  load H H.implEventManager construct ⟨∅, none⟩

/-! ## What is in a slot -/

variable {H} {s : Irc τ ν} {t : τ}

omit [DecidableLE τ] in
theorem find_run : find_ H t s = .ok (s.modules_.lookup (H.base t)) s := rfl

/-- What `load` makes of `event_manager_`. -/
theorem load_empty (hnone : s.modules_.lookup (H.base t) = none) (v : ν) :
    load H t (.ok v) s = .ok ⟨t, v⟩
      { modules_ := Finmap.insert (H.base t) ⟨t, v⟩ s.modules_,
        eventManager_ := if t ≤ H.apiEventManager then some ⟨t, v⟩ else s.eventManager_ } := by
  have hload : load_ (H.base t) (⟨t, v⟩ : Object τ ν) s =
      .ok () { s with modules_ := Finmap.insert (H.base t) ⟨t, v⟩ s.modules_ } := by
    rw [load_, Program.get_bind, hnone]
    rfl
  rw [load, Program.bind_ok find_run, hnone]
  show (load_ (H.base t) (⟨t, v⟩ : Object τ ν) >>= _) s = _
  rw [Program.bind_ok hload]
  split <;> rfl

theorem load_failed (hnone : s.modules_.lookup (H.base t) = none) (n : Nat) :
    load H t (.error n) s = .error (.foreign n) s := by
  rw [load, Program.bind_ok find_run, hnone]
  rfl

theorem load_occupied {m : Object τ ν} (hm : s.modules_.lookup (H.base t) = some m)
    (construct : Except Nat ν) : load H t construct s = .error .moduleConflict s := by
  unfold load
  rw [Program.bind_ok find_run, hm]
  rfl

theorem unload_empty (hnone : s.modules_.lookup (H.base t) = none) :
    unload H t s = .ok false s := by
  rw [unload, Program.bind_ok find_run, hnone]
  rfl

theorem unload_other {m : Object τ ν} (hm : s.modules_.lookup (H.base t) = some m)
    (hnle : ¬m.type ≤ t) : unload H t s = .error .moduleConflict s := by
  rw [unload, Program.bind_ok find_run, hm]
  show (if ¬m.type ≤ t then _ else _ : IrcM τ ν Bool) s = _
  rw [if_pos hnle]
  rfl

/-- What `unload` makes of `event_manager_`. -/
theorem unload_loaded {m : Object τ ν} (hm : s.modules_.lookup (H.base t) = some m)
    (hle : m.type ≤ t) :
    unload H t s = .ok true
      { modules_ := Finmap.erase (H.base t) s.modules_,
        eventManager_ := if t ≤ H.apiEventManager then none else s.eventManager_ } := by
  have hunload : ∀ o : Option (Object τ ν), unload_ (H.base t) { s with eventManager_ := o } =
      .ok true { modules_ := Finmap.erase (H.base t) s.modules_, eventManager_ := o } := by
    intro o
    rw [unload_, Program.get_bind, hm]
    rfl
  rw [unload, Program.bind_ok find_run, hm]
  show (if ¬m.type ≤ t then _ else _ : IrcM τ ν Bool) s = _
  rw [if_neg (not_not.mpr hle)]
  split
  · exact hunload none
  · exact hunload s.eventManager_

theorem find_eq (t : τ) : find H t s = .ok ((s.modules_.lookup (H.base t)).filter (·.type ≤ t)) s :=
  rfl

theorem get_empty (hnone : s.modules_.lookup (H.base t) = none) :
    Irc.get H t s = .error (.rangeError "Requested module not found.") s := by
  rw [Irc.get, Program.bind_ok find_run, hnone]
  rfl

theorem get_loaded {m : Object τ ν} (hm : s.modules_.lookup (H.base t) = some m) :
    Irc.get H t s = if m.type ≤ t then .ok m s else .error .moduleConflict s := by
  rw [Irc.get, Program.bind_ok find_run, hm]
  show (if m.type ≤ t then _ else _ : IrcM τ ν (Object τ ν)) s = _
  split <;> rfl

/-! ## When a call returns, fails and throws -/

theorem load_conflict_iff (construct : Except Nat ν) :
    (∃ s', load H t construct s = .error .moduleConflict s') ↔
      s.modules_.lookup (H.base t) ≠ none := by
  cases hm : s.modules_.lookup (H.base t) with
  | some m => simp [load_occupied hm]
  | none =>
    cases construct with
    | error n => simp [load_failed hm]
    | ok v => simp [load_empty hm]

theorem unload_false_iff :
    (∃ s', unload H t s = .ok false s') ↔ s.modules_.lookup (H.base t) = none := by
  cases hm : s.modules_.lookup (H.base t) with
  | none => simp [unload_empty hm]
  | some m =>
    by_cases hle : m.type ≤ t
    · simp [unload_loaded hm hle]
    · simp [unload_other hm hle]

theorem unload_conflict_iff :
    (∃ s', unload H t s = .error .moduleConflict s') ↔
      ∃ m, s.modules_.lookup (H.base t) = some m ∧ ¬m.type ≤ t := by
  cases hm : s.modules_.lookup (H.base t) with
  | none => simp [unload_empty hm]
  | some m =>
    by_cases hle : m.type ≤ t
    · simp [unload_loaded hm hle, hle]
    · simp [unload_other hm hle, hle]

theorem find_some_iff (m : Object τ ν) :
    find H t s = .ok (some m) s ↔ s.modules_.lookup (H.base t) = some m ∧ m.type ≤ t := by
  simp [find_eq, Option.filter_eq_some_iff]

theorem get_ok_iff (m : Object τ ν) :
    Irc.get H t s = .ok m s ↔ s.modules_.lookup (H.base t) = some m ∧ m.type ≤ t := by
  cases hm : s.modules_.lookup (H.base t) with
  | none => simp [get_empty hm]
  | some m' =>
    rw [get_loaded hm]
    split
    · rename_i hle
      simp only [EStateM.Result.ok.injEq, and_true, Option.some.injEq]
      exact ⟨fun h => ⟨h, h ▸ hle⟩, And.left⟩
    · rename_i hnle
      simp only [reduceCtorEq, Option.some.injEq, false_iff, not_and]
      exact fun h => h ▸ hnle

theorem get_range_error_iff :
    Irc.get H t s = .error (.rangeError "Requested module not found.") s ↔
      s.modules_.lookup (H.base t) = none := by
  cases hm : s.modules_.lookup (H.base t) with
  | none => simp [get_empty hm]
  | some m =>
    rw [get_loaded hm]
    split <;> simp

theorem get_conflict_iff :
    Irc.get H t s = .error .moduleConflict s ↔
      ∃ m, s.modules_.lookup (H.base t) = some m ∧ ¬m.type ≤ t := by
  cases hm : s.modules_.lookup (H.base t) with
  | none => simp [get_empty hm]
  | some m =>
    rw [get_loaded hm]
    by_cases hle : m.type ≤ t <;> simp [hle]

variable (H s t) in
/-- When the calls for a type return, fail and throw. -/
structure Conditions : Prop where
  load_conflict : ∀ construct,
    (∃ s', load H t construct s = .error .moduleConflict s') ↔ s.modules_.lookup (H.base t) ≠ none
  load_new : s.modules_.lookup (H.base t) = none → ∀ v, ∃ s', load H t (.ok v) s = .ok ⟨t, v⟩ s' ∧
    s'.modules_ = Finmap.insert (H.base t) ⟨t, v⟩ s.modules_
  load_failed : s.modules_.lookup (H.base t) = none →
    ∀ n, load H t (.error n) s = .error (.foreign n) s
  unload_false : (∃ s', unload H t s = .ok false s') ↔ s.modules_.lookup (H.base t) = none
  unload_conflict : (∃ s', unload H t s = .error .moduleConflict s') ↔
    ∃ m, s.modules_.lookup (H.base t) = some m ∧ ¬m.type ≤ t
  unload_true : ∀ m, s.modules_.lookup (H.base t) = some m → m.type ≤ t →
    ∃ s', unload H t s = .ok true s' ∧ s'.modules_ = Finmap.erase (H.base t) s.modules_
  find_some : ∀ m, find H t s = .ok (some m) s ↔
    s.modules_.lookup (H.base t) = some m ∧ m.type ≤ t
  get_ok : ∀ m, Irc.get H t s = .ok m s ↔ s.modules_.lookup (H.base t) = some m ∧ m.type ≤ t
  get_range_error : Irc.get H t s = .error (.rangeError "Requested module not found.") s ↔
    s.modules_.lookup (H.base t) = none
  get_conflict : Irc.get H t s = .error .moduleConflict s ↔
    ∃ m, s.modules_.lookup (H.base t) = some m ∧ ¬m.type ≤ t

variable (H s t) in
theorem conditions : Conditions H s t where
  load_conflict := load_conflict_iff
  load_new hnone v := ⟨_, load_empty hnone v, rfl⟩
  load_failed := load_failed
  unload_false := unload_false_iff
  unload_conflict := unload_conflict_iff
  unload_true _ hm hle := ⟨_, unload_loaded hm hle, rfl⟩
  find_some := find_some_iff
  get_ok := get_ok_iff
  get_range_error := get_range_error_iff
  get_conflict := get_conflict_iff

/-! ## Runs -/

variable (H s) in
/-- The modules are filed, and the pointer is to the one that is filed as the event manager. -/
structure Coherent : Prop where
  filed : H.Filed s.modules_
  cached : s.eventManager_ = s.modules_.lookup H.apiEventManager

omit [DecidableLE τ] in
theorem coherent_empty : Coherent H (⟨∅, none⟩ : Irc τ ν) := ⟨filed_empty, rfl⟩

omit [DecidableEq τ] [DecidableLE τ] in
/-- The type test of `load` and `unload` is right. -/
theorem le_api_iff : t ≤ H.apiEventManager ↔ H.base t = H.apiEventManager :=
  H.le_iff_base_eq H.api_base t

theorem Coherent.load (h : Coherent H s) (hnone : s.modules_.lookup (H.base t) = none) (v : ν) :
    ∃ s', load H t (.ok v) s = .ok ⟨t, v⟩ s' ∧ Coherent H s' := by
  refine ⟨_, load_empty hnone v, h.filed.insert rfl, ?_⟩
  simp only [le_api_iff]
  split
  · rename_i hbase
    rw [hbase, Finmap.lookup_insert]
  · rename_i hbase
    rw [Finmap.lookup_insert_of_ne _ (Ne.symm hbase)]
    exact h.cached

theorem Coherent.unload (h : Coherent H s) {m : Object τ ν}
    (hm : s.modules_.lookup (H.base t) = some m) (hle : m.type ≤ t) :
    ∃ s', unload H t s = .ok true s' ∧ Coherent H s' := by
  refine ⟨_, unload_loaded hm hle, h.filed.erase _, ?_⟩
  simp only [le_api_iff]
  split
  · rename_i hbase
    rw [hbase, Finmap.lookup_erase]
  · rename_i hbase
    rw [Finmap.lookup_erase_ne (Ne.symm hbase)]
    exact h.cached

end Irc

/-- A call of a context. -/
inductive IrcOp (τ ν : Type) where
  | load (t : τ) (construct : Except Nat ν)
  | unload (t : τ)
  | find (t : τ)
  | get (t : τ)

/-- How a call ends. -/
inductive IrcAnswer (τ ν : Type) where
  | module (m : Object τ ν)
  | found (m : Option (Object τ ν))
  | answered (b : Bool)
  | threw (x : IrcFault)
  deriving DecidableEq, Repr

namespace Irc

variable {τ ν : Type} [PartialOrder τ] [DecidableEq τ] [DecidableLE τ] (H : ModuleHierarchy τ)

/-- One call. -/
def call : IrcOp τ ν → IrcM τ ν (IrcAnswer τ ν)
  | .load t construct => .module <$> load H t construct
  | .unload t => .answered <$> unload H t
  | .find t => .found <$> find H t
  | .get t => .module <$> Irc.get H t

/-- A context from call to call. A call with a failing assertion has no result. -/
def machine : Machine (Irc τ ν) (IrcOp τ ν) (IrcAnswer τ ν) where
  step s op :=
    match call H op s with
    | .ok answer s => some (answer, s)
    | .error .assertion _ => none
    | .error x s => some (.threw x, s)

variable {H} {s : Irc τ ν}

/-- **A call returns and keeps the context coherent, or throws and changes nothing.** -/
theorem call_coherent (h : Coherent H s) (op : IrcOp τ ν) :
    (∃ answer s', call H op s = .ok answer s' ∧ Coherent H s') ∨
      ∃ x, x ≠ .assertion ∧ call H op s = .error x s := by
  cases op with
  | load t construct =>
    cases hm : s.modules_.lookup (H.base t) with
    | some m => exact .inr ⟨_, by simp, Program.map_error _ (load_occupied hm construct)⟩
    | none =>
      cases construct with
      | error n => exact .inr ⟨_, by simp, Program.map_error _ (load_failed hm n)⟩
      | ok v =>
        obtain ⟨s', hrun, hs'⟩ := h.load hm v
        exact .inl ⟨_, s', Program.map_ok _ hrun, hs'⟩
  | unload t =>
    cases hm : s.modules_.lookup (H.base t) with
    | none => exact .inl ⟨_, s, Program.map_ok _ (unload_empty hm), h⟩
    | some m =>
      by_cases hle : m.type ≤ t
      · obtain ⟨s', hrun, hs'⟩ := h.unload hm hle
        exact .inl ⟨_, s', Program.map_ok _ hrun, hs'⟩
      · exact .inr ⟨_, by simp, Program.map_error _ (unload_other hm hle)⟩
  | find t => exact .inl ⟨_, s, Program.map_ok _ (find_eq t), h⟩
  | get t =>
    cases hm : s.modules_.lookup (H.base t) with
    | none => exact .inr ⟨_, by simp, Program.map_error _ (get_empty hm)⟩
    | some m =>
      have hget := get_loaded hm
      by_cases hle : m.type ≤ t
      · rw [if_pos hle] at hget
        exact .inl ⟨_, s, Program.map_ok _ hget, h⟩
      · rw [if_neg hle] at hget
        exact .inr ⟨_, by simp, Program.map_error _ hget⟩

theorem step_coherent (h : Coherent H s) (op : IrcOp τ ν) :
    ∃ answer s', (machine H).step s op = some (answer, s') ∧ Coherent H s' := by
  rcases call_coherent h op with ⟨answer, s', hcall, hs'⟩ | ⟨x, hx, hcall⟩
  · exact ⟨answer, s', by simp only [machine, hcall], hs'⟩
  · refine ⟨.threw x, s, ?_, h⟩
    cases x <;> simp_all [machine]

/-- A call that throws changes nothing. -/
theorem call_threw (h : Coherent H s) {op : IrcOp τ ν} {x : IrcFault} {s' : Irc τ ν}
    (hcall : call H op s = .error x s') : s' = s := by
  rcases call_coherent h op with ⟨answer, t, hok, -⟩ | ⟨y, -, herr⟩
  · rw [hok] at hcall
    cases hcall
  · rw [herr] at hcall
    cases hcall
    rfl

omit [DecidableLE τ] in
/-- `event_manager` gives the module that is filed as the event manager. -/
theorem eventManager_iff (h : Coherent H s) (m : Object τ ν) :
    eventManager s = .ok m s ↔ s.modules_.lookup H.apiEventManager = some m := by
  rw [← h.cached, eventManager, Program.get_bind]
  cases s.eventManager_ with
  | none => exact ⟨nofun, nofun⟩
  | some m' =>
    constructor
    · intro hok
      cases hok
      rfl
    · intro hm
      cases hm
      rfl

variable (H) in
/-- A new context has the event manager that its constructor loads. -/
theorem make_eventManager (v : ν) :
    ∃ m s, make H (.ok v) = .ok m s ∧ eventManager s = .ok m s := by
  refine ⟨_, _, load_empty (Finmap.lookup_empty _) v, ?_⟩
  rw [eventManager, Program.get_bind, if_pos H.impl_le]
  rfl

variable (H) in
/-- **The modules and the cached event manager are coherent.** After the construction of a context
and any calls, some of which throw, every module is filed under its API type, so there is at most
one for each API type, and the cached pointer is to the module that is filed as the event manager.
The calls return, fail and throw as documented, and those that throw change nothing. -/
theorem modules_coherent (v : ν) (ops : List (IrcOp τ ν)) :
    ∃ m s₀, make H (.ok v) = .ok m s₀ ∧
      ∃ answers s, (machine H).run s₀ ops = some (answers, s) ∧
        Coherent H s ∧
        (∀ k l x y, s.modules_.lookup k = some x → s.modules_.lookup l = some y →
          H.base x.type = H.base y.type → k = l ∧ x = y) ∧
        (∀ t, Conditions H s t) ∧
        (∀ op x s', call H op s = .error x s' → s' = s) ∧
        ∀ m, eventManager s = .ok m s ↔ s.modules_.lookup H.apiEventManager = some m := by
  have hnone : Finmap.lookup (H.base H.implEventManager) (∅ : Slots τ ν) = none :=
    Finmap.lookup_empty _
  obtain ⟨s₀, hmake, h₀⟩ := (coherent_empty (H := H)).load hnone v
  obtain ⟨answers, s, hrun, h⟩ := Machine.run_defined (P := Coherent H)
    (fun _ op h => step_coherent h op) h₀ ops
  exact ⟨_, s₀, hmake, answers, s, hrun, h, fun k l x y => h.filed.unique, conditions H s,
    fun op x s' => call_threw h, eventManager_iff h⟩

end Irc

/-! ## The modules of the library -/

/-- The module types of the library, and a class of a user that implements `apis::connection`. -/
inductive ModuleType where
  /-- `apis::event_manager` -/
  | apiEventManager
  /-- `modules::event_manager` -/
  | eventManager
  /-- `apis::connection` -/
  | apiConnection
  /-- `modules::connection` -/
  | connection
  | userConnection
  deriving DecidableEq, Repr

namespace ModuleType

/-- `module_base_api_type` -/
def api : ModuleType → ModuleType
  | .apiEventManager | .eventManager => .apiEventManager
  | .apiConnection | .connection | .userConnection => .apiConnection

instance : PartialOrder ModuleType where
  le t u := t = u ∨ t.api = u
  le_refl t := .inl rfl
  le_trans t u v htu huv := by
    obtain rfl | rfl := htu
    · exact huv
    · cases t <;> simp_all [api]
  le_antisymm t u htu hut := by
    cases t <;> cases u <;> simp_all [api]

instance : DecidableLE ModuleType := fun t u => inferInstanceAs (Decidable (t = u ∨ t.api = u))

/-- They are derived from their API types. -/
def hierarchy : ModuleHierarchy ModuleType where
  base := api
  le_base _ := .inr rfl
  base_eq {t u} h := by
    obtain rfl | rfl := h
    · rfl
    · cases t <;> rfl
  apiEventManager := .apiEventManager
  implEventManager := .eventManager
  api_base := rfl
  impl_le := .inr rfl

end ModuleType

end Slirc
