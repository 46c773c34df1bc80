import Slirc.Lib.Hierarchy
import Slirc.Lib.Machine
import Slirc.Lib.Program

/-!
# The component container (`include/slirc/component_container.hpp`)

A container files each component under its base component type. A call for a component type looks
the slot of its base type up, casts what lies there to `component<…>`, and asks with a
`dynamic_cast` whether it has the type.

A component is an object of the hierarchy. What is handed over to be inserted is the result of
`new Component(value)`: an object, or the exception of the constructor. A cast to a base type that
the object does not have is undefined.

`operations_agree`: after any calls, every component is in the slot of its base type, and all
operations agree about what is in a slot.
-/

namespace Slirc

open Hierarchy

/-- What ends a call other than by returning. -/
inductive ContainerFault where
  /-- A `static_cast` to a type that the object does not have. -/
  | undefined
  /-- `std::out_of_range` -/
  | outOfRange (what : String)
  /-- `exceptions::component_conflict` -/
  | componentConflict
  /-- An exception of the constructor of a component. -/
  | foreign (n : Nat)
  deriving DecidableEq, Repr

/-- Code that works on the contents of a container. -/
abbrev ContainerM (τ ν : Type) [DecidableEq τ] := EStateM ContainerFault (Slots τ ν)

namespace ComponentContainer

variable {τ ν : Type} [PartialOrder τ] [DecidableEq τ] (H : Hierarchy τ)

/-- `component_container::find_` -/
def find_ (t : τ) : ContainerM τ ν (Option (Object τ ν)) := do
  return (← get).lookup (H.base t)

/-- The `static_cast` of what is stored to `component<typename Component::component_base_type>`. -/
def castTo (t : τ) (x : Object τ ν) : ContainerM τ ν (Object τ ν) :=
  if H.base x.type = H.base t then return x else throw .undefined

/-- `component_container::insert_` -/
def insert_ (t : τ) (value : Except Nat ν) : ContainerM τ ν (Object τ ν) :=
  match value with
  | .error n => throw (.foreign n)
  | .ok v => do
    modify fun contents => contents.insert (H.base t) ⟨t, v⟩
    return ⟨t, v⟩

/-- `component_container::insert` -/
def insert (t : τ) (value : Except Nat ν) : ContainerM τ ν (Object τ ν) := do
  if (← find_ H t).isSome then
    throw .componentConflict
  insert_ H t value

variable [DecidableLE τ]

/-- `component_container::at` -/
def at_ (t : τ) : ContainerM τ ν (Object τ ν) := do
  match ← find_ H t with
  | none => throw (.outOfRange "No such component")
  | some x =>
    let x ← castTo H t x
    -- `dynamic_cast<Component&>` throws `std::bad_cast` otherwise
    if x.type ≤ t then return x else throw .componentConflict

/-- `component_container::at_or_insert`. The one-type form is `u = t`. -/
def atOrInsert (t u : τ) (value : Except Nat ν) : ContainerM τ ν (Object τ ν) :=
  tryCatch (at_ H t) fun
    | .outOfRange _ => insert_ H u value
    | x => throw x

/-- `component_container::find` -/
def find (t : τ) : ContainerM τ ν (Option (Object τ ν)) := do
  match ← find_ H t with
  | none => return none
  | some x =>
    let x ← castTo H t x
    return if x.type ≤ t then some x else none

/-- `component_container::has` -/
def has (t : τ) : ContainerM τ ν Bool := do
  return (← find H t).isSome

/-- `component_container::remove` -/
def remove (t : τ) : ContainerM τ ν Bool := do
  match ← find_ H t with
  | none => return false
  | some x =>
    let x ← castTo H t x
    if x.type ≤ t then
      modify fun contents => contents.erase (H.base t)
      return true
    else throw .componentConflict

/-! ## What is in a slot -/

section Slot

variable (c : Slots τ ν) (t : τ)

/-- The operations for a type whose slot is empty. -/
structure AgreesEmpty : Prop where
  find_eq : find H t c = .ok none c
  has_eq : has H t c = .ok false c
  at_eq : at_ H t c = .error (.outOfRange "No such component") c
  remove_eq : remove H t c = .ok false c
  insert_eq : ∀ v : ν, insert H t (.ok v) c = .ok ⟨t, v⟩ (Finmap.insert (H.base t) ⟨t, v⟩ c)
  atOrInsert_eq : ∀ u ≤ t, ∀ v : ν,
    atOrInsert H t u (.ok v) c = .ok ⟨u, v⟩ (Finmap.insert (H.base t) ⟨u, v⟩ c)
  /-- The constructor throws. -/
  failed : ∀ u ≤ t, ∀ n, insert H t (.error n) c = .error (.foreign n) c ∧
    atOrInsert H t u (.error n) c = .error (.foreign n) c

/-- The operations for a type whose slot holds `x`, which is of the type or of a derived one. -/
structure AgreesOn (x : Object τ ν) : Prop where
  find_eq : find H t c = .ok (some x) c
  has_eq : has H t c = .ok true c
  at_eq : at_ H t c = .ok x c
  atOrInsert_eq : ∀ u value, atOrInsert H t u value c = .ok x c
  remove_eq : remove H t c = .ok true (Finmap.erase (H.base t) c)
  insert_eq : ∀ value, insert H t value c = .error .componentConflict c

/-- The operations for a type whose slot holds a component of another type. -/
structure AgreesConflict : Prop where
  find_eq : find H t c = .ok none c
  has_eq : has H t c = .ok false c
  at_eq : at_ H t c = .error .componentConflict c
  atOrInsert_eq : ∀ u value, atOrInsert H t u value c = .error .componentConflict c
  remove_eq : remove H t c = .error .componentConflict c
  insert_eq : ∀ value, insert H t value c = .error .componentConflict c

/-- **All operations for a type agree** about what is in its slot. -/
structure Agrees : Prop where
  empty : c.lookup (H.base t) = none → AgreesEmpty H c t
  holds : ∀ x, c.lookup (H.base t) = some x → x.type ≤ t → AgreesOn H c t x
  conflict : ∀ x, c.lookup (H.base t) = some x → ¬x.type ≤ t → AgreesConflict H c t

end Slot

variable {H} {c : Slots τ ν} {t : τ}

omit [DecidableLE τ] in
theorem lookup_run : find_ H t c = .ok (c.lookup (H.base t)) c := rfl

omit [DecidableLE τ] in
/-- The cast of what is filed in a slot is valid. -/
theorem castTo_filed (hc : H.Filed c) {x : Object τ ν} (hx : c.lookup (H.base t) = some x) :
    castTo H t x c = .ok x c := by
  rw [castTo, if_pos (hc _ x hx)]
  rfl

theorem agreesEmpty (hnone : c.lookup (H.base t) = none) : AgreesEmpty H c t := by
  have hat : at_ H t c = .error (.outOfRange "No such component") c := by
    rw [at_, Program.bind_ok lookup_run, hnone]
    rfl
  have hfind : find H t c = .ok none c := by
    rw [find, Program.bind_ok lookup_run, hnone]
    rfl
  have hinsert : ∀ value, insert H t value c = insert_ H t value c := by
    intro value
    rw [insert, Program.bind_ok lookup_run, hnone]
    rfl
  have hatOrInsert : ∀ u value, atOrInsert H t u value c = insert_ H u value c := fun u value =>
    Program.tryCatch_error hat
  have hbase : ∀ u ≤ t, H.base u = H.base t := fun u hu => H.base_eq hu
  refine ⟨hfind, ?_, hat, ?_, fun v => hinsert _, fun u hu v => ?_, fun u hu n => ⟨?_, ?_⟩⟩
  · rw [has, Program.bind_ok hfind]
    rfl
  · rw [remove, Program.bind_ok lookup_run, hnone]
    rfl
  · rw [hatOrInsert, ← hbase u hu]
    rfl
  · rw [hinsert]
    rfl
  · rw [hatOrInsert]
    rfl

/-! The calls for a type whose slot holds `x`. -/

section Filed

variable {x : Object τ ν}

omit [DecidableLE τ] in
theorem insert_occupied (hx : c.lookup (H.base t) = some x) (value : Except Nat ν) :
    insert H t value c = .error .componentConflict c := by
  rw [insert, Program.bind_ok lookup_run, hx]
  rfl

theorem at_filed (hc : H.Filed c) (hx : c.lookup (H.base t) = some x) :
    at_ H t c = if x.type ≤ t then .ok x c else .error .componentConflict c := by
  rw [at_, Program.bind_ok lookup_run, hx]
  show (castTo H t x >>= _) c = _
  rw [Program.bind_ok (castTo_filed hc hx)]
  split <;> rfl

theorem find_filed (hc : H.Filed c) (hx : c.lookup (H.base t) = some x) :
    find H t c = .ok (if x.type ≤ t then some x else none) c := by
  rw [find, Program.bind_ok lookup_run, hx]
  show (castTo H t x >>= _) c = _
  rw [Program.bind_ok (castTo_filed hc hx)]
  rfl

theorem remove_filed (hc : H.Filed c) (hx : c.lookup (H.base t) = some x) :
    remove H t c = if x.type ≤ t then .ok true (Finmap.erase (H.base t) c)
      else .error .componentConflict c := by
  rw [remove, Program.bind_ok lookup_run, hx]
  show (castTo H t x >>= _) c = _
  rw [Program.bind_ok (castTo_filed hc hx)]
  split <;> rfl

theorem agreesOn (hc : H.Filed c) (hx : c.lookup (H.base t) = some x) (hle : x.type ≤ t) :
    AgreesOn H c t x := by
  have hat : at_ H t c = .ok x c := by rw [at_filed hc hx, if_pos hle]
  have hfind : find H t c = .ok (some x) c := by rw [find_filed hc hx, if_pos hle]
  refine ⟨hfind, ?_, hat, fun u value => Program.tryCatch_ok hat, ?_, insert_occupied hx⟩
  · rw [has, Program.bind_ok hfind]
    rfl
  · rw [remove_filed hc hx, if_pos hle]

theorem agreesConflict (hc : H.Filed c) (hx : c.lookup (H.base t) = some x) (hnle : ¬x.type ≤ t) :
    AgreesConflict H c t := by
  have hat : at_ H t c = .error .componentConflict c := by rw [at_filed hc hx, if_neg hnle]
  have hfind : find H t c = .ok none c := by rw [find_filed hc hx, if_neg hnle]
  refine ⟨hfind, ?_, hat, fun u value => Program.tryCatch_error hat, ?_, insert_occupied hx⟩
  · rw [has, Program.bind_ok hfind]
    rfl
  · rw [remove_filed hc hx, if_neg hnle]

end Filed

/-- While every component is filed, the operations agree. -/
theorem agrees (hc : H.Filed c) (t : τ) : Agrees H c t :=
  ⟨agreesEmpty, fun _ => agreesOn hc, fun _ => agreesConflict hc⟩

end ComponentContainer

/-! ## Runs -/

/-- A call of a container. The new component of `at_or_insert` is of the requested type or of a
derived one. -/
inductive ContainerOp (τ ν : Type) [PartialOrder τ] where
  | insert (t : τ) (value : Except Nat ν)
  | atOrInsert (t u : τ) (h : u ≤ t) (value : Except Nat ν)
  | at_ (t : τ)
  | find (t : τ)
  | has (t : τ)
  | remove (t : τ)

/-- How a call ends. -/
inductive ContainerAnswer (τ ν : Type) where
  | component (x : Object τ ν)
  | found (x : Option (Object τ ν))
  | answered (b : Bool)
  | threw (x : ContainerFault)
  deriving DecidableEq, Repr

namespace ComponentContainer

variable {τ ν : Type} [PartialOrder τ] [DecidableEq τ] [DecidableLE τ] (H : Hierarchy τ)

/-- One call. -/
def call : ContainerOp τ ν → ContainerM τ ν (ContainerAnswer τ ν)
  | .insert t value => .component <$> insert H t value
  | .atOrInsert t u _ value => .component <$> atOrInsert H t u value
  | .at_ t => .component <$> at_ H t
  | .find t => .found <$> find H t
  | .has t => .answered <$> has H t
  | .remove t => .answered <$> remove H t

/-- A container from call to call. A call with undefined behaviour has no result. -/
def machine : Machine (Slots τ ν) (ContainerOp τ ν) (ContainerAnswer τ ν) where
  step c op :=
    match call H op c with
    | .ok answer c => some (answer, c)
    | .error .undefined _ => none
    | .error x c => some (.threw x, c)

variable {H} {c : Slots τ ν} {α β : Type}

variable (H) in
/-- A call ends with every component in its slot, and without undefined behaviour. -/
inductive EndsFiled : EStateM.Result ContainerFault (Slots τ ν) α → Prop
  | returned (a : α) {c : Slots τ ν} : H.Filed c → EndsFiled (.ok a c)
  | threw {x : ContainerFault} {c : Slots τ ν} : x ≠ .undefined → H.Filed c →
    EndsFiled (.error x c)

omit [DecidableLE τ] in
theorem EndsFiled.map {x : ContainerM τ ν α} (h : EndsFiled H (x c)) (f : α → β) :
    EndsFiled H ((f <$> x) c) := by
  generalize hr : x c = r at h
  cases h with
  | returned a hc =>
    rw [Program.map_ok f hr]
    exact .returned _ hc
  | threw hx hc =>
    rw [Program.map_error f hr]
    exact .threw hx hc

/-- The three states of a slot. -/
theorem slot_cases (hc : H.Filed c) (t : τ) :
    AgreesEmpty H c t ∨ (∃ x, AgreesOn H c t x) ∨ AgreesConflict H c t := by
  cases hx : c.lookup (H.base t) with
  | none => exact .inl (agreesEmpty hx)
  | some x =>
    by_cases hle : x.type ≤ t
    · exact .inr (.inl ⟨x, agreesOn hc hx hle⟩)
    · exact .inr (.inr (agreesConflict hc hx hle))

/-- **Every call keeps the components filed**, and casts are valid. -/
theorem call_filed (hc : H.Filed c) (op : ContainerOp τ ν) : EndsFiled H (call H op c) := by
  cases op with
  | insert t value =>
    refine EndsFiled.map ?_ _
    rcases slot_cases hc t with h | ⟨x, h⟩ | h
    · cases value with
      | error n =>
        rw [(h.failed t le_rfl n).1]
        exact .threw (by simp) hc
      | ok v =>
        rw [h.insert_eq v]
        exact .returned _ (hc.insert rfl)
    · rw [h.insert_eq value]
      exact .threw (by simp) hc
    · rw [h.insert_eq value]
      exact .threw (by simp) hc
  | atOrInsert t u hu value =>
    refine EndsFiled.map ?_ _
    rcases slot_cases hc t with h | ⟨x, h⟩ | h
    · cases value with
      | error n =>
        rw [(h.failed u hu n).2]
        exact .threw (by simp) hc
      | ok v =>
        rw [h.atOrInsert_eq u hu v]
        exact .returned _ (hc.insert (H.base_eq hu))
    · rw [h.atOrInsert_eq u value]
      exact .returned _ hc
    · rw [h.atOrInsert_eq u value]
      exact .threw (by simp) hc
  | at_ t =>
    refine EndsFiled.map ?_ _
    rcases slot_cases hc t with h | ⟨x, h⟩ | h <;> rw [h.at_eq]
    · exact .threw (by simp) hc
    · exact .returned _ hc
    · exact .threw (by simp) hc
  | find t =>
    refine EndsFiled.map ?_ _
    rcases slot_cases hc t with h | ⟨x, h⟩ | h <;> rw [h.find_eq] <;> exact .returned _ hc
  | has t =>
    refine EndsFiled.map ?_ _
    rcases slot_cases hc t with h | ⟨x, h⟩ | h <;> rw [h.has_eq] <;> exact .returned _ hc
  | remove t =>
    refine EndsFiled.map ?_ _
    rcases slot_cases hc t with h | ⟨x, h⟩ | h <;> rw [h.remove_eq]
    · exact .returned _ hc
    · exact .returned _ (hc.erase _)
    · exact .threw (by simp) hc

theorem step_filed (hc : H.Filed c) (op : ContainerOp τ ν) :
    ∃ answer c', (machine H).step c op = some (answer, c') ∧ H.Filed c' := by
  have hends := call_filed hc op
  generalize hr : call H op c = r at hends
  cases hends with
  | @returned a c' hc' => exact ⟨a, c', by simp only [machine, hr], hc'⟩
  | @threw x c' hx hc' =>
    refine ⟨.threw x, c', ?_, hc'⟩
    cases x <;> simp_all [machine]

variable (H) in
/-- **All operations agree.** After any calls on a new container, none of them with undefined
behaviour, every component is in the slot of its base type, so there is at most one for each base
type; and for every type the operations agree on what is in its slot: nothing, a component that is
of this type or of one derived from it, or a component of another type. -/
theorem operations_agree (ops : List (ContainerOp τ ν)) :
    ∃ answers c, (machine H).run ∅ ops = some (answers, c) ∧
      (∀ k x, c.lookup k = some x → H.base x.type = k ∧ x.type ≤ k) ∧
      (∀ k l x y, c.lookup k = some x → c.lookup l = some y → H.base x.type = H.base y.type →
        k = l ∧ x = y) ∧
      ∀ t, Agrees H c t := by
  obtain ⟨answers, c, hrun, hc⟩ := Machine.run_defined (P := H.Filed)
    (fun _ op hc => step_filed hc op) filed_empty ops
  refine ⟨answers, c, hrun, fun k x hx => ⟨hc k x hx, ?_⟩, fun k l x y hx hy => hc.unique hx hy,
    agrees hc⟩
  have hle := H.le_base x.type
  rwa [hc k x hx] at hle

end ComponentContainer

end Slirc
