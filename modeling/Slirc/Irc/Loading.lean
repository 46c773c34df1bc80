import Slirc.Irc.Modules

/-!
# Modules whose constructors load modules

`load` finds the slot of its API type empty, runs the constructor of the module, which may call
`load` and `unload` on the same context, and then stores the module. The machine `loading` has the
loads whose constructors run as a stack: its runs are all trees of nested loads, with constructors
that return or throw. A module is known by its number in the order of construction.

* `Irc.store`: `load` behind the constructor, in a build with assertions or without. `load_eq`,
  `load_finish`: a load whose constructor loads nothing is `Irc.load`.
* `Kept`: the modules whose load has returned are in their slots. `Fine`: a load that finds its slot
  occupied ends in `module_conflict`, not at an assertion.
* `never_replaced_iff`: both hold exactly as long as constructors that return find the slot of their
  module empty. `kept_iff`: without assertions modules are replaced in all other runs.
-/

namespace Slirc

open Hierarchy

namespace Irc

variable {τ ν : Type} [PartialOrder τ] [DecidableEq τ] [DecidableLE τ] (H : ModuleHierarchy τ)

/-- `irc::load_`, where assertions are checked if `asserts`. -/
def store_ (asserts : Bool) (index : τ) (module : Object τ ν) : IrcM τ ν Unit := do
  -- "Must not replace an already loaded module!"
  if asserts && ((← get).modules_.lookup index).isSome then
    throw .assertion
  modify fun s => { s with modules_ := s.modules_.insert index module }

/-- `irc::load`, behind the constructor. -/
def store (asserts : Bool) (t : τ) (v : ν) : IrcM τ ν (Object τ ν) := do
  let realmod : Object τ ν := ⟨t, v⟩
  store_ asserts (H.base t) realmod
  if t ≤ H.apiEventManager then
    modify fun s => { s with eventManager_ := some realmod }
  return realmod

/-- What `find_` returns. -/
def occupant (s : Irc τ ν) (t : τ) : Option (Object τ ν) := s.modules_.lookup (H.base t)

theorem load_eq (t : τ) (v : ν) : load H t (.ok v) = (do
    if (← find_ H t).isSome then
      throw .moduleConflict
    store H true t v) := rfl

variable {H} {s : Irc τ ν} {asserts : Bool} {t : τ}

/-- Without assertions, what is in the slot is replaced. -/
theorem store_eq (h : asserts = false ∨ occupant H s t = none) (v : ν) :
    store H asserts t v s = .ok ⟨t, v⟩
      { modules_ := Finmap.insert (H.base t) ⟨t, v⟩ s.modules_,
        eventManager_ := if t ≤ H.apiEventManager then some ⟨t, v⟩ else s.eventManager_ } := by
  have hstore : store_ asserts (H.base t) (⟨t, v⟩ : Object τ ν) s =
      .ok () { s with modules_ := Finmap.insert (H.base t) ⟨t, v⟩ s.modules_ } := by
    rw [store_, Program.get_bind]
    obtain rfl | hnone := h
    · rfl
    · rw [show s.modules_.lookup (H.base t) = none from hnone, Option.isSome_none, Bool.and_false]
      rfl
  rw [store, Program.bind_ok hstore]
  split <;> rfl

theorem store_asserts (h : occupant H s t ≠ none) (v : ν) :
    store H true t v s = .error .assertion s := by
  obtain ⟨m, hm⟩ := Option.ne_none_iff_exists'.mp h
  have hstore : store_ true (H.base t) (⟨t, v⟩ : Object τ ν) s = .error .assertion s := by
    rw [store_, Program.get_bind, show s.modules_.lookup (H.base t) = some m from hm]
    rfl
  rw [store, Program.bind_error hstore]

end Irc

/-- A context while modules are loaded. -/
structure Loading (τ : Type) where
  irc : Irc τ Nat := ⟨∅, none⟩
  /-- The types of the loads whose constructors run, of which the innermost is the first. -/
  constructing : List τ := []
  /-- The number of the next module. -/
  built : Nat := 0
  /-- The modules whose load has returned, and that were not unloaded. No code reads it. -/
  returned : List (Object τ Nat) := []

/-- What the code that runs does next, which is the constructor of the innermost load, if there is
one. -/
inductive LoadingCall (τ : Type) where
  | load (t : τ)
  /-- The constructor returns. -/
  | finish
  /-- An exception leaves the constructor. -/
  | throw (x : IrcFault)
  | unload (t : τ)
  deriving DecidableEq, Repr

inductive LoadingAnswer (τ : Type) where
  | began
  | loaded (m : Object τ Nat)
  | unloaded (b : Bool)
  | threw (x : IrcFault)
  deriving DecidableEq, Repr

namespace Loading

open Irc

variable {τ : Type} [PartialOrder τ] [DecidableEq τ]

section Code

variable [DecidableLE τ] (H : ModuleHierarchy τ)

/-- The constructor of a load has returned. -/
def finish (asserts : Bool) (s : Loading τ) (t : τ) (rest : List τ) :
    LoadingAnswer τ × Loading τ :=
  match store H asserts t s.built s.irc with
  | .ok m irc =>
    (.loaded m, { irc, constructing := rest, built := s.built + 1, returned := m :: s.returned })
  | .error x irc => (.threw x, { s with irc, constructing := rest, built := s.built + 1 })

def step (asserts : Bool) (s : Loading τ) : LoadingCall τ → Option (LoadingAnswer τ × Loading τ)
  | .load t =>
    match occupant H s.irc t with
    | some _ => some (.threw .moduleConflict, s)
    | none => some (.began, { s with constructing := t :: s.constructing })
  | .finish =>
    match s.constructing with
    | [] => none
    | t :: rest => some (finish H asserts s t rest)
  | .throw x =>
    match s.constructing with
    | [] => none
    | _ :: rest => some (.threw x, { s with constructing := rest })
  | .unload t =>
    match unload H t s.irc with
    | .ok true irc => some (.unloaded true,
        { s with irc, returned := s.returned.filter fun m => some m ≠ occupant H s.irc t })
    | .ok false irc => some (.unloaded false, { s with irc })
    | .error x irc => some (.threw x, { s with irc })

/-- The runs of code whose constructors load modules. -/
def loading (asserts : Bool) : Machine (Loading τ) (LoadingCall τ) (LoadingAnswer τ) :=
  ⟨step H asserts⟩

/-- **A load whose constructor loads nothing** is `Irc.load`. -/
theorem load_finish (s : Loading τ) (t : τ) :
    (∃ m irc, load H t (.ok s.built) s.irc = .ok m irc ∧
      (loading H true).run s [.load t, .finish] = some ([.began, .loaded m],
        { s with irc, built := s.built + 1, returned := m :: s.returned })) ∨
      load H t (.ok s.built) s.irc = .error .moduleConflict s.irc ∧
        (loading H true).step s (.load t) = some (.threw .moduleConflict, s) := by
  cases hm : occupant H s.irc t with
  | none =>
    refine .inl ⟨_, _, load_empty hm s.built, ?_⟩
    refine Machine.run_pair (t := { s with constructing := t :: s.constructing }) ?_ ?_
    · simp only [loading, step, hm]
    · simp only [loading, step, finish, store_eq (.inr hm)]
  | some m =>
    refine .inr ⟨load_occupied hm _, ?_⟩
    simp only [loading, step, hm]

end Code

/-! ## What a run keeps -/

section Registered

variable (H : ModuleHierarchy τ)

/-- Every module whose load has returned is in its slot, unless it was unloaded. -/
def Kept (s : Loading τ) : Prop :=
  ∀ m ∈ s.returned, s.irc.modules_.lookup (H.base m.type) = some m

/-- A constructor that returns finds the slot of its module empty. -/
def Vacant (s : Loading τ) (call : LoadingCall τ) : Prop :=
  call = .finish → ∀ t rest, s.constructing = t :: rest → occupant H s.irc t = none

/-- The modules that are loaded are those whose load has returned, and have different numbers. -/
structure Registered (s : Loading τ) : Prop where
  occupants : ∀ k m, s.irc.modules_.lookup k = some m ↔ m ∈ s.returned ∧ H.base m.type = k
  numbered : ∀ m ∈ s.returned, m.val < s.built

variable {H} {s s' : Loading τ}

theorem Registered.kept (h : Registered H s) : Kept H s :=
  fun m hm => (h.occupants _ m).mpr ⟨hm, rfl⟩

theorem registered_init : Registered H ({} : Loading τ) where
  occupants k m := by simp
  numbered m hm := by simp at hm

/-- A step that moves the stack only. -/
theorem Registered.of_eq (h : Registered H s) (hirc : s'.irc = s.irc)
    (hreturned : s'.returned = s.returned) (hbuilt : s.built ≤ s'.built) : Registered H s' where
  occupants k m := by rw [hirc, hreturned]; exact h.occupants k m
  numbered m hm := (h.numbered m (hreturned ▸ hm)).trans_le hbuilt

/-- A module is stored in an empty slot. -/
theorem Registered.store (h : Registered H s) {t : τ} {rest : List τ}
    {eventManager_ : Option (Object τ Nat)} (hnone : occupant H s.irc t = none) :
    Registered H
      { irc := { modules_ := Finmap.insert (H.base t) ⟨t, s.built⟩ s.irc.modules_, eventManager_ },
        constructing := rest, built := s.built + 1, returned := ⟨t, s.built⟩ :: s.returned } where
  occupants k m := by
    by_cases hk : k = H.base t
    · subst hk
      have hnot : ¬(m ∈ s.returned ∧ H.base m.type = H.base t) := by
        intro hm
        have hsome := (h.occupants _ m).mpr hm
        rw [show s.irc.modules_.lookup (H.base t) = none from hnone] at hsome
        cases hsome
      rw [Finmap.lookup_insert, List.mem_cons]
      constructor
      · intro hm
        cases hm
        exact ⟨.inl rfl, rfl⟩
      · rintro ⟨rfl | hm, hbase⟩
        · rfl
        · exact absurd ⟨hm, hbase⟩ hnot
    · rw [Finmap.lookup_insert_of_ne _ hk, h.occupants, List.mem_cons]
      constructor
      · exact fun hm => ⟨.inr hm.1, hm.2⟩
      · rintro ⟨rfl | hm, hbase⟩
        · exact absurd hbase.symm hk
        · exact ⟨hm, hbase⟩
  numbered m hm := by
    obtain rfl | hm := List.mem_cons.mp hm
    · exact Nat.lt_succ_self _
    · exact (h.numbered m hm).trans (Nat.lt_succ_self _)

/-- A slot is emptied. -/
theorem Registered.unload (h : Registered H s) {t : τ} {m : Object τ Nat}
    {eventManager_ : Option (Object τ Nat)} (hm : occupant H s.irc t = some m) :
    Registered H
      { s with
        irc := { modules_ := Finmap.erase (H.base t) s.irc.modules_, eventManager_ },
        returned := s.returned.filter fun x => some x ≠ occupant H s.irc t } where
  occupants k x := by
    obtain ⟨-, hbase⟩ := (h.occupants _ m).mp hm
    simp only [hm, List.mem_filter, decide_eq_true_eq, ne_eq, Option.some.injEq]
    by_cases hk : k = H.base t
    · subst hk
      rw [Finmap.lookup_erase]
      constructor
      · nofun
      · rintro ⟨⟨hx, hne⟩, hxbase⟩
        have hsome := (h.occupants _ x).mpr ⟨hx, hxbase⟩
        rw [show s.irc.modules_.lookup (H.base t) = some m from hm] at hsome
        exact absurd (Option.some.inj hsome).symm hne
    · rw [Finmap.lookup_erase_ne hk, h.occupants]
      constructor
      · rintro ⟨hx, rfl⟩
        exact ⟨⟨hx, fun hxm => hk (hxm ▸ hbase)⟩, rfl⟩
      · exact fun hx => ⟨hx.1.1, hx.2⟩
  numbered x hx := h.numbered x (List.mem_filter.mp hx).1

end Registered

section Runs

variable [DecidableLE τ] {H : ModuleHierarchy τ} {s s' : Loading τ} {asserts : Bool}
  {call : LoadingCall τ} {a : LoadingAnswer τ}

variable (H asserts) in
/-- A load that finds its slot occupied when it is about to store its module ends in
`module_conflict`, and does not run into an assertion. -/
def Fine (s : Loading τ) (call : LoadingCall τ) : Prop :=
  call = .finish → ∀ t rest answer s', s.constructing = t :: rest →
    step H asserts s call = some (answer, s') →
      (occupant H s.irc t ≠ none → answer = .threw .moduleConflict) ∧ answer ≠ .threw .assertion

/-- **The store does not look at the slot, but for its assertion.** -/
theorem fine_iff (s : Loading τ) (call : LoadingCall τ) :
    Fine H asserts s call ↔ Vacant H s call := by
  refine forall_congr' fun hcall => forall₂_congr fun t rest => ?_
  subst hcall
  constructor
  · intro h hs
    by_contra hoccupied
    have hst : step H asserts s .finish = some (finish H asserts s t rest) := by
      simp only [step, hs]
    obtain ⟨hconflict, hassert⟩ := h _ _ hs hst
    have hanswer := hconflict hoccupied
    cases asserts with
    | true => simp [store_asserts hoccupied] at hanswer
    | false => simp [store_eq (.inl rfl)] at hanswer
  · intro h answer s' hs hst
    have hnone := h hs
    simp only [step, hs, finish, store_eq (.inr hnone), Option.some.injEq, Prod.mk.injEq] at hst
    obtain ⟨rfl, -⟩ := hst
    exact ⟨fun hne => absurd hnone hne, by simp⟩

/-- **A step keeps the modules registered**, unless it stores one in an occupied slot. -/
theorem step_registered (h : Registered H s) (hvacant : Vacant H s call)
    (hst : step H asserts s call = some (a, s')) : Registered H s' := by
  cases call with
  | load t =>
    simp only [step] at hst
    split at hst <;> cases hst
    · exact h
    · exact h.of_eq rfl rfl le_rfl
  | finish =>
    simp only [step] at hst
    split at hst
    · cases hst
    · rename_i t rest hs
      have hnone := hvacant rfl t rest hs
      simp only [finish, store_eq (.inr hnone), Option.some.injEq, Prod.mk.injEq] at hst
      obtain ⟨-, rfl⟩ := hst
      exact h.store hnone
  | throw x =>
    simp only [step] at hst
    split at hst <;> cases hst
    exact h.of_eq rfl rfl le_rfl
  | unload t =>
    simp only [step] at hst
    cases hm : occupant H s.irc t with
    | none =>
      rw [unload_empty hm] at hst
      cases hst
      exact h.of_eq rfl rfl le_rfl
    | some m =>
      by_cases hle : m.type ≤ t
      · rw [unload_loaded hm hle] at hst
        cases hst
        exact h.unload hm
      · rw [unload_other hm hle] at hst
        cases hst
        exact h.of_eq rfl rfl le_rfl

/-- Without assertions a module that is stored in an occupied slot replaces what is there. -/
theorem step_kept_iff (h : Registered H s) (hst : step H false s call = some (a, s')) :
    Kept H s' ↔ Vacant H s call := by
  constructor
  · intro hkept hcall t rest hs
    subst hcall
    by_contra hoccupied
    obtain ⟨m, hm⟩ := Option.ne_none_iff_exists'.mp hoccupied
    obtain ⟨hreturned, hbase⟩ := (h.occupants _ m).mp hm
    simp only [step, hs, finish, store_eq (.inl rfl), Option.some.injEq, Prod.mk.injEq] at hst
    obtain ⟨-, rfl⟩ := hst
    have hslot := hkept m (List.mem_cons_of_mem _ hreturned)
    rw [hbase, Finmap.lookup_insert] at hslot
    obtain rfl := Option.some.inj hslot
    exact absurd (h.numbered _ hreturned) (lt_irrefl _)
  · exact fun hvacant => (step_registered h hvacant hst).kept

variable (H) in
/-- **Without assertions modules are replaced in all other runs.** -/
theorem kept_iff (calls : List (LoadingCall τ)) :
    (loading H false).AllStates (Kept H) {} calls ↔
      (loading H false).AllSteps (Vacant H) {} calls :=
  Machine.allStates_iff_allSteps (P := Registered H) (fun _ h => h.kept)
    (fun _ _ _ _ h hst => step_kept_iff h hst)
    (fun _ _ _ _ h hst hkept => step_registered h ((step_kept_iff h hst).mp hkept) hst)
    registered_init calls

variable (H asserts) in
/-- **When a loaded module is never replaced.** In every run of nested loads, in a build with
assertions or without, the modules whose load has returned stay in their slots unless they are
unloaded, and a load that finds its slot occupied when it is about to store its module ends in
`module_conflict`, if and only if every constructor that returns finds the slot of its module
empty. -/
theorem never_replaced_iff (calls : List (LoadingCall τ)) :
    (loading H asserts).AllStates (Kept H) {} calls ∧
        (loading H asserts).AllSteps (Fine H asserts) {} calls ↔
      (loading H asserts).AllSteps (Vacant H) {} calls := by
  constructor
  · exact fun h => h.2.imp fun s call => (fine_iff s call).mp
  · intro h
    refine ⟨?_, h.imp fun s call => (fine_iff s call).mpr⟩
    have hregistered : (loading H asserts).AllStates (Registered H) {} calls :=
      Machine.AllSteps.allStates (P := Registered H)
        (fun _ _ _ _ hs hvacant hst => step_registered hs hvacant hst) registered_init h
    exact hregistered.imp fun _ hs => hs.kept

end Runs

/-- After the construction of the context, a user's connection module is loaded, whose constructor
loads the one of the library. -/
def nestedConnections : List (LoadingCall ModuleType) :=
  [.load .eventManager, .finish, .load .userConnection, .load .connection, .finish, .finish]

/-- The answers, the modules whose load has returned, and what is filed as the connection. -/
def summary (asserts : Bool) :
    Option (List (LoadingAnswer ModuleType) × List (Object ModuleType Nat) ×
      Option (Object ModuleType Nat)) :=
  ((loading ModuleType.hierarchy asserts).run {} nestedConnections).map fun r =>
    (r.1, r.2.returned, occupant ModuleType.hierarchy r.2.irc .connection)

/-- With assertions the load of the user's module runs into one, without them it replaces the module
of the library; it does not end in `module_conflict`. -/
theorem connection_replaced :
    summary true = some
      ([.began, .loaded ⟨.eventManager, 0⟩, .began, .began, .loaded ⟨.connection, 1⟩,
          .threw .assertion],
        [⟨.connection, 1⟩, ⟨.eventManager, 0⟩], some ⟨.connection, 1⟩) ∧
    summary false = some
      ([.began, .loaded ⟨.eventManager, 0⟩, .began, .began, .loaded ⟨.connection, 1⟩,
          .loaded ⟨.userConnection, 2⟩],
        [⟨.userConnection, 2⟩, ⟨.connection, 1⟩, ⟨.eventManager, 0⟩],
        some ⟨.userConnection, 2⟩) ∧
    ∀ asserts, ¬((loading ModuleType.hierarchy asserts).AllStates (Kept ModuleType.hierarchy) {}
        nestedConnections ∧
      (loading ModuleType.hierarchy asserts).AllSteps (Fine ModuleType.hierarchy asserts) {}
        nestedConnections) := by
  refine ⟨rfl, rfl, ?_⟩
  rintro (_ | _) ⟨-, hfine⟩
  · have hinner := (((hfine _ _ rfl).2 _ _ rfl).2 _ _ rfl).2
    have houter := (((hinner _ _ rfl).2 _ _ rfl).2 _ _ rfl).1
    cases (houter rfl _ _ _ _ rfl rfl).1 (by decide)
  · have hinner := (((hfine _ _ rfl).2 _ _ rfl).2 _ _ rfl).2
    have houter := (((hinner _ _ rfl).2 _ _ rfl).2 _ _ rfl).1
    cases (houter rfl _ _ _ _ rfl rfl).1 (by decide)

end Loading

end Slirc
