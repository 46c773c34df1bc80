import Slirc.Irc.Modules
import Slirc.Lib.Sweep

/-!
# The destruction of a context (`src/irc.cpp`)

`~irc` goes through the modules twice: the first time it erases all but the event manager, the
second time all that are left. A module is destroyed when it is erased, and its destructor may look
at the context and act on the rest of the program (`ω`), but does not load or unload modules.

* `destruct`: the two loops, over the entries of the map in the order of their keys, which is any.
* `destruct_eq`: which modules they destroy, and what the destructors see.
* `destroyed_once`: every module is destroyed once, and the event manager last.
-/

namespace Slirc

open Hierarchy

/-- The entry of a module in the map. -/
abbrev ModuleEntry (τ ν : Type) := Sigma fun _ : τ => Object τ ν

/-- The modules that were destroyed, each with the context that its destructor saw, and the rest of
the program. -/
structure Destroyed (τ ν ω : Type) where
  modules : List (Object τ ν × Irc τ ν) := []
  world : ω

namespace Irc

variable {τ ν ω : Type} [PartialOrder τ] [DecidableEq τ] (H : ModuleHierarchy τ)

/-- The context that the destructor of a module sees, where the entries `left` are those of the
other modules. Whether the map still has the entry of the module itself is up to the library
(`linked`). -/
def seenBy (linked : Bool) (s : Irc τ ν) (x : ModuleEntry τ ν) (left : List (ModuleEntry τ ν)) :
    Irc τ ν :=
  { s with modules_ := (if linked then x :: left else left).toFinmap }

/-- The destructor of an erased module runs. -/
def destroy (linked : Bool) (destructor : Object τ ν → Irc τ ν → ω → ω) (s : Irc τ ν)
    (x : ModuleEntry τ ν) (left : List (ModuleEntry τ ν)) (d : Destroyed τ ν ω) :
    Destroyed τ ν ω :=
  let seen := seenBy linked s x left
  { modules := d.modules ++ [(x.2, seen)], world := destructor x.2 seen d.world }

/-- `begin->first == typeid(apis::event_manager)` -/
def isEventManager (x : ModuleEntry τ ν) : Bool := decide (x.1 = H.apiEventManager)

/-- `irc::~irc`, with the entries of `modules_` in the order of the map: the entries that are left,
and what was destroyed. -/
def destruct (linked : Bool) (destructor : Object τ ν → Irc τ ν → ω → ω) (s : Irc τ ν)
    (entries : List (ModuleEntry τ ν)) (world : ω) :
    List (ModuleEntry τ ν) × Destroyed τ ν ω :=
  let r := Sweep.sweep (isEventManager H) (destroy linked destructor s) [] entries { world }
  Sweep.sweep (fun _ => false) (destroy linked destructor s) [] r.1 r.2

/-! ## The passes -/

/-- The modules that the first loop erases, and what is left when it does. -/
def firstPass (entries : List (ModuleEntry τ ν)) :
    List (ModuleEntry τ ν × List (ModuleEntry τ ν)) :=
  Sweep.visits (isEventManager H) [] entries

/-- Those that the second loop erases. -/
def secondPass (entries : List (ModuleEntry τ ν)) :
    List (ModuleEntry τ ν × List (ModuleEntry τ ν)) :=
  Sweep.visits (fun _ => false) [] (entries.filter (isEventManager H))

/-- The modules of some erased entries, with what their destructors see. -/
def destroyedIn (linked : Bool) (s : Irc τ ν)
    (vs : List (ModuleEntry τ ν × List (ModuleEntry τ ν))) : List (Object τ ν × Irc τ ν) :=
  vs.map fun v => (v.1.2, seenBy linked s v.1 v.2)

variable {H} {s : Irc τ ν} {linked : Bool} {entries : List (ModuleEntry τ ν)}

omit [PartialOrder τ] in
theorem foldl_destroy (destructor : Object τ ν → Irc τ ν → ω → ω)
    (vs : List (ModuleEntry τ ν × List (ModuleEntry τ ν))) (d : Destroyed τ ν ω) :
    vs.foldl (fun d v => destroy linked destructor s v.1 v.2 d) d =
      { modules := d.modules ++ destroyedIn linked s vs,
        world := (destroyedIn linked s vs).foldl (fun w m => destructor m.1 m.2 w) d.world } := by
  induction vs generalizing d with
  | nil => simp [destroyedIn]
  | cons v vs ih =>
    rw [List.foldl_cons, ih]
    simp [destroy, destroyedIn]

/-- **The two loops** erase all entries, those of the first pass first. -/
theorem destruct_eq (destructor : Object τ ν → Irc τ ν → ω → ω) (world : ω) :
    destruct H linked destructor s entries world =
      ([], { modules := destroyedIn linked s (firstPass H entries ++ secondPass H entries),
             world := (destroyedIn linked s (firstPass H entries ++ secondPass H entries)).foldl
               (fun w m => destructor m.1 m.2 w) world }) := by
  simp only [destruct, Sweep.sweep_eq, foldl_destroy, List.nil_append, List.filter_false]
  simp [destroyedIn, firstPass, secondPass]

variable (H entries) in
/-- Every entry is erased once. -/
theorem passes_perm :
    ((firstPass H entries ++ secondPass H entries).map Prod.fst).Perm entries := by
  have hsecond : (secondPass H entries).map Prod.fst = entries.filter (isEventManager H) := by
    rw [secondPass, Sweep.map_visits]
    simp
  rw [List.map_append, hsecond, firstPass, Sweep.map_visits]
  exact List.perm_append_comm.trans (List.filter_append_perm (isEventManager H) entries)

/-- There is one event manager at most, and the second pass erases it. -/
theorem secondPass_eq (hnodup : entries.NodupKeys) {em : Object τ ν}
    (hem : ⟨H.apiEventManager, em⟩ ∈ entries) :
    secondPass H entries = [(⟨H.apiEventManager, em⟩, [])] := by
  have hfilter : entries.filter (isEventManager H) = [⟨H.apiEventManager, em⟩] := by
    refine List.perm_singleton.mp ((List.perm_ext_iff_of_nodup (hnodup.nodup.filter _)
      (List.nodup_singleton _)).mpr fun x => ?_)
    rw [List.mem_filter, List.mem_singleton, isEventManager, decide_eq_true_iff]
    constructor
    · exact fun hx => hnodup.eq_of_fst_eq hx.1 hem hx.2
    · rintro rfl
      exact ⟨hem, rfl⟩
  rw [secondPass, hfilter]
  rfl

/-- **The event manager is there while the others are destroyed.** -/
theorem seenBy_lookup (hnodup : entries.NodupKeys) {em : Object τ ν}
    (hem : ⟨H.apiEventManager, em⟩ ∈ entries)
    {v : ModuleEntry τ ν × List (ModuleEntry τ ν)} (hv : v ∈ firstPass H entries) :
    (seenBy linked s v.1 v.2).modules_.lookup H.apiEventManager = some em := by
  have hne : H.apiEventManager ≠ v.1.1 := by
    have hkeep := Sweep.not_keep_of_mem hv
    rw [isEventManager, decide_eq_false_iff_not] at hkeep
    exact Ne.symm hkeep
  have hleft : v.2.NodupKeys := hnodup.sublist (Sweep.visits_sublist hv)
  have hmem : ⟨H.apiEventManager, em⟩ ∈ v.2 :=
    Sweep.mem_of_keep hv hem (decide_eq_true rfl)
  have hlookup : v.2.dlookup H.apiEventManager = some em := List.mem_dlookup hleft hmem
  rw [seenBy, Finmap.dlookup_list_toFinmap]
  split
  · rwa [List.dlookup_cons_ne _ _ hne]
  · exact hlookup

variable [DecidableLE τ]

theorem coherent_of_run {v : ν} {ops : List (IrcOp τ ν)} {m : Object τ ν} {s₀ : Irc τ ν}
    {answers : List (IrcAnswer τ ν)} (hmake : make H (.ok v) = .ok m s₀)
    (hrun : (machine H).run s₀ ops = some (answers, s)) : Coherent H s := by
  have hnone : Finmap.lookup (H.base H.implEventManager) (∅ : Slots τ ν) = none :=
    Finmap.lookup_empty _
  obtain ⟨s₁, hload, h₀⟩ := (coherent_empty (H := H)).load hnone v
  rw [make, hload] at hmake
  cases hmake
  refine Machine.run_inv (P := Coherent H) (fun s op answer s' h hst => ?_) h₀ hrun
  obtain ⟨_, t, hst', ht⟩ := step_coherent h op
  rw [hst] at hst'
  cases hst'
  exact ht

variable (H) in
/-- **A context destroys every module once, and the event manager last.** For all modules that a
context can have, and any order of their keys, nothing is left in the map, every module is destroyed
once, and the module that is filed as the event manager is destroyed last: all other destructors
find it, and get it from `event_manager()`. -/
theorem destroyed_once (v : ν) (ops : List (IrcOp τ ν)) {m : Object τ ν} {s₀ s : Irc τ ν}
    {answers : List (IrcAnswer τ ν)} (hmake : make H (.ok v) = .ok m s₀)
    (hrun : (machine H).run s₀ ops = some (answers, s)) (entries : List (ModuleEntry τ ν))
    (horder : (entries : Multiset (ModuleEntry τ ν)) = s.modules_.entries) (linked : Bool)
    (destructor : Object τ ν → Irc τ ν → ω → ω) (world : ω) :
    ∃ d, destruct H linked destructor s entries world = ([], d) ∧
      (d.modules.map Prod.fst).Perm (entries.map Sigma.snd) ∧
      d.world = d.modules.foldl (fun w m => destructor m.1 m.2 w) world ∧
      ∀ em, s.modules_.lookup H.apiEventManager = some em →
        ∃ others seen, d.modules = others ++ [(em, seen)] ∧
          ∀ x ∈ others, x.2.modules_.lookup H.apiEventManager = some em ∧
            eventManager x.2 = .ok em x.2 := by
  have hcoherent := coherent_of_run hmake hrun
  have hnodup : entries.NodupKeys := by
    have hkeys := s.modules_.nodupKeys
    rw [← horder] at hkeys
    exact hkeys
  refine ⟨_, destruct_eq destructor world, ?_, rfl, fun em hem => ?_⟩
  · have hperm := (passes_perm H entries).map Sigma.snd
    rw [List.map_map] at hperm
    rw [destroyedIn, List.map_map]
    exact hperm
  · have hmem : ⟨H.apiEventManager, em⟩ ∈ entries := by
      rw [← Multiset.mem_coe, horder]
      exact Finmap.mem_lookup_iff.mp hem
    refine ⟨destroyedIn linked s (firstPass H entries),
      seenBy linked s ⟨H.apiEventManager, em⟩ [], ?_, fun x hx => ?_⟩
    · simp only [secondPass_eq hnodup hmem, destroyedIn, List.map_append, List.map_singleton]
    · obtain ⟨visit, hvisit, rfl⟩ := List.mem_map.mp hx
      refine ⟨seenBy_lookup hnodup hmem hvisit, ?_⟩
      have hpointer : s.eventManager_ = some em := hcoherent.cached.trans hem
      rw [eventManager, Program.get_bind]
      simp only [seenBy, hpointer]
      rfl

/-- A context with the modules of the library, whose map has the event manager first. -/
def libraryEntries : List (ModuleEntry ModuleType Nat) :=
  [⟨.apiEventManager, ⟨.eventManager, 0⟩⟩, ⟨.apiConnection, ⟨.connection, 1⟩⟩]

def libraryIrc : Irc ModuleType Nat where
  modules_ := Finmap.insert .apiConnection ⟨.connection, 1⟩
    (Finmap.insert .apiEventManager ⟨.eventManager, 0⟩ ∅)
  eventManager_ := some ⟨.eventManager, 0⟩

/-- The destructors queue events: they write down the event manager that they get. -/
def queueing (m : Object ModuleType Nat) (s : Irc ModuleType Nat)
    (log : List (Object ModuleType Nat × Option (Object ModuleType Nat))) :
    List (Object ModuleType Nat × Option (Object ModuleType Nat)) :=
  log ++ [(m, s.eventManager_)]

theorem destroyed_once_library :
    ∃ d, destruct ModuleType.hierarchy false queueing libraryIrc libraryEntries [] = ([], d) ∧
      (d.modules.map Prod.fst).Perm [⟨.eventManager, 0⟩, ⟨.connection, 1⟩] ∧
      d.world = d.modules.foldl (fun w m => queueing m.1 m.2 w) [] ∧
      ∀ em, libraryIrc.modules_.lookup .apiEventManager = some em →
        ∃ others seen, d.modules = others ++ [(em, seen)] ∧
          ∀ x ∈ others, x.2.modules_.lookup .apiEventManager = some em ∧
            eventManager x.2 = .ok em x.2 :=
  destroyed_once ModuleType.hierarchy 0 [.load .connection (.ok 1)] (s := libraryIrc) rfl rfl
    libraryEntries (Multiset.coe_eq_coe.mpr (List.Perm.swap _ _ _)) false queueing []

end Irc

end Slirc
