import Slirc.Component.Container

/-!
# A container is a slot for each base type

What a call does is decided by the slot of its base type, and it changes no other slot.

* `slotStep`: what a call does to its slot. `step_eq`: the code does this.
* `operations_independent`: a call that throws changes nothing, and calls for different base types
  do not see each other.
-/

namespace Slirc

open Hierarchy

variable {τ ν : Type} [PartialOrder τ] [DecidableEq τ] [DecidableLE τ]

namespace ContainerOp

/-- The type that is asked for. -/
def type : ContainerOp τ ν → τ
  | .insert t _ | .atOrInsert t _ _ _ | .at_ t | .find t | .has t | .remove t => t

/-- What a call does to an empty slot. -/
def onEmpty : ContainerOp τ ν → ContainerAnswer τ ν × Option (Object τ ν)
  | .insert t (.ok v) => (.component ⟨t, v⟩, some ⟨t, v⟩)
  | .atOrInsert _ u _ (.ok v) => (.component ⟨u, v⟩, some ⟨u, v⟩)
  | .insert _ (.error n) | .atOrInsert _ _ _ (.error n) => (.threw (.foreign n), none)
  | .at_ _ => (.threw (.outOfRange "No such component"), none)
  | .find _ => (.found none, none)
  | .has _ | .remove _ => (.answered false, none)

/-- What a call does to a slot that holds `x`, where `fits` says whether `x` has the type. -/
def onHeld (x : Object τ ν) (fits : Bool) : ContainerOp τ ν →
    ContainerAnswer τ ν × Option (Object τ ν)
  | .insert _ _ => (.threw .componentConflict, some x)
  | .atOrInsert _ _ _ _ | .at_ _ =>
    (if fits then .component x else .threw .componentConflict, some x)
  | .find _ => (.found (if fits then some x else none), some x)
  | .has _ => (.answered fits, some x)
  | .remove _ => if fits then (.answered true, none) else (.threw .componentConflict, some x)

/-- What a call does to the slot of its base type. -/
def slotStep (op : ContainerOp τ ν) : Option (Object τ ν) →
    ContainerAnswer τ ν × Option (Object τ ν)
  | none => op.onEmpty
  | some x => op.onHeld x (decide (x.type ≤ op.type))

omit [DecidableEq τ] in
/-- A call that throws leaves its slot. -/
theorem slotStep_threw (op : ContainerOp τ ν) {slot : Option (Object τ ν)} {x : ContainerFault}
    (h : (op.slotStep slot).1 = .threw x) : (op.slotStep slot).2 = slot := by
  cases slot with
  | none =>
    cases op with
    | insert t value | atOrInsert t u hu value =>
      cases value with
      | ok v => cases h
      | error n => rfl
    | find t | has t | remove t => cases h
    | at_ t => rfl
  | some y =>
    simp only [slotStep] at h ⊢
    generalize decide (y.type ≤ op.type) = fits at h ⊢
    cases op with
    | insert t value | atOrInsert t u hu value | at_ t | find t | has t => rfl
    | remove t =>
      cases fits with
      | true => cases h
      | false => rfl

end ContainerOp

namespace ComponentContainer

variable {H : Hierarchy τ} {c c' : Slots τ ν} {op : ContainerOp τ ν} {answer : ContainerAnswer τ ν}

theorem step_of_ok (h : call H op c = .ok answer c') :
    (machine H).step c op = some (answer, c') := by
  simp only [machine, h]

theorem step_of_error {x : ContainerFault} (h : call H op c = .error x c') (hx : x ≠ .undefined) :
    (machine H).step c op = some (.threw x, c') := by
  cases x with
  | undefined => exact absurd rfl hx
  | _ => simp only [machine, h]

theorem step_onEmpty (hempty : c.lookup (H.base op.type) = none)
    (h : AgreesEmpty H c op.type) :
    (machine H).step c op = some (op.onEmpty.1, put (H.base op.type) op.onEmpty.2 c) := by
  have hkeep : ∀ answer : ContainerAnswer τ ν,
      some (answer, c) = some (answer, put (H.base op.type) none c) := by
    intro answer
    rw [← hempty, put_lookup]
  cases op with
  | insert t value =>
    cases value with
    | ok v => exact step_of_ok (Program.map_ok _ (h.insert_eq v))
    | error n =>
      exact (step_of_error (Program.map_error _ (h.failed t le_rfl n).1) (by simp)).trans (hkeep _)
  | atOrInsert t u hu value =>
    cases value with
    | ok v => exact step_of_ok (Program.map_ok _ (h.atOrInsert_eq u hu v))
    | error n =>
      exact (step_of_error (Program.map_error _ (h.failed u hu n).2) (by simp)).trans (hkeep _)
  | at_ t => exact (step_of_error (Program.map_error _ h.at_eq) (by simp)).trans (hkeep _)
  | find t => exact (step_of_ok (Program.map_ok _ h.find_eq)).trans (hkeep _)
  | has t => exact (step_of_ok (Program.map_ok _ h.has_eq)).trans (hkeep _)
  | remove t => exact (step_of_ok (Program.map_ok _ h.remove_eq)).trans (hkeep _)

/-- The two cases of a slot that is not empty. -/
theorem step_onHeld {x : Object τ ν} (hc : H.Filed c) (hx : c.lookup (H.base op.type) = some x) :
    (machine H).step c op =
      some ((op.onHeld x (decide (x.type ≤ op.type))).1,
        put (H.base op.type) (op.onHeld x (decide (x.type ≤ op.type))).2 c) := by
  have hkeep : ∀ answer : ContainerAnswer τ ν,
      some (answer, c) = some (answer, put (H.base op.type) (some x) c) := by
    intro answer
    rw [← hx, put_lookup]
  by_cases hle : x.type ≤ op.type
  · have h := agreesOn hc hx hle
    rw [decide_eq_true hle]
    cases op with
    | insert t value =>
      exact (step_of_error (Program.map_error _ (h.insert_eq value)) (by simp)).trans (hkeep _)
    | atOrInsert t u hu value =>
      exact (step_of_ok (Program.map_ok _ (h.atOrInsert_eq u value))).trans (hkeep _)
    | at_ t => exact (step_of_ok (Program.map_ok _ h.at_eq)).trans (hkeep _)
    | find t => exact (step_of_ok (Program.map_ok _ h.find_eq)).trans (hkeep _)
    | has t => exact (step_of_ok (Program.map_ok _ h.has_eq)).trans (hkeep _)
    | remove t => exact step_of_ok (Program.map_ok _ h.remove_eq)
  · have h := agreesConflict hc hx hle
    rw [decide_eq_false hle]
    cases op with
    | insert t value =>
      exact (step_of_error (Program.map_error _ (h.insert_eq value)) (by simp)).trans (hkeep _)
    | atOrInsert t u hu value =>
      exact (step_of_error (Program.map_error _ (h.atOrInsert_eq u value)) (by simp)).trans
        (hkeep _)
    | at_ t => exact (step_of_error (Program.map_error _ h.at_eq) (by simp)).trans (hkeep _)
    | find t => exact (step_of_ok (Program.map_ok _ h.find_eq)).trans (hkeep _)
    | has t => exact (step_of_ok (Program.map_ok _ h.has_eq)).trans (hkeep _)
    | remove t => exact (step_of_error (Program.map_error _ h.remove_eq) (by simp)).trans (hkeep _)

theorem step_keeps_filed (hc : H.Filed c) (h : (machine H).step c op = some (answer, c')) :
    H.Filed c' := by
  obtain ⟨answer', c'', hst, hc'⟩ := step_filed hc op
  cases hst.symm.trans h
  exact hc'

/-- **A call acts on the slot of its base type.** -/
theorem step_eq (hc : H.Filed c) (op : ContainerOp τ ν) :
    (machine H).step c op =
      some ((op.slotStep (c.lookup (H.base op.type))).1,
        put (H.base op.type) (op.slotStep (c.lookup (H.base op.type))).2 c) := by
  cases hx : c.lookup (H.base op.type) with
  | none => exact step_onEmpty hx (agreesEmpty hx)
  | some x => exact step_onHeld hc hx

variable (H) in
/-- **Calls are independent.** After any calls on a new container, one that throws changes nothing;
calls for types with different base types leave the slot of the other as it is, and give the same
results and the same contents in either order. -/
theorem operations_independent (ops : List (ContainerOp τ ν)) :
    ∃ answers c, (machine H).run ∅ ops = some (answers, c) ∧
      (∀ op x c', (machine H).step c op = some (.threw x, c') → c' = c) ∧
      ∀ op₁ op₂ : ContainerOp τ ν, H.base op₁.type ≠ H.base op₂.type →
        (∀ answer c', (machine H).step c op₁ = some (answer, c') →
          c'.lookup (H.base op₂.type) = c.lookup (H.base op₂.type)) ∧
        ∃ answer₁ answer₂ c', (machine H).run c [op₁, op₂] = some ([answer₁, answer₂], c') ∧
          (machine H).run c [op₂, op₁] = some ([answer₂, answer₁], c') := by
  obtain ⟨answers, c, hrun, hc⟩ := Machine.run_defined (P := H.Filed)
    (fun _ op hc => step_filed hc op) filed_empty ops
  refine ⟨answers, c, hrun, ?_⟩
  constructor
  · intro op x c' hst
    rw [step_eq hc op] at hst
    obtain ⟨hthrew, rfl⟩ := Prod.mk.inj (Option.some.inj hst)
    rw [op.slotStep_threw hthrew, put_lookup]
  · intro op₁ op₂ hne
    constructor
    · intro answer c' hst
      rw [step_eq hc op₁] at hst
      cases hst
      rw [lookup_put, if_neg hne.symm]
    · have h₁ := step_eq hc op₁
      have h₂ := step_eq hc op₂
      have h₁₂ := step_eq (step_keeps_filed hc h₁) op₂
      have h₂₁ := step_eq (step_keeps_filed hc h₂) op₁
      rw [lookup_put, if_neg hne.symm] at h₁₂
      rw [lookup_put, if_neg hne] at h₂₁
      rw [put_comm hne] at h₂₁
      exact ⟨_, _, _, Machine.run_pair h₁ h₁₂, Machine.run_pair h₂ h₂₁⟩

end ComponentContainer

end Slirc
