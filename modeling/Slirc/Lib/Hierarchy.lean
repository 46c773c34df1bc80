import Mathlib.Data.Finmap
import Mathlib.Order.Basic

/-!
# Objects filed under the base types of their types

Types are ordered by derivation: `t ≤ u` says that `t` is `u` or derived from it. In a `Hierarchy`
every type is below one base type, and a type has the base type of those that it is derived from.

`Slots` has room for one object per base type; `put` sets one of them. `Filed` says that every
object lies in the slot of its own base type; then the objects that a type could mean are all in one
slot.
-/

/-- Types with their base types (module doc). -/
structure Hierarchy (τ : Type*) [PartialOrder τ] where
  base : τ → τ
  le_base : ∀ t, t ≤ base t
  base_eq : ∀ {t u}, t ≤ u → base t = base u

namespace Hierarchy

variable {τ ν : Type*}

/-- An object of a dynamic type. -/
structure Object (τ ν : Type*) where
  type : τ
  val : ν
  deriving DecidableEq, Repr

/-- A slot for each key. -/
abbrev Slots (τ ν : Type*) := Finmap fun _ : τ => Object τ ν

variable [PartialOrder τ] (H : Hierarchy τ)

/-- What is below a base type. -/
theorem le_iff_base_eq {b : τ} (hb : H.base b = b) (t : τ) : t ≤ b ↔ H.base t = b := by
  constructor
  · intro h
    rw [H.base_eq h, hb]
  · rintro rfl
    exact H.le_base t

variable [DecidableEq τ]

/-- Every object is in the slot of its base type. -/
def Filed (s : Slots τ ν) : Prop := ∀ k x, s.lookup k = some x → H.base x.type = k

variable {H} {s : Slots τ ν}

theorem filed_empty : H.Filed (∅ : Slots τ ν) := by
  intro k x h
  simp at h

theorem Filed.insert (h : H.Filed s) {t : τ} {x : Object τ ν} (hx : H.base x.type = H.base t) :
    H.Filed (Finmap.insert (H.base t) x s) := by
  intro k y hy
  by_cases hk : k = H.base t
  · rw [hk, Finmap.lookup_insert] at hy
    cases hy
    rw [hk, hx]
  · rw [Finmap.lookup_insert_of_ne _ hk] at hy
    exact h k y hy

theorem Filed.erase (h : H.Filed s) (b : τ) : H.Filed (Finmap.erase b s) := by
  intro k y hy
  by_cases hk : k = b
  · rw [hk, Finmap.lookup_erase] at hy
    cases hy
  · rw [Finmap.lookup_erase_ne hk] at hy
    exact h k y hy

/-- A slot is filled anew, or emptied. -/
def put (k : τ) (o : Option (Object τ ν)) (s : Slots τ ν) : Slots τ ν :=
  match o with
  | some x => Finmap.insert k x s
  | none => Finmap.erase k s

omit [PartialOrder τ] in
theorem lookup_put (k l : τ) (o : Option (Object τ ν)) (s : Slots τ ν) :
    (put k o s).lookup l = if l = k then o else s.lookup l := by
  by_cases hl : l = k
  · rw [if_pos hl, hl]
    cases o with
    | none => exact Finmap.lookup_erase k s
    | some x => exact Finmap.lookup_insert s
  · rw [if_neg hl]
    cases o with
    | none => exact Finmap.lookup_erase_ne hl
    | some x => exact Finmap.lookup_insert_of_ne s hl

omit [PartialOrder τ] in
theorem put_lookup (k : τ) (s : Slots τ ν) : put k (s.lookup k) s = s := by
  refine Finmap.ext_lookup fun l => ?_
  rw [lookup_put]
  split
  · rename_i hl
    rw [hl]
  · rfl

omit [PartialOrder τ] in
/-- Different slots are independent. -/
theorem put_comm {k l : τ} (h : k ≠ l) (o p : Option (Object τ ν)) (s : Slots τ ν) :
    put k o (put l p s) = put l p (put k o s) := by
  refine Finmap.ext_lookup fun i => ?_
  simp only [lookup_put]
  by_cases hk : i = k
  · have hl : i ≠ l := fun hl => h (hk.symm.trans hl)
    simp only [if_pos hk, if_neg hl]
  · simp only [if_neg hk]

/-- **There is at most one object for each base type.** -/
theorem Filed.unique (h : H.Filed s) {k l : τ} {x y : Object τ ν} (hx : s.lookup k = some x)
    (hy : s.lookup l = some y) (hbase : H.base x.type = H.base y.type) : k = l ∧ x = y := by
  have hkl : k = l := by rw [← h k x hx, hbase, h l y hy]
  subst hkl
  rw [hx] at hy
  exact ⟨rfl, Option.some.inj hy⟩

end Hierarchy
