import Mathlib.Data.List.Chain

/-!
# Walks along a relation

* `Walk R a l b`: from `a` the points of `l` lead to `b`, each related to the one before.
* `Walk.append`: walks are put together. `Walk.last`: what holds of the last point.
* `Walk.iff_isChain`: a walk is a chain with a given last point.
-/

/-- From `a` the points of the list lead to the last one. -/
inductive Walk {α : Type*} (R : α → α → Prop) : α → List α → α → Prop where
  | nil (a : α) : Walk R a [] a
  | cons {a b c : α} {l : List α} : R a b → Walk R b l c → Walk R a (b :: l) c

namespace Walk

variable {α : Type*} {R : α → α → Prop} {a b c : α} {l l' : List α}

theorem single (h : R a b) : Walk R a [b] b := .cons h (.nil b)

theorem append (h : Walk R a l b) (h' : Walk R b l' c) : Walk R a (l ++ l') c := by
  induction h with
  | nil => exact h'
  | cons hR _ ih => exact .cons hR (ih h')

/-- What holds of the first point, and of every point that `R` leads to, holds of the last. -/
theorem last {P : α → Prop} (h : Walk R a l b) (ha : P a) (hR : ∀ x y, R x y → P y) : P b := by
  induction h with
  | nil => exact ha
  | cons hxy _ ih => exact ih (hR _ _ hxy)

theorem iff_isChain : Walk R a l b ↔ List.IsChain R (a :: l) ∧ l.getLastD a = b := by
  constructor
  · intro h
    induction h with
    | nil a => exact ⟨List.isChain_singleton a, rfl⟩
    | cons hR _ ih =>
      obtain ⟨hchain, hlast⟩ := ih
      refine ⟨List.isChain_cons_cons.mpr ⟨hR, hchain⟩, ?_⟩
      rw [List.getLastD_cons]
      exact hlast
  · rintro ⟨hchain, rfl⟩
    induction l generalizing a with
    | nil => exact .nil a
    | cons x l ih =>
      obtain ⟨hR, hrest⟩ := List.isChain_cons_cons.mp hchain
      rw [List.getLastD_cons]
      exact .cons hR (ih hrest)

end Walk
