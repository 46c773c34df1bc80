import Mathlib.Logic.Function.Basic
import Mathlib.Data.List.Basic

/-!
# Scopes that set a variable

A scope gives a variable a value, and gives it the old one back when it ends. Scopes are nested: the
innermost one ends first.

* `Scope.Held initial scopes vals`: `vals` are the values of the variables inside of `scopes`, which
  were entered where the values were `initial`.
* `Held.enter`, `Held.leave`: the two ways in which the scopes change.
* `Held.value`: a variable has the value of its innermost scope, and its initial value outside of
  all of its scopes.
-/

/-- A scope: the variable, its value, and the value that the end of the scope gives back to it. -/
structure Scope (ι ν : Type*) where
  key : ι
  value : ν
  saved : ν
  deriving DecidableEq, Repr

namespace Scope

variable {ι ν : Type*} [DecidableEq ι]

/-- The value that the innermost scope of a variable gives to it. -/
def innermost : List (Scope ι ν) → ι → Option ν
  | [], _ => none
  | x :: scopes, k => if x.key = k then some x.value else innermost scopes k

/-- The values inside of some scopes, of which the innermost is the first. -/
inductive Held (initial : ι → ν) : List (Scope ι ν) → (ι → ν) → Prop
  | outside : Held initial [] initial
  | enter {scopes : List (Scope ι ν)} {vals : ι → ν} (k : ι) (v : ν) : Held initial scopes vals →
    Held initial (⟨k, v, vals k⟩ :: scopes) (Function.update vals k v)

variable {initial vals : ι → ν} {scopes : List (Scope ι ν)}

theorem Held.leave {x : Scope ι ν} (h : Held initial (x :: scopes) vals) :
    Held initial scopes (Function.update vals x.key x.saved) := by
  cases h with
  | enter k v h => rwa [Function.update_idem, Function.update_eq_self]

/-- **A variable has the value of its innermost scope.** -/
theorem Held.value (h : Held initial scopes vals) (k : ι) :
    vals k = (innermost scopes k).getD (initial k) := by
  induction h with
  | outside => rfl
  | enter l v _ ih =>
    by_cases hl : l = k
    · subst hl
      rw [innermost, if_pos rfl, Function.update_self, Option.getD_some]
    · rw [innermost, if_neg hl, Function.update_of_ne (Ne.symm hl), ih]

end Scope
