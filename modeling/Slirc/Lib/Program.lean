import Mathlib.Order.Basic

/-!
# Programs with a state and exceptions

Rules for `EStateM`: what a sequence does, and what a program keeps.

* `bind_ok`, `bind_error`, `bind_congr_run`, `of_bind_ok`, `get_bind`, `modify_bind`: the runs of a
  sequence. `map_ok`, `map_error`, `tryCatch_ok`, `tryCatch_error`: those of a map and of a handler.
* `Keeps r x`: the states before and after `x` are related by the preorder `r`, whether `x` returns
  or throws. It holds of a sequence if it holds of its parts. `Frames m x`: `x` does not change the
  measure `m` of the state.
-/

namespace Program

universe u

variable {ε σ α β : Type u}

theorem bind_ok {x : EStateM ε σ α} {f : α → EStateM ε σ β} {s s' : σ} {a : α}
    (h : x s = .ok a s') : (x >>= f) s = f a s' := by
  show EStateM.bind x f s = f a s'
  simp only [EStateM.bind, h]

theorem bind_error {x : EStateM ε σ α} {f : α → EStateM ε σ β} {s s' : σ} {e : ε}
    (h : x s = .error e s') : (x >>= f) s = .error e s' := by
  show EStateM.bind x f s = .error e s'
  simp only [EStateM.bind, h]

/-- Two programs that do the same may be continued in the same way. -/
theorem bind_congr_run {x y : EStateM ε σ α} {s t : σ} (f : α → EStateM ε σ β) (h : x s = y t) :
    (x >>= f) s = (y >>= f) t := by
  show EStateM.bind x f s = EStateM.bind y f t
  simp only [EStateM.bind, h]

theorem tryCatch_ok {x : EStateM ε σ α} {f : ε → EStateM ε σ α} {s s' : σ} {a : α}
    (h : x s = .ok a s') : (tryCatch x f) s = .ok a s' := by
  show EStateM.tryCatch x f s = .ok a s'
  simp only [EStateM.tryCatch, h]

/-- The handler runs in the state that the exception left. -/
theorem tryCatch_error {x : EStateM ε σ α} {f : ε → EStateM ε σ α} {s s' : σ} {e : ε}
    (h : x s = .error e s') : (tryCatch x f) s = f e s' := by
  show EStateM.tryCatch x f s = f e s'
  simp only [EStateM.tryCatch, h]
  rfl

theorem map_ok {x : EStateM ε σ α} {s s' : σ} {a : α} (f : α → β) (h : x s = .ok a s') :
    (f <$> x) s = .ok (f a) s' := by
  show EStateM.map f x s = .ok (f a) s'
  simp only [EStateM.map, h]

theorem map_error {x : EStateM ε σ α} {s s' : σ} {e : ε} (f : α → β) (h : x s = .error e s') :
    (f <$> x) s = .error e s' := by
  show EStateM.map f x s = .error e s'
  simp only [EStateM.map, h]

/-- The parts of a sequence that returns. -/
theorem of_bind_ok {x : EStateM ε σ α} {f : α → EStateM ε σ β} {s s' : σ} {b : β}
    (h : (x >>= f) s = .ok b s') : ∃ a s₁, x s = .ok a s₁ ∧ f a s₁ = .ok b s' := by
  cases hx : x s with
  | ok a s₁ => exact ⟨a, s₁, rfl, (bind_ok hx).symm.trans h⟩
  | error e s₁ =>
    rw [bind_error hx] at h
    cases h

theorem get_bind {f : σ → EStateM ε σ β} (s : σ) : (get >>= f) s = f s s := rfl

theorem modify_bind {g : σ → σ} {f : PUnit → EStateM ε σ β} (s : σ) :
    (modify g >>= f) s = f PUnit.unit (g s) := rfl

/-- The state that a program leaves, by a return or by an exception. -/
def final : EStateM.Result ε σ α → σ
  | .ok _ s => s
  | .error _ s => s

/-! ## What a program keeps -/

/-- Whether it returns or throws, `x` leaves a state that `r` relates to the one before. -/
def Keeps (r : σ → σ → Prop) (x : EStateM ε σ α) : Prop := ∀ s, r s (final (x s))

section Keeps

variable {r : σ → σ → Prop} [IsPreorder σ r]

theorem keeps_pure (a : α) : Keeps r (pure a : EStateM ε σ α) := fun s => refl_of r s

theorem keeps_throw (e : ε) : Keeps r (throw e : EStateM ε σ α) := fun s => refl_of r s

theorem Keeps.bind {x : EStateM ε σ α} {f : α → EStateM ε σ β} (hx : Keeps r x)
    (hf : ∀ a, Keeps r (f a)) : Keeps r (x >>= f) := by
  intro s
  have hfirst := hx s
  cases h : x s with
  | ok a s₁ =>
    rw [h] at hfirst
    rw [bind_ok h]
    exact trans_of r hfirst (hf a s₁)
  | error e s₁ =>
    rw [h] at hfirst
    rwa [bind_error h]

theorem Keeps.forM {γ : Type*} {f : γ → EStateM ε σ PUnit} {l : List γ}
    (hf : ∀ c ∈ l, Keeps r (f c)) : Keeps r (l.forM f) := by
  induction l with
  | nil => exact keeps_pure _
  | cons c l ih =>
    have hrest := ih fun d hd => hf d (List.mem_cons_of_mem c hd)
    exact (hf c List.mem_cons_self).bind fun _ => hrest

end Keeps

section Measure

variable {τ : Type*} {m : σ → τ}

/-- `x` does not change the measure. -/
abbrev Frames (m : σ → τ) (x : EStateM ε σ α) : Prop := Keeps (fun s s' => m s' = m s) x

instance isPreorder_eq (m : σ → τ) : IsPreorder σ fun s s' => m s' = m s where
  refl _ := rfl
  trans _ _ _ h₁ h₂ := h₂.trans h₁

end Measure

end Program
