import Mathlib.Data.List.Basic

/-!
# Step machines: runs, invariants and simulation

A machine has states `σ`, calls `α` and answers `ω`; one step may be undefined (`none`). A run
feeds a list of calls and collects the answers.

* `run_inv`: a property that every step keeps holds at the end of every run. `run_history`: so does
  one of the calls so far and the state. `run_defined`: runs inside such a property are defined.
* `AllStates`/`AllSteps`: a property of every state a run passes, a guard of every step it takes.
  `allStates_iff_allSteps`: where one step keeps the property exactly under the guard, a run stays
  inside the property exactly if each of its steps meets the guard.
* `AllCalls`: a property of every call a run comes to; `AllCalls.allStates`: what such calls keep.
* `run_length_le`: calls that lower a measure end; `exists_run_to_rest`: they can be made to it.
* `observe`: the machine with a value that is computed along its runs, which stay the same.
* `Simulates`: every step of the machine is matched by a step of another one with the same answer;
  `Simulates.run` carries this over to runs.
-/

/-- A machine with states `σ`, calls `α` and answers `ω` (module doc). -/
structure Machine (σ α ω : Type*) where
  step : σ → α → Option (ω × σ)

namespace Machine

variable {σ τ α ω : Type*} (M : Machine σ α ω)

/-- Feeds the calls in order; the answers of all of them and the state after the last. -/
def run : σ → List α → Option (List ω × σ)
  | s, [] => some ([], s)
  | s, a :: as =>
    match M.step s a with
    | none => none
    | some (o, s') => (run s' as).map fun r => (o :: r.1, r.2)

/-- A run from `s` ends in `s'`. -/
def Reaches (s s' : σ) : Prop := ∃ as os, M.run s as = some (os, s')

/-- `P` holds in every state that the run of `as` from `s` passes. -/
def AllStates (P : σ → Prop) : σ → List α → Prop
  | s, [] => P s
  | s, a :: as => P s ∧ ∀ o s', M.step s a = some (o, s') → AllStates P s' as

/-- Every step that the run of `as` from `s` takes meets the guard `G`. -/
def AllSteps (G : σ → α → Prop) : σ → List α → Prop
  | _, [] => True
  | s, a :: as => ∀ o s', M.step s a = some (o, s') → G s a ∧ AllSteps G s' as

/-- Every call that the run of `as` from `s` comes to meets `G`, also one that is not defined. -/
def AllCalls (G : σ → α → Prop) : σ → List α → Prop
  | _, [] => True
  | s, a :: as => G s a ∧ ∀ o s', M.step s a = some (o, s') → AllCalls G s' as

variable {M}

theorem run_cons {s s' : σ} {a : α} {o : ω} (h : M.step s a = some (o, s')) (as : List α) :
    M.run s (a :: as) = (M.run s' as).map fun r => (o :: r.1, r.2) := by
  simp [run, h]

theorem run_pair {s t u : σ} {a b : α} {o o' : ω} (h : M.step s a = some (o, t))
    (h' : M.step t b = some (o', u)) : M.run s [a, b] = some ([o, o'], u) := by
  rw [run_cons h, run_cons h']
  rfl

/-- The first step of a run that is defined. -/
theorem run_cons_inv {s s' : σ} {a : α} {as : List α} {os : List ω}
    (h : M.run s (a :: as) = some (os, s')) :
    ∃ o t os', M.step s a = some (o, t) ∧ M.run t as = some (os', s') ∧ os = o :: os' := by
  unfold run at h
  split at h
  · cases h
  · rename_i o t hst
    obtain ⟨⟨os', u⟩, hr, he⟩ := Option.map_eq_some_iff.mp h
    cases he
    exact ⟨o, t, os', hst, hr, rfl⟩

/-- A property that every step keeps holds at the end of every run. -/
theorem run_inv {P : σ → Prop} (hstep : ∀ s a o s', P s → M.step s a = some (o, s') → P s')
    {as : List α} {s s' : σ} {os : List ω} (hs : P s) (h : M.run s as = some (os, s')) : P s' := by
  induction as generalizing s os with
  | nil => cases h; exact hs
  | cons a as ih =>
    obtain ⟨o, t, os', hst, hr, -⟩ := run_cons_inv h
    exact ih (hstep s a o t hs hst) hr

theorem Reaches.inv {P : σ → Prop} (hstep : ∀ s a o s', P s → M.step s a = some (o, s') → P s')
    {s s' : σ} (h : M.Reaches s s') (hs : P s) : P s' := by
  obtain ⟨as, os, hr⟩ := h
  exact run_inv hstep hs hr

theorem Reaches.refl (s : σ) : M.Reaches s s := ⟨[], [], rfl⟩

/-- A step before a run. -/
theorem Reaches.head {s t u : σ} {a : α} {o : ω} (h : M.step s a = some (o, t))
    (hr : M.Reaches t u) : M.Reaches s u := by
  obtain ⟨as, os, hr⟩ := hr
  exact ⟨a :: as, o :: os, by rw [run_cons h, hr]; rfl⟩

theorem Reaches.single {s t : σ} {a : α} {o : ω} (h : M.step s a = some (o, t)) :
    M.Reaches s t :=
  .head h (.refl t)

/-- A run that is defined reaches its end. -/
theorem reaches_of_isSome {s : σ} {as : List α} (h : (M.run s as).isSome = true)
    (default : List ω × σ) : M.Reaches s ((M.run s as).getD default).2 := by
  obtain ⟨⟨os, s'⟩, hr⟩ := Option.isSome_iff_exists.mp h
  rw [hr]
  exact ⟨as, os, hr⟩

/-- A run after a run. -/
theorem Reaches.trans {s t u : σ} (h₁ : M.Reaches s t) (h₂ : M.Reaches t u) : M.Reaches s u := by
  obtain ⟨as, os, hr⟩ := h₁
  induction as generalizing s os with
  | nil => cases hr; exact h₂
  | cons a as ih =>
    obtain ⟨o, v, os', hst, hr', -⟩ := run_cons_inv hr
    exact .head hst (ih os' hr')

theorem AllStates.head {P : σ → Prop} {s : σ} {as : List α} (h : M.AllStates P s as) : P s := by
  cases as with
  | nil => exact h
  | cons a as => exact h.1

/-- What holds in all states that a run passes holds at its end. -/
theorem AllStates.last {P : σ → Prop} {s s' : σ} {as : List α} {os : List ω}
    (h : M.AllStates P s as) (hrun : M.run s as = some (os, s')) : P s' := by
  induction as generalizing s os with
  | nil => cases hrun; exact h
  | cons a as ih =>
    obtain ⟨o, t, os', hst, hr, -⟩ := run_cons_inv hrun
    exact ih (h.2 o t hst) hr

/-- A property that every step keeps holds in every state that a run passes. -/
theorem allStates_of_step {P : σ → Prop}
    (hstep : ∀ s a o s', P s → M.step s a = some (o, s') → P s') {s : σ} (hs : P s)
    (as : List α) : M.AllStates P s as := by
  induction as generalizing s with
  | nil => exact hs
  | cons a as ih => exact ⟨hs, fun o s' hst => ih (hstep s a o s' hs hst)⟩

/-- What holds of the calls so far and the state, along a run that stays inside `P`. -/
theorem run_history {P : σ → Prop} {I : List α → σ → Prop}
    (hstep : ∀ done s a o s', I done s → P s → P s' → M.step s a = some (o, s') →
      I (done ++ [a]) s')
    {as : List α} {s s' : σ} {os : List ω} (hs : I [] s) (hP : M.AllStates P s as)
    (h : M.run s as = some (os, s')) : I as s' := by
  suffices hgen : ∀ done, I done s → I (done ++ as) s' from hgen [] hs
  clear hs
  induction as generalizing s os with
  | nil =>
    cases h
    intro done hs
    rwa [List.append_nil]
  | cons a as ih =>
    intro done hs
    obtain ⟨o, t, os', hst, hr, -⟩ := run_cons_inv h
    have hrest := hP.2 o t hst
    have hmore := ih hrest hr (done ++ [a]) (hstep done s a o t hs hP.1 hrest.head hst)
    rwa [List.append_assoc] at hmore

/-- **Guarded runs.** `P` strengthens `Q`; from a state in `P` a step leads to `Q` exactly under its
guard, and to `P` if it leads to `Q`. Then a run stays inside `Q` exactly if each of its steps meets
the guard. -/
theorem allStates_iff_allSteps {P Q : σ → Prop} {G : σ → α → Prop} (hPQ : ∀ s, P s → Q s)
    (hstep : ∀ s a o s', P s → M.step s a = some (o, s') → (Q s' ↔ G s a))
    (hkeep : ∀ s a o s', P s → M.step s a = some (o, s') → Q s' → P s')
    {s : σ} (hs : P s) (as : List α) : M.AllStates Q s as ↔ M.AllSteps G s as := by
  induction as generalizing s with
  | nil => simp [AllStates, AllSteps, hPQ s hs]
  | cons a as ih =>
    constructor
    · rintro ⟨-, h⟩ o s' hst
      have hQ := (h o s' hst).head
      exact ⟨(hstep s a o s' hs hst).mp hQ,
        (ih (hkeep s a o s' hs hst hQ)).mp (h o s' hst)⟩
    · intro h
      refine ⟨hPQ s hs, fun o s' hst => ?_⟩
      obtain ⟨hG, hrest⟩ := h o s' hst
      have hQ := (hstep s a o s' hs hst).mpr hG
      exact (ih (hkeep s a o s' hs hst hQ)).mpr hrest

theorem AllSteps.imp {G H : σ → α → Prop} (hGH : ∀ s a, G s a → H s a) {s : σ} {as : List α}
    (h : M.AllSteps G s as) : M.AllSteps H s as := by
  induction as generalizing s with
  | nil => exact h
  | cons a as ih =>
    intro o s' hst
    obtain ⟨hG, hrest⟩ := h o s' hst
    exact ⟨hGH s a hG, ih hrest⟩

theorem AllSteps.and {G H : σ → α → Prop} {s : σ} {as : List α} (hG : M.AllSteps G s as)
    (hH : M.AllSteps H s as) : M.AllSteps (fun s a => G s a ∧ H s a) s as := by
  induction as generalizing s with
  | nil => exact hG
  | cons a as ih =>
    intro o s' hst
    obtain ⟨hone, hrest⟩ := hG o s' hst
    obtain ⟨hone', hrest'⟩ := hH o s' hst
    exact ⟨⟨hone, hone'⟩, ih hrest hrest'⟩

/-- Two guards that agree wherever a run meets a third one. -/
theorem AllSteps.congr {P : σ → Prop} {H G G' : σ → α → Prop}
    (hkeep : ∀ s a o s', P s → H s a → M.step s a = some (o, s') → P s')
    (hiff : ∀ s a o s', P s → H s a → M.step s a = some (o, s') → (G s a ↔ G' s a)) {s : σ}
    (hs : P s) {as : List α}
    (h : M.AllSteps H s as) : M.AllSteps G s as ↔ M.AllSteps G' s as := by
  induction as generalizing s with
  | nil => rfl
  | cons a as ih =>
    have hone : ∀ o s', M.step s a = some (o, s') →
        (G s a ∧ M.AllSteps G s' as ↔ G' s a ∧ M.AllSteps G' s' as) := by
      intro o s' hst
      obtain ⟨hH, hrest⟩ := h o s' hst
      rw [hiff s a o s' hs hH hst, ih (hkeep s a o s' hs hH hst) hrest]
    constructor
    · exact fun hG o s' hst => (hone o s' hst).mp (hG o s' hst)
    · exact fun hG o s' hst => (hone o s' hst).mpr (hG o s' hst)

theorem AllCalls.cons {G : σ → α → Prop} {s s' : σ} {a : α} {o : ω} {as : List α}
    (h : M.step s a = some (o, s')) (hG : G s a) (hrest : M.AllCalls G s' as) :
    M.AllCalls G s (a :: as) := by
  refine ⟨hG, fun o₁ s₁ h₁ => ?_⟩
  cases h.symm.trans h₁
  exact hrest

/-- **Calls along runs**: they all meet `G` exactly if after every run the next one does. -/
theorem allCalls_iff {G : σ → α → Prop} {s : σ} {as : List α} :
    M.AllCalls G s as ↔
      ∀ bs a cs os t, as = bs ++ a :: cs → M.run s bs = some (os, t) → G t a := by
  induction as generalizing s with
  | nil => simp [AllCalls]
  | cons a as ih =>
    constructor
    · rintro ⟨hG, hrest⟩ bs b cs os t hbs hrun
      cases bs with
      | nil =>
        cases hrun
        cases hbs
        exact hG
      | cons c bs =>
        obtain ⟨rfl, rfl⟩ := List.cons.inj hbs
        obtain ⟨o, u, os', hst, hr, -⟩ := run_cons_inv hrun
        exact ih.mp (hrest o u hst) bs b cs os' t rfl hr
    · intro h
      refine ⟨h [] a as [] s rfl rfl, fun o u hst => ih.mpr fun bs b cs os t hbs hr => ?_⟩
      exact h (a :: bs) b cs (o :: os) t (by rw [hbs]; rfl) (by rw [run_cons hst, hr]; rfl)

/-- Two properties of calls that agree in the states that runs reach. -/
theorem AllCalls.congr {P : σ → Prop} {G G' : σ → α → Prop}
    (hkeep : ∀ s a o s', P s → M.step s a = some (o, s') → P s')
    (hiff : ∀ s a, P s → (G s a ↔ G' s a)) {s : σ} (hs : P s) (as : List α) :
    M.AllCalls G s as ↔ M.AllCalls G' s as := by
  induction as generalizing s with
  | nil => rfl
  | cons a as ih =>
    refine and_congr (hiff s a hs) (forall_congr' fun o => forall_congr' fun s' =>
      forall_congr' fun hst => ?_)
    exact ih (hkeep s a o s' hs hst)

/-- What calls that meet `G` keep holds in every state that a run of such calls passes. -/
theorem AllCalls.allStates {P : σ → Prop} {G : σ → α → Prop}
    (hstep : ∀ s a o s', P s → G s a → M.step s a = some (o, s') → P s') {s : σ} (hs : P s)
    {as : List α} (h : M.AllCalls G s as) : M.AllStates P s as := by
  induction as generalizing s with
  | nil => exact hs
  | cons a as ih =>
    refine ⟨hs, fun o s' hst => ?_⟩
    exact ih (hstep s a o s' hs h.1 hst) (h.2 o s' hst)

/-- What steps that meet `G` keep holds in every state that a run of such steps passes. -/
theorem AllSteps.allStates {P : σ → Prop} {G : σ → α → Prop}
    (hstep : ∀ s a o s', P s → G s a → M.step s a = some (o, s') → P s') {s : σ} (hs : P s)
    {as : List α} (h : M.AllSteps G s as) : M.AllStates P s as := by
  induction as generalizing s with
  | nil => exact hs
  | cons a as ih =>
    refine ⟨hs, fun o s' hst => ?_⟩
    obtain ⟨hG, hrest⟩ := h o s' hst
    exact ih (hstep s a o s' hs hG hst) hrest

theorem AllStates.imp {P Q : σ → Prop} (hPQ : ∀ s, P s → Q s) {s : σ} {as : List α}
    (h : M.AllStates P s as) : M.AllStates Q s as := by
  induction as generalizing s with
  | nil => exact hPQ s h
  | cons a as ih => exact ⟨hPQ s h.1, fun o s' hst => ih (h.2 o s' hst)⟩

/-- Where every step inside `P` is defined, and stays inside `P` if it meets its guard, a run whose
steps all meet the guard is defined to its end. -/
theorem AllSteps.defined {P : σ → Prop} {G : σ → α → Prop}
    (hstep : ∀ s a, P s → ∃ o s', M.step s a = some (o, s') ∧ (G s a → P s'))
    {s : σ} (hs : P s) {as : List α} (h : M.AllSteps G s as) :
    ∃ os s', M.run s as = some (os, s') ∧ P s' := by
  induction as generalizing s with
  | nil => exact ⟨[], s, rfl, hs⟩
  | cons a as ih =>
    obtain ⟨o, t, hst, ht⟩ := hstep s a hs
    obtain ⟨hG, hrest⟩ := h o t hst
    obtain ⟨os, s', hr, hs'⟩ := ih (ht hG) hrest
    exact ⟨o :: os, s', by rw [run_cons hst, hr]; rfl, hs'⟩

/-- Where every step inside `P` is defined and stays inside `P`, every run is defined. -/
theorem run_defined {P : σ → Prop} (hstep : ∀ s a, P s → ∃ o s', M.step s a = some (o, s') ∧ P s')
    {s : σ} (hs : P s) (as : List α) : ∃ os s', M.run s as = some (os, s') ∧ P s' := by
  induction as generalizing s with
  | nil => exact ⟨[], s, rfl, hs⟩
  | cons a as ih =>
    obtain ⟨o, t, hst, ht⟩ := hstep s a hs
    obtain ⟨os, s', hr, hs'⟩ := ih ht
    exact ⟨o :: os, s', by rw [run_cons hst, hr]; rfl, hs'⟩

/-- **Termination**: where every call of a kind keeps an invariant and lowers a measure, a run of
such calls is no longer than the measure at its begin. -/
theorem run_length_le {I : σ → Prop} {G : α → Prop} {μ : σ → Nat}
    (hstep : ∀ s a o s', I s → G a → M.step s a = some (o, s') → I s' ∧ μ s' < μ s)
    {as : List α} {s s' : σ} {os : List ω} (hs : I s) (has : ∀ a ∈ as, G a)
    (h : M.run s as = some (os, s')) : as.length + μ s' ≤ μ s := by
  induction as generalizing s os with
  | nil =>
    cases h
    simp
  | cons a as ih =>
    obtain ⟨o, t, os', hst, hr, -⟩ := run_cons_inv h
    obtain ⟨ht, hlt⟩ := hstep s a o t hs (has a List.mem_cons_self) hst
    have hle := ih ht (fun b hb => has b (List.mem_cons_of_mem a hb)) hr
    simp only [List.length_cons]
    omega

/-- Such calls can be made until none of them is defined any more. -/
theorem exists_run_to_rest {I : σ → Prop} {G : α → Prop} {μ : σ → Nat}
    (hstep : ∀ s a o s', I s → G a → M.step s a = some (o, s') → I s' ∧ μ s' < μ s) {s : σ}
    (hs : I s) : ∃ as os s', (∀ a ∈ as, G a) ∧ M.run s as = some (os, s') ∧ I s' ∧
      ∀ a, G a → M.step s' a = none := by
  induction hn : μ s using Nat.strongRecOn generalizing s with
  | ind n ih =>
    by_cases hrest : ∀ a, G a → M.step s a = none
    · exact ⟨[], [], s, by simp, rfl, hs, hrest⟩
    · push Not at hrest
      obtain ⟨a, ha, hne⟩ := hrest
      obtain ⟨⟨o, t⟩, hst⟩ := Option.ne_none_iff_exists'.mp hne
      obtain ⟨ht, hlt⟩ := hstep s a o t hs ha hst
      obtain ⟨as, os, s', has, hr, hs', hlast⟩ := ih (μ t) (hn ▸ hlt) ht rfl
      refine ⟨a :: as, o :: os, s', ?_, by rw [run_cons hst, hr]; rfl, hs', hlast⟩
      exact List.forall_mem_cons.mpr ⟨ha, has⟩

/-- The machine together with an observation, which every step updates. -/
def observe (M : Machine σ α ω) (f : σ → α → σ → τ → τ) : Machine (σ × τ) α ω where
  step p a := (M.step p.1 a).map fun r => (r.1, (r.2, f p.1 a r.2 p.2))

theorem observe_step {f : σ → α → σ → τ → τ} {s s' : σ} {t t' : τ} {a : α} {o : ω} :
    (M.observe f).step (s, t) a = some (o, (s', t')) ↔
      M.step s a = some (o, s') ∧ t' = f s a s' t := by
  constructor
  · intro h
    obtain ⟨⟨o₁, s₁⟩, hst, he⟩ := Option.map_eq_some_iff.mp h
    cases he
    exact ⟨hst, rfl⟩
  · rintro ⟨hst, rfl⟩
    exact Option.map_eq_some_iff.mpr ⟨(o, s'), hst, rfl⟩

/-- **An observer changes nothing**: the runs are those of the machine. -/
theorem observe_run (f : σ → α → σ → τ → τ) (s : σ) (t : τ) (as : List α) :
    ((M.observe f).run (s, t) as).map (fun r => (r.1, r.2.1)) = M.run s as := by
  induction as generalizing s t with
  | nil => rfl
  | cons a as ih =>
    cases hst : M.step s a with
    | none =>
      have hobs : (M.observe f).step (s, t) a = none := by simp [observe, hst]
      simp only [run, hst, hobs, Option.map_none]
    | some r =>
      obtain ⟨o, s'⟩ := r
      rw [run_cons hst, run_cons (observe_step.mpr ⟨hst, rfl⟩), ← ih s' (f s a s' t),
        Option.map_map, Option.map_map]
      rfl

theorem observe_reaches {f : σ → α → σ → τ → τ} {p p' : σ × τ} (h : (M.observe f).Reaches p p') :
    M.Reaches p.1 p'.1 := by
  obtain ⟨as, os, hr⟩ := h
  have hrun := observe_run (M := M) f p.1 p.2 as
  rw [hr] at hrun
  exact ⟨as, os, hrun.symm⟩

/-- Every step of `M` is defined and matched by one of `N` with the same answer. -/
def Simulates (M : Machine σ α ω) (N : Machine τ α ω) (R : σ → τ → Prop) : Prop :=
  ∀ s t a, R s t → ∃ o s' t', M.step s a = some (o, s') ∧ N.step t a = some (o, t') ∧ R s' t'

/-- A simulation gives the same answers on every run. -/
theorem Simulates.run {N : Machine τ α ω} {R : σ → τ → Prop} (h : M.Simulates N R) {s : σ} {t : τ}
    (hR : R s t) (as : List α) :
    ∃ os s' t', M.run s as = some (os, s') ∧ N.run t as = some (os, t') ∧ R s' t' := by
  induction as generalizing s t with
  | nil => exact ⟨[], s, t, rfl, rfl, hR⟩
  | cons a as ih =>
    obtain ⟨o, s₁, t₁, hs, ht, hR₁⟩ := h s t a hR
    obtain ⟨os, s', t', hs', ht', hR'⟩ := ih hR₁
    refine ⟨o :: os, s', t', ?_, ?_, hR'⟩
    · rw [run_cons hs, hs']; rfl
    · rw [run_cons ht, ht']; rfl

end Machine
