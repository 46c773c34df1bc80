import Slirc.EventManager.Terminating

/-!
# Code as runs of nested dispatches

`handle` and `handleAs` are programs that call their handlers as a whole, while the machine
`nesting` makes one call at a time, with the dispatches in progress as its frames. What the handlers
do as runs of the machine (`Plays`), `handle_as` and `handle` with these handlers do too, whether
they return or throw. So code with handlers that dispatch again, to any depth, is a run of it.

* `dispatch_plays`: the handlers of a dispatch, and what `scoped_swap` does at their end.
* `rest_plays`: the loops of `handle`, dispatch by dispatch.
* `nested_plays`: handlers that dispatch again (`nested`) are runs of the machine.
* `nested_currentIds`: code leaves `current_id` of every event as it was.
-/

namespace Slirc

variable {ε κ : Type} {c : Consumers ε κ} {signals : IdType → ε → Exec ε κ Unit} {e : ε}
  {id : IdType} {w w' : World ε κ}

namespace Exec

/-- The call returns or throws, and leaves `w'`. -/
inductive EndsIn (x : Exec ε κ Unit) (w w' : World ε κ) : Prop
  | returns : x w = .ok () w' → EndsIn x w w'
  | throws {t : Fault} : x w = .error t w' → t ≠ .undefined → t ≠ .cutOff → EndsIn x w w'

theorem EndsIn.of_eq {x y : Exec ε κ Unit} {v w w' : World ε κ} (h : x.EndsIn v w')
    (heq : x v = y w) : y.EndsIn w w' := by
  cases h with
  | returns hx => exact .returns (heq.symm.trans hx)
  | throws hx ht₁ ht₂ => exact .throws (heq.symm.trans hx) ht₁ ht₂

/-- A sequence ends where its second part does, or its first part throws. -/
theorem EndsIn.of_bind {x : Exec ε κ Unit} {f : Unit → Exec ε κ Unit}
    (h : EndsIn (x >>= f) w w') :
    (∃ v, x w = .ok () v ∧ (f ()).EndsIn v w') ∨
      ∃ t, x w = .error t w' ∧ t ≠ .undefined ∧ t ≠ .cutOff := by
  cases hx : x w with
  | ok a v => exact .inl ⟨v, rfl, h.of_eq (Program.bind_ok hx)⟩
  | error t v =>
    have hbind : (x >>= f) w = .error t v := Program.bind_error hx
    cases h with
    | returns hr =>
      rw [hbind] at hr
      cases hr
    | throws hr ht₁ ht₂ =>
      rw [hbind] at hr
      cases hr
      exact .inr ⟨t, rfl, ht₁, ht₂⟩

end Exec

namespace Nesting

/-- A step that ends a program. -/
theorem ended_of_endsIn {x : Exec ε κ Unit} (h : x.EndsIn w w') (frames : List (Frame ε)) :
    ∃ a, ended frames (x w) = some (a, { world := w', frames }) := by
  cases h with
  | returns h => exact ⟨.returned, by rw [h]; rfl⟩
  | @throws t h ht₁ ht₂ =>
    refine ⟨.threw t, ?_⟩
    rw [h]
    cases t with
    | undefined => exact absurd rfl ht₁
    | _ => rfl

variable [DecidableEq ε]

/-- Whatever dispatches are in progress, what `x` does is a run of the machine. -/
def Plays (c : Consumers ε κ) (x : Exec ε κ Unit) : Prop :=
  ∀ w w' frames, x.EndsIn w w' →
    (nesting c).Reaches { world := w, frames } { world := w', frames }

theorem plays_pure : Plays c (pure ()) := by
  intro w w' frames h
  cases h with
  | returns h => cases h; exact .refl _
  | throws h => cases h

theorem Plays.bind {x : Exec ε κ Unit} {f : Unit → Exec ε κ Unit} (hx : Plays c x)
    (hf : Plays c (f ())) : Plays c (x >>= f) := by
  intro w w' frames h
  obtain ⟨v, hfirst, hrest⟩ | ⟨t, hthrow, ht₁, ht₂⟩ := h.of_bind
  · exact .trans (hx w v frames (.returns hfirst)) (hf v w' frames hrest)
  · exact hx w w' frames (.throws hthrow ht₁ ht₂)

theorem perform_plays (e : ε) (d : Deed ε) : Plays c (d.perform c.consume e) := by
  intro w w' frames h
  obtain ⟨a, hended⟩ := ended_of_endsIn h frames
  have hst : (nesting c).step { world := w, frames } (.deed e d) =
      some (a, { world := w', frames }) := hended
  exact .single hst

/-- The frame of a dispatch of `e` that begins in `w`. -/
def frameOf (w : World ε κ) (e : ε) (id : IdType) (place : Option Place) : Frame ε :=
  ⟨⟨e, id, (w.events e).currentId⟩, place⟩

/-- **A dispatch.** Its handlers return, and `scoped_swap` gives `current_id` its value back when
the machine leaves them; or they throw, which leaves the dispatch. -/
theorem dispatch_plays (h : Plays c (signals id e)) (place : Option Place)
    (frames : List (Frame ε)) :
    (∀ w', handleAs signals e id w = .ok () w' → ∃ u, restore (frameOf w e id place) u = w' ∧
      (nesting c).Reaches (enter { world := w, frames } e id place)
        { world := u, frames := frameOf w e id place :: frames }) ∧
    ∀ t w', t ≠ .undefined → t ≠ .cutOff → handleAs signals e id w = .error t w' →
      (nesting c).Reaches (enter { world := w, frames } e id place) { world := w', frames } := by
  have hplay := fun u => h (w.dispatching e id) u (frameOf w e id place :: frames)
  unfold handleAs
  cases hs : signals id e (w.dispatching e id) with
  | ok _ u =>
    simp only [World.dispatching] at hs
    refine ⟨fun w' hr => ?_, fun t w' _ _ hr => ?_⟩ <;> simp only [hs] at hr <;> cases hr
    exact ⟨u, rfl, hplay u (.returns hs)⟩
  | error t u =>
    simp only [World.dispatching] at hs
    refine ⟨fun w' hr => ?_, fun t' w' ht₁ ht₂ hr => ?_⟩ <;> simp only [hs] at hr <;> cases hr
    refine .trans (hplay u (.throws hs ht₁ ht₂)) ?_
    have hst : (nesting c).step
        { world := u, frames := frameOf w e id place :: frames } (.throw t) =
        some (.threw t, { world := restore (frameOf w e id place) u, frames }) := rfl
    exact .single hst

/-- `handle_as` with handlers that are runs. -/
theorem handleAs_plays (h : Plays c (signals id e)) : Plays c (handleAs signals e id) := by
  intro w w' frames hend
  obtain ⟨hreturn, hthrow⟩ := dispatch_plays (w := w) h none frames
  have hst : (nesting c).step { world := w, frames } (.handleAs e id) =
      some (.began, enter { world := w, frames } e id none) := rfl
  refine .head hst ?_
  cases hend with
  | returns hr =>
    obtain ⟨u, hu, hreach⟩ := hreturn _ hr
    have hleave : (nesting c).step
        { world := u, frames := frameOf w e id none :: frames } .leave =
        some (.returned, { world := w', frames }) := by
      rw [← hu]
      rfl
    exact .trans hreach (.single hleave)
  | @throws t hr ht₁ ht₂ => exact hthrow t _ ht₁ ht₂ hr

/-- **The rest of `handle`**, behind a dispatch whose handlers have returned. -/
theorem rest_plays (h : ∀ id, Plays c (signals id e)) (m n : Nat) (place : Place)
    {u w' : World ε κ} {f : Frame ε} {frames : List (Frame ε)} (hkey : f.key = e)
    (hplace : f.place = some place)
    (hend : Exec.EndsIn (place.rest signals e m n >>= fun _ => flushAfterwards c.consume e)
      (restore f u) w') :
    (nesting c).Reaches { world := u, frames := f :: frames } { world := w', frames } := by
  have hstep : (nesting c).step { world := u, frames := f :: frames } .leave =
      leave c f frames (restore f u) := rfl
  cases hnext : place.next e (restore f u) with
  | none =>
    have hfinished : place = .finished := by
      by_contra hne
      obtain ⟨place', id', w₁, hsome⟩ := Place.next_isSome hne (e := e) (restore f u)
      rw [hnext] at hsome
      cases hsome
    subst hfinished
    obtain ⟨a, hended⟩ := ended_of_endsIn (hend.of_eq rfl) frames
    have hleave : (nesting c).step { world := u, frames := f :: frames } .leave =
        some (a, { world := w', frames }) := by
      rw [hstep, leave, hplace]
      simp only [hkey, hnext]
      exact hended
    exact .single hleave
  | some r =>
    obtain ⟨place', id', w₁⟩ := r
    have hleave : (nesting c).step { world := u, frames := f :: frames } .leave =
        some (.began, enter { world := w₁, frames } e id' (some place')) := by
      rw [hstep, leave, hplace]
      simp only [hkey, hnext]
    refine .head hleave ?_
    obtain ⟨-, s, hcut⟩ | ⟨m', n', -, hless, hrest⟩ :=
      Place.rest_next signals hnext m n
    · obtain ⟨v, hr, -⟩ | ⟨t, hr, -, ht⟩ := hend.of_bind <;> rw [hcut] at hr <;> cases hr
      exact absurd rfl ht
    have hgo : Exec.EndsIn (handleAs signals e id' >>= fun _ =>
        place'.rest signals e m' n' >>= fun _ => flushAfterwards c.consume e) w₁ w' := by
      refine hend.of_eq ?_
      rw [Program.bind_congr_run _ hrest, bind_assoc]
    obtain ⟨hreturn, hthrow⟩ := dispatch_plays (w := w₁) (h id') (some place') frames
    obtain ⟨w₂, hr, hrest⟩ | ⟨t, hr, ht₁, ht₂⟩ := hgo.of_bind
    · obtain ⟨v, rfl, hreach⟩ := hreturn _ hr
      exact .trans hreach (rest_plays h m' n' place' rfl rfl hrest)
    · exact hthrow t _ ht₁ ht₂ hr
termination_by (n, place.rank, m)
decreasing_by exact hless

/-- **`handle` is a run of the machine**, if its handlers are: whatever dispatches are in progress
when it is called, it returns or throws with the same ones in progress. -/
theorem handle_plays (h : ∀ id, Plays c (signals id e)) (n : Nat) :
    Plays c (handle c.consume signals n e) := by
  intro w w' frames hend
  have hcode : handle c.consume signals n e = handleAs signals e Events.beginHandling >>= fun _ =>
      Place.rest signals e n n .beginning >>= fun _ => flushAfterwards c.consume e := by
    simp only [handle, dispatches, Place.rest, bind_assoc]
  rw [hcode] at hend
  have hst : (nesting c).step { world := w, frames } (.handle e) =
      some (.began, enter { world := w, frames } e Events.beginHandling (some .beginning)) := rfl
  refine .head hst ?_
  obtain ⟨hreturn, hthrow⟩ :=
    dispatch_plays (w := w) (h Events.beginHandling) (some .beginning) frames
  obtain ⟨w₂, hr, hrest⟩ | ⟨t, hr, ht₁, ht₂⟩ := hend.of_bind
  · obtain ⟨v, rfl, hreach⟩ := hreturn _ hr
    exact .trans hreach (rest_plays h n n .beginning rfl rfl hrest)
  · exact hthrow t _ ht₁ ht₂ hr

/-- Code leaves `current_id` of every event as it was, also where it throws. -/
theorem Plays.currentIds {x : Exec ε κ Unit} (h : Plays c x) (hend : x.EndsIn w w') :
    w'.currentIds = w.currentIds := by
  have hheld : Held w { world := w', frames := [] } := Machine.Reaches.inv (P := Held w)
    (fun _ _ _ _ hs hst => step_held hs hst) (h w w' [] hend) Scope.Held.outside
  exact funext fun x => hheld.value x

/-! ## Handlers that dispatch again -/

/-- A call of a handler. -/
inductive Command (ε : Type) where
  | deed (e : ε) (d : Deed ε)
  | handleAs (e : ε) (id : IdType)
  | handle (e : ε) (passes : Nat)
  | throw (n : Nat)
  deriving DecidableEq, Repr

/-- Runs a call, with `signals` as the handlers of what it dispatches. -/
def Command.perform (c : Consumers ε κ) (signals : IdType → ε → Exec ε κ Unit) :
    Command ε → Exec ε κ Unit
  | .deed e d => d.perform c.consume e
  | .handleAs e id => Slirc.handleAs signals e id
  | .handle e passes => Slirc.handle c.consume signals passes e
  | .throw n => MonadExcept.throw (.foreign n)

/-- Handlers that make the calls which `script` lists for a dispatch, to a depth of `d` dispatches
inside of each other. -/
def nested (c : Consumers ε κ) (script : World ε κ → IdType → ε → List (Command ε)) :
    Nat → IdType → ε → Exec ε κ Unit
  | 0, _, _ => pure ()
  | d + 1, id, e => do (script (← get) id e).forM (Command.perform c (nested c script d))

theorem Command.perform_plays (h : ∀ id e, Plays c (signals id e)) (cmd : Command ε) :
    Plays c (cmd.perform c signals) := by
  cases cmd with
  | deed e d => exact Nesting.perform_plays e d
  | handleAs e id => exact handleAs_plays (h id e)
  | handle e passes => exact handle_plays (fun id => h id e) passes
  | throw n =>
    intro w w' frames hend
    cases hend with
    | returns hr => cases hr
    | throws hr => cases hr; exact .refl _

/-- **Handlers that dispatch again, to any depth, are runs of the machine.** -/
theorem nested_plays (script : World ε κ → IdType → ε → List (Command ε)) (d : Nat) (id : IdType)
    (e : ε) : Plays c (nested c script d id e) := by
  induction d generalizing id e with
  | zero => exact plays_pure
  | succ d ih =>
    have hcommands : ∀ cmds : List (Command ε),
        Plays c (cmds.forM (Command.perform c (nested c script d))) := by
      intro cmds
      induction cmds with
      | nil => exact plays_pure
      | cons cmd cmds ihc => exact (Command.perform_plays ih cmd).bind ihc
    intro w w' frames hend
    exact hcommands (script w id e) w w' frames (hend.of_eq rfl)

/-- After a call with handlers that dispatch again, `current_id` of every event is what it was. -/
theorem nested_currentIds (script : World ε κ → IdType → ε → List (Command ε)) (d : Nat)
    (cmd : Command ε) (hend : (cmd.perform c (nested c script d)).EndsIn w w') :
    w'.currentIds = w.currentIds :=
  (Command.perform_plays (nested_plays script d) cmd).currentIds hend

end Nesting

end Slirc
