import Slirc.EventManager.Nesting

/-!
# How `handle` comes to its end

Every pass of the loops of `handle` may queue new ids, so they have no measure of their own. What
ends them is a budget: a dispatch for a queued id uses up a pending one, and every other dispatch
but three comes after such a dispatch.

* `Comes`: the dispatches of a call of `handle`, by `Place.next`.
* `Comes.account`: how many there are, in terms of the ids that are pending at first and are added.
* `Comes.dispatches`: the loops of `handle` make these dispatches.
* `handle_terminates`: with a bound for the added ids `handle` ends.
-/

namespace Slirc

variable {ε κ : Type}

/-- The number of ids that are pending on an event. -/
def World.waiting (e : ε) (w : World ε κ) : Nat :=
  (w.events e).idQueue.queuedIds.length - (w.events e).idQueue.nextIdIndex

/-- By how many ids the queue of `e` has grown, over dispatches that are given by the worlds before
and after. This is at most the number of ids that `queue_as` adds in them (`waiting_call`). -/
def grown (e : ε) : List (World ε κ × World ε κ) → Nat
  | [] => 0
  | d :: ds => d.2.waiting e - d.1.waiting e + grown e ds

theorem grown_snoc (e : ε) (ds : List (World ε κ × World ε κ)) (w w' : World ε κ) :
    grown e (ds ++ [(w, w')]) = grown e ds + (w'.waiting e - w.waiting e) := by
  induction ds with
  | nil => simp [grown]
  | cons d ds ih =>
    rw [List.cons_append, grown, grown, ih, Nat.add_assoc]

theorem World.Holds.waiting {w : World ε κ} {e : ε} {p : Pending} (h : w.Holds e p) :
    w.waiting e = p.ids.length := by
  rw [World.waiting, ← (IdQueue.pending_eq_some.mp h).2, List.length_drop]

/-- A call of `queue_as` lets the queue grow by no more than the ids it adds. -/
theorem waiting_call {w w' : World ε κ} {e : ε} {p : Pending} {c : QueueCall} (h : w.Holds e p)
    (h' : w'.Holds e (p.call c).2) : w'.waiting e ≤ w.waiting e + (p.added c).length := by
  have haccount := (p.call_account c).length_eq
  rw [List.length_append, List.length_append] at haccount
  rw [h.waiting, h'.waiting]
  omega

/-- An exception that ends a section of the main queue is one of a consumer that waited there. -/
theorem MainQueue.tryUnqueueLoop_throws {σ : Type} {consume : κ → ε → EStateM Fault σ Bool}
    {ks : List κ} {q : MainQueue ε κ} {s : σ} {x : Fault} {r : MainQueue ε κ × σ}
    (h : tryUnqueueLoop consume ks q s = .error x r) :
    ∃ k ∈ ks, ∃ e s₁ s₂, consume k e s₁ = .error x s₂ := by
  fun_induction tryUnqueueLoop consume ks q s with
  | case1 | case2 => cases h
  | case3 _ _ _ _ _ _ _ _ _ ih | case4 _ _ _ _ _ _ _ _ _ ih =>
    obtain ⟨k, hk, hthrows⟩ := ih h
    exact ⟨k, List.mem_cons_of_mem _ hk, hthrows⟩
  | case5 k ks q s e rest hq y t hc =>
    cases h
    exact ⟨k, List.mem_cons_self, e, s, t, hc⟩

theorem flush_throws [DecidableEq ε] {consume : κ → ε → EStateM Fault (ε → EventObj ε) Bool}
    {e : ε} {w w' : World ε κ} {x : Fault} (h : flushAfterwards consume e w = .error x w') :
    ∃ k ∈ w.main.queueConsumers, ∃ f s₁ s₂, consume k f s₁ = .error x s₂ := by
  unfold flushAfterwards at h
  split at h
  · cases h
  · split at h <;> cases h
    rename_i hmain
    unfold Exec.onMain MainQueue.flush MainQueue.tryUnqueue at hmain
    split at hmain <;> cases hmain
    rename_i hunqueue
    split at hunqueue <;> cases hunqueue
    rename_i hloop
    obtain ⟨k, hk, hthrows⟩ := MainQueue.tryUnqueueLoop_throws hloop
    exact ⟨k, List.mem_of_mem_drop hk, hthrows⟩

namespace Place

/-- The ids that are popped for a dispatch at a place. -/
def pops : Place → Nat
  | .queued => 1
  | .beginning | .finishing | .finished => 0

/-- How many dispatches may be made before, beyond two for each popped id. -/
def slack : Place → Nat
  | .beginning | .queued => 0
  | .finishing => 1
  | .finished => 2

end Place

section Code

variable [DecidableEq ε] {signals : IdType → ε → Exec ε κ Unit} {e : ε} {w w₁ w₂ w₃ : World ε κ}

theorem waiting_set_pop (w : World ε κ) (e : ε) :
    (w.set e { w.events e with idQueue := (w.events e).idQueue.popNextQueuedId.2 }).waiting e +
      (if (w.events e).idQueue.popNextQueuedId.1.isValid then 1 else 0) ≤ w.waiting e := by
  simp only [World.waiting, World.set_events_self, IdQueue.popNextQueuedId]
  split
  · split <;> simp only <;> omega
  · simp [IdType.isValid_invalid]

/-- **How `handle` goes on**: what a pop takes away, and what makes up for the dispatch. -/
theorem Place.next_account {place place' : Place} {id : IdType}
    (h : place.next e w = some (place', id, w')) :
    w'.waiting e + place'.pops ≤ w.waiting e ∧
      place.slack + 1 ≤ 2 * place'.pops + place'.slack := by
  have hpop := waiting_set_pop w e
  cases place with
  | beginning | queued | finishing =>
    simp only [Place.next] at h
    split at h <;> rename_i hv <;> cases h
    · rw [if_pos hv] at hpop
      exact ⟨hpop, by simp [pops, slack]⟩
    · rw [if_neg hv] at hpop
      exact ⟨hpop, by simp [pops, slack]⟩
  | finished => cases h

theorem Place.next_isSome {place : Place} (h : place ≠ .finished) (w : World ε κ) :
    ∃ place' id w', place.next e w = some (place', id, w') := by
  cases place with
  | beginning | queued | finishing =>
    simp only [Place.next]
    split <;> exact ⟨_, _, _, rfl⟩
  | finished => exact absurd rfl h

/-- A call of `handle` in `w` comes to a dispatch, after the dispatches `ds`, which have
returned. -/
inductive Comes (signals : IdType → ε → Exec ε κ Unit) (e : ε) (w : World ε κ) :
    List (World ε κ × World ε κ) → Place → IdType → World ε κ → Prop
  | start : Comes signals e w [] .beginning Events.beginHandling w
  | next {ds : List (World ε κ × World ε κ)} {place place' : Place} {id id' : IdType}
    {w₁ w₂ w₃ : World ε κ} : Comes signals e w ds place id w₁ →
      handleAs signals e id w₁ = .ok () w₂ → place.next e w₂ = some (place', id', w₃) →
      Comes signals e w (ds ++ [(w₁, w₂)]) place' id' w₃

namespace Comes

variable {ds : List (World ε κ × World ε κ)} {place : Place} {id : IdType}

/-- **The account of the dispatches**: `k` of them are for queued ids, each of which was pending at
first or was added. -/
theorem account (h : Comes signals e w ds place id w₁) :
    ∃ k, k + w₁.waiting e ≤ w.waiting e + grown e ds ∧ ds.length ≤ 2 * k + place.slack := by
  induction h with
  | start => exact ⟨0, by simp [grown], by simp⟩
  | @next ds place place' id id' w₁ w₂ w₃ _ _ hnext ih =>
    obtain ⟨k, hbudget, hlength⟩ := ih
    obtain ⟨hpop, hslack⟩ := Place.next_account hnext
    refine ⟨k + place'.pops, ?_, ?_⟩
    · rw [grown_snoc]
      omega
    · rw [List.length_append, List.length_singleton]
      omega

/-- If all dispatches return and add at most `n` ids, there is an end to them. -/
theorem length_le (h : Comes signals e w ds place id w₁) {n : Nat} (hn : grown e ds ≤ n) :
    ds.length ≤ 2 * (w.waiting e + n) + 2 := by
  obtain ⟨k, hbudget, hlength⟩ := h.account
  have hslack : place.slack ≤ 2 := by cases place <;> simp [Place.slack]
  omega

end Comes

/-! ## The loops -/

section Rest

variable (signals) (e)

/-- The outer loop behind a dispatch for `finishing_handling`, with `n` passes left. -/
def again (n : Nat) : Exec ε κ Unit := do
  let next ← popNext e
  if next.isValid then rounds signals e n next

/-- The code of `handle` behind a dispatch, with `m` passes of the inner loop left, and `n` of the
outer one. -/
def Place.rest (m n : Nat) : Place → Exec ε κ Unit
  | .beginning => do
    rounds signals e n (← popNext e)
    handleAs signals e Events.finishedHandling
  | .queued => do
    drain signals e m (← popNext e)
    handleAs signals e Events.finishingHandling
    again signals e n
    handleAs signals e Events.finishedHandling
  | .finishing => do
    again signals e n
    handleAs signals e Events.finishedHandling
  | .finished => pure ()

/-- The places in the order of the passes of the loops. -/
def Place.rank : Place → Nat
  | .finished => 0
  | .finishing => 1
  | .queued => 2
  | .beginning => 3

/-- The order of the loops: passes of the outer one first, passes of the inner one last. -/
abbrev PassesLex : Nat × Nat × Nat → Nat × Nat × Nat → Prop :=
  Prod.Lex (· < ·) (Prod.Lex (· < ·) (· < ·))

theorem drain_valid {id : IdType} (h : id.isValid = true) (n : Nat) :
    drain signals e (n + 1) id =
      (handleAs signals e id >>= fun _ => popNext e >>= drain signals e n) := by
  rw [drain, if_pos h]

theorem drain_invalid {id : IdType} (h : ¬id.isValid = true) (n : Nat) :
    drain signals e n id = pure () := by
  cases n <;> rw [drain, if_neg h]

theorem rounds_eq (n : Nat) (id : IdType) :
    rounds signals e (n + 1) id = (drain signals e (n + 1) id >>= fun _ =>
      handleAs signals e Events.finishingHandling >>= fun _ => again signals e n) := rfl

end Rest

variable (signals) in
/-- **A pass of the loops**: they make the next dispatch, unless no passes are left. Those that are
left then are fewer than before by one at most, and fewer in the order of the loops. -/
theorem Place.rest_next {place place' : Place} {id : IdType}
    (h : place.next e w = some (place', id, w')) (m n : Nat) :
    ((m = 0 ∨ n = 0) ∧ ∃ s, place.rest signals e m n w = .error .cutOff s) ∨
      ∃ m' n', min m n ≤ min m' n' + 1 ∧ PassesLex (n', place'.rank, m') (n, place.rank, m) ∧
        place.rest signals e m n w =
          (handleAs signals e id >>= fun _ => place'.rest signals e m' n') w' := by
  have hpop : popNext e w = .ok (w.events e).idQueue.popNextQueuedId.1
    (w.set e { w.events e with idQueue := (w.events e).idQueue.popNextQueuedId.2 }) := rfl
  cases place with
  | beginning =>
    simp only [Place.next] at h
    rw [rest, Program.bind_ok hpop]
    cases n with
    | zero => exact .inl ⟨.inr rfl, _, rfl⟩
    | succ n =>
      rw [rounds_eq]
      split at h <;> rename_i hv <;> cases h
      · refine .inr ⟨n, n, by omega, .left _ _ (by omega), ?_⟩
        simp only [drain_valid signals e hv, bind_assoc, rest]
      · refine .inr ⟨n, n, by omega, .left _ _ (by omega), ?_⟩
        simp only [drain_invalid signals e hv, bind_assoc, rest, pure_bind]
  | queued =>
    simp only [Place.next] at h
    rw [rest, Program.bind_ok hpop]
    split at h <;> rename_i hv <;> cases h
    · cases m with
      | zero =>
        refine .inl ⟨.inl rfl, ?_⟩
        rw [drain, if_pos hv]
        exact ⟨_, rfl⟩
      | succ m =>
        refine .inr ⟨m, n, by omega, .right _ (.right _ (by omega)), ?_⟩
        simp only [drain_valid signals e hv, bind_assoc, rest]
    · refine .inr ⟨m, n, by omega, .right _ (.left _ _ (by decide)), ?_⟩
      simp only [drain_invalid signals e hv, rest, pure_bind]
  | finishing =>
    simp only [Place.next] at h
    rw [rest, again, bind_assoc, Program.bind_ok hpop]
    split at h <;> rename_i hv <;> cases h
    · rw [if_pos hv]
      cases n with
      | zero => exact .inl ⟨.inr rfl, _, rfl⟩
      | succ n =>
        refine .inr ⟨n, n, by omega, .left _ _ (by omega), ?_⟩
        simp only [rounds_eq, drain_valid signals e hv, bind_assoc, rest]
    · refine .inr ⟨m, n, by omega, .right _ (.left _ _ (by decide)), ?_⟩
      simp only [if_neg hv, rest, pure_bind, bind_pure_unit]
  | finished => cases h

namespace Comes

variable {ds : List (World ε κ × World ε κ)} {place : Place} {id : IdType}

/-- **The loops make the dispatches that the call comes to**, with enough passes. -/
theorem dispatches (h : Comes signals e w ds place id w₁) (k : Nat) :
    ∃ m n, k ≤ m ∧ k ≤ n ∧ Slirc.dispatches signals (ds.length + k) e w =
      (handleAs signals e id >>= fun _ => place.rest signals e m n) w₁ := by
  induction h generalizing k with
  | start => exact ⟨k, k, le_rfl, le_rfl, by rw [List.length_nil, Nat.zero_add]; rfl⟩
  | @next ds place place' id id' w₁ w₂ w₃ _ hreturn hnext ih =>
    obtain ⟨m, n, hm, hn, hcode⟩ := ih (k + 1)
    obtain ⟨hnone, -⟩ | ⟨m', n', hless, -, hrest⟩ := Place.rest_next signals hnext m n
    · omega
    refine ⟨m', n', by omega, by omega, ?_⟩
    rw [List.length_append, List.length_singleton, Nat.add_assoc, Nat.add_comm 1, hcode,
      Program.bind_ok hreturn, hrest]

/-- A dispatch that returns is followed by another one, unless it is for `finished_handling`. -/
theorem goes_on (h : Comes signals e w ds place id w₁) (hplace : place ≠ .finished)
    (hreturn : handleAs signals e id w₁ = .ok () w₂) :
    ∃ place' id' w₃, Comes signals e w (ds ++ [(w₁, w₂)]) place' id' w₃ := by
  obtain ⟨place', id', w₃, hnext⟩ := Place.next_isSome hplace (e := e) w₂
  exact ⟨place', id', w₃, h.next hreturn hnext⟩

/-- If every dispatch returns, and there cannot be more than `bound` of them, then the call comes to
`finished_handling`. -/
theorem finishes {bound : Nat}
    (hreturns : ∀ ds place id w', Comes signals e w ds place id w' →
      ∃ w'', handleAs signals e id w' = .ok () w'')
    (hbound : ∀ ds place id w', Comes signals e w ds place id w' → ds.length ≤ bound) :
    ∃ ds id w', Comes signals e w ds .finished id w' := by
  -- by induction on the number of dispatches that are left
  suffices hgo : ∀ k ds place id w₁, Comes signals e w ds place id w₁ → bound < ds.length + k →
      ∃ ds id w', Comes signals e w ds .finished id w' from
    hgo (bound + 1) [] .beginning Events.beginHandling w .start (by simp)
  intro k
  induction k with
  | zero =>
    intro ds place id w₁ h hk
    exact absurd (hbound ds place id w₁ h) (by omega)
  | succ k ih =>
    intro ds place id w₁ h hk
    by_cases hplace : place = .finished
    · subst hplace
      exact ⟨ds, id, w₁, h⟩
    · obtain ⟨w₂, hreturn⟩ := hreturns ds place id w₁ h
      obtain ⟨place', id', w₃, hgo⟩ := h.goes_on hplace hreturn
      refine ih _ place' id' w₃ hgo ?_
      rw [List.length_append, List.length_singleton]
      omega

end Comes

/-- **`handle` terminates if the handlers queue finitely many ids.** Let every dispatch of a call
return, and let no beginning of the call add more than `n` ids, whatever else the handlers do. Then
the call makes no more than `2 * (pending + n) + 3` dispatches, the last of them for
`finished_handling`, and returns, unless a consumer that waits at the main queue then throws when it
gets an afterwards event. -/
theorem handle_terminates (consume : κ → ε → EStateM Fault (ε → EventObj ε) Bool)
    (signals : IdType → ε → Exec ε κ Unit) (e : ε) (w : World ε κ) (n : Nat)
    (hreturns : ∀ ds place id w', Comes signals e w ds place id w' →
      ∃ w'', handleAs signals e id w' = .ok () w'')
    (hadds : ∀ ds place id w', Comes signals e w ds place id w' → grown e ds ≤ n) :
    ∃ ds id w₁ w₂, Comes signals e w ds .finished id w₁ ∧
      handleAs signals e id w₁ = .ok () w₂ ∧ ds.length + 1 ≤ 2 * (w.waiting e + n) + 3 ∧
      ((∃ w', ∀ passes, ds.length ≤ passes → handle consume signals passes e w = .ok () w') ∨
        ∃ k ∈ w₂.main.queueConsumers, ∃ f s₁ x s₂ w', consume k f s₁ = .error x s₂ ∧
          ∀ passes, ds.length ≤ passes → handle consume signals passes e w = .error x w') := by
  have hbound : ∀ ds place id w', Comes signals e w ds place id w' →
      ds.length ≤ 2 * (w.waiting e + n) + 2 :=
    fun ds place id w' h => h.length_le (hadds ds place id w' h)
  obtain ⟨ds, id, w₁, hlast⟩ := Comes.finishes hreturns hbound
  obtain ⟨w₂, hreturn⟩ := hreturns ds .finished id w₁ hlast
  have hcode : ∀ passes, ds.length ≤ passes →
      handle consume signals passes e w = flushAfterwards consume e w₂ := by
    intro passes hpasses
    obtain ⟨k, rfl⟩ : ∃ k, passes = ds.length + k := ⟨passes - ds.length, by omega⟩
    obtain ⟨m, n', -, -, hdispatches⟩ := hlast.dispatches k
    rw [Program.bind_ok hreturn] at hdispatches
    rw [handle, Program.bind_ok (hdispatches.trans rfl)]
  have hlength := hbound ds .finished id w₁ hlast
  refine ⟨ds, id, w₁, w₂, hlast, hreturn, by omega, ?_⟩
  cases hflush : flushAfterwards consume e w₂ with
  | ok _ w' => exact .inl ⟨w', fun passes hpasses => (hcode passes hpasses).trans hflush⟩
  | error x w' =>
    obtain ⟨k, hk, f, s₁, s₂, hthrows⟩ := flush_throws hflush
    exact .inr ⟨k, hk, f, s₁, x, s₂, w', hthrows,
      fun passes hpasses => (hcode passes hpasses).trans hflush⟩

end Code

/-- An id is queued in front at the first dispatch. -/
def queueingOnce (w : World Unit Empty) (_ : IdType) (_ : Unit) : List (Deed Unit) :=
  if w.log.length ≤ 1 then [.queueAs (.single (.ofEnum (.user 0) 2) .duplicate .atFront 0)] else []

def queueOnce : IdType → Unit → Exec Unit Empty Unit := handlers noConsumers.consume queueingOnce

theorem handleAs_queueOnce {w : World Unit Empty} {p : Pending} (h : w.Holds () p) (id : IdType) :
    ∃ w' q, handleAs queueOnce () id w = .ok () w' ∧ w'.Holds () q ∧ w'.log ≠ [] ∧
      w'.waiting () - w.waiting () ≤ if w.log = [] then 1 else 0 := by
  let w₁ := w.dispatching () id
  let c : QueueCall := .single (.ofEnum (.user 0) 2) .duplicate .atFront 0
  let calls : List QueueCall := if w.log = [] then [c] else []
  have hw₁ : w₁.Holds () p := by simpa [World.Holds, World.dispatching, w₁] using h
  have hdeeds : queueingOnce w₁ id () = calls.map Deed.queueAs := by
    by_cases hlog : w.log = [] <;> simp [queueingOnce, w₁, calls, World.dispatching, hlog, c]
  obtain ⟨w₂, hrun, hlog, hw₂⟩ := perform_calls noConsumers.consume hw₁ calls
  have hsig : queueOnce id () w₁ = .ok () w₂ := by
    rw [queueOnce, handlers, Program.get_bind, hdeeds, hrun]
  let w₃ := w₂.set () { w₂.events () with currentId := (w.events ()).currentId }
  have hw₃ : w₃.Holds () (Turn.pendingAfter p calls) := by simpa [World.Holds, w₃] using hw₂
  refine ⟨w₃, _, ?_, hw₃, ?_, ?_⟩
  · simp only [handleAs]
    rw [show (w.set () { w.events () with currentId := id }).record
      (.dispatch () id (w.events ()).idQueue.pending) = w₁ from rfl, hsig]
  · simp [w₃, hlog, w₁, World.dispatching]
  · by_cases hnil : w.log = []
    · have hcall : w₃.Holds () (p.call c).2 := by
        simpa [calls, hnil, Turn.pendingAfter] using hw₃
      have hgrow := waiting_call h hcall
      have hone : (p.added c).length ≤ 1 := List.length_filter_le _ _
      rw [if_pos hnil]
      omega
    · have hsame : w₃.Holds () p := by simpa [calls, hnil, Turn.pendingAfter] using hw₃
      rw [hsame.waiting, h.waiting, if_neg hnil, Nat.sub_self]

def queueOnceWorld : World Unit Empty :=
  { events := fun _ => { idQueue := ⟨[.ofEnum (.user 0) 1], 0⟩ } }

/-- Until the first dispatch one id may be added. -/
theorem comes_queueOnce {ds : List (World Unit Empty × World Unit Empty)} {place : Place}
    {id : IdType} {w : World Unit Empty} (h : Comes queueOnce () queueOnceWorld ds place id w) :
    (∃ p, w.Holds () p) ∧ grown () ds + (if w.log = [] then 1 else 0) ≤ 1 := by
  induction h with
  | start => exact ⟨⟨.one (.ofEnum (.user 0) 1) rfl, rfl⟩, by decide⟩
  | @next ds place place' id id' w₁ w₂ w₃ _ hreturn hnext ih =>
    obtain ⟨⟨p, hp⟩, hbudget⟩ := ih
    obtain ⟨w', q, hreturn', hq, hlog, hgrow⟩ := handleAs_queueOnce hp id
    rw [hreturn] at hreturn'
    cases hreturn'
    have hpopped := Place.next_world hnext
    have hlog₃ : w₃.log ≠ [] := by rwa [hpopped]
    refine ⟨⟨q.pop.2, ?_⟩, ?_⟩
    · simpa [World.Holds, hpopped] using (IdQueue.pop_spec hq).2
    · rw [grown_snoc, if_neg hlog₃]
      omega

theorem handle_terminates_queueOnce :
    ∃ ds id w₁ w₂, Comes queueOnce () queueOnceWorld ds .finished id w₁ ∧
      handleAs queueOnce () id w₁ = .ok () w₂ ∧ ds.length + 1 ≤ 2 * (1 + 1) + 3 ∧
      ((∃ w', ∀ passes, ds.length ≤ passes →
          handle noConsumers.consume queueOnce passes () queueOnceWorld = .ok () w') ∨
        ∃ k ∈ w₂.main.queueConsumers, ∃ f s₁ x s₂ w',
          noConsumers.consume k f s₁ = .error x s₂ ∧ ∀ passes, ds.length ≤ passes →
            handle noConsumers.consume queueOnce passes () queueOnceWorld = .error x w') := by
  refine handle_terminates noConsumers.consume queueOnce () queueOnceWorld 1 ?_ ?_
  · intro ds place id w' h
    obtain ⟨⟨p, hp⟩, -⟩ := comes_queueOnce h
    obtain ⟨w'', -, hreturn, -⟩ := handleAs_queueOnce hp id
    exact ⟨w'', hreturn⟩
  · intro ds place id w' h
    exact (Nat.le_add_right _ _).trans (comes_queueOnce h).2

end Slirc
