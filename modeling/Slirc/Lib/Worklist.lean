import Mathlib.Data.List.Basic
import Mathlib.Data.List.Flatten
import Mathlib.Data.List.Nodup
import Mathlib.Order.WellFounded

/-!
# Worklists with children in front and followers behind

A worklist is taken from the front. Taking `x` puts the list `children x` in front of the rest and
the list `followers x` behind it.

* `Runs xs log ys`: from the list `xs`, the elements `log` are taken, in this order, and `ys` is
  left.
* `preorder`: the pre-order traversal of the tree of children, where the children relation is well
  founded. `Runs.preorder`: an element at the front is followed by the rest of its tree.
* `order n xs`: the trees of the first `n` elements, one after the other, with the followers of
  each tree put behind everything that is there already. `Runs.prefix_order`: every run takes the
  elements in this order.
* `Distinct`: every element has one place it can come from; then it is taken once
  (`Runs.nodup`).
-/

namespace Worklist

variable {α : Type*} (children followers : α → List α)

/-- From `xs`, the elements `log` are taken and `ys` is left. -/
inductive Runs : List α → List α → List α → Prop
  | stop (xs : List α) : Runs xs [] xs
  | take {x : α} {xs log ys : List α} :
    Runs (children x ++ xs ++ followers x) log ys → Runs (x :: xs) (x :: log) ys

variable {children followers}

theorem Runs.trans {xs ys zs log log' : List α} (h : Runs children followers xs log ys)
    (h' : Runs children followers ys log' zs) : Runs children followers xs (log ++ log') zs := by
  induction h with
  | stop => exact h'
  | take _ ih => exact .take (ih h')

/-- A run at its last element. -/
theorem Runs.snoc {xs ys log : List α} {x : α}
    (h : Runs children followers xs log (x :: ys)) :
    Runs children followers xs (log ++ [x]) (children x ++ ys ++ followers x) :=
  h.trans (.take (.stop _))

/-- Of two runs from one list, the longer one goes on from the shorter one. -/
theorem Runs.determined {xs ys zs log log' : List α} (h : Runs children followers xs log ys)
    (h' : Runs children followers xs log' zs) (hle : log.length ≤ log'.length) :
    ∃ more, log' = log ++ more ∧ Runs children followers ys more zs := by
  induction h generalizing log' with
  | stop => exact ⟨log', rfl, h'⟩
  | take _ ih =>
    cases h' with
    | stop => simp at hle
    | take h' =>
      obtain ⟨more, hmore, hrun⟩ := ih h' (by simpa using hle)
      exact ⟨more, by rw [hmore]; rfl, hrun⟩

/-! ## Trees -/

section Tree

variable (hwf : WellFounded fun y x => y ∈ children x)

/-- The pre-order traversal of the tree of children of an element. -/
noncomputable def preorder : α → List α :=
  hwf.fix fun x below => x :: (children x).attach.flatMap fun y => below y.1 y.2

theorem preorder_eq (x : α) : preorder hwf x = x :: (children x).flatMap (preorder hwf) := by
  rw [preorder, WellFounded.fix_eq]
  refine congrArg (x :: ·) ?_
  show (children x).attach.flatMap (fun y => preorder hwf y.1) = _
  rw [List.flatMap_subtype fun _ _ => rfl, List.unattach_attach]
  rfl

/-- **An element at the front is followed by the rest of its tree**, and the followers of all of it
go behind what was there. -/
theorem Runs.preorder (x : α) (rest : List α) :
    Runs children followers (x :: rest) (preorder hwf x)
      (rest ++ (Worklist.preorder hwf x).flatMap followers) := by
  induction x using hwf.induction generalizing rest with
  | _ x ih =>
    -- the trees of the children, one after the other
    have hforest : ∀ ys rest, (∀ y ∈ ys, y ∈ children x) →
        Runs children followers (ys ++ rest) (ys.flatMap (Worklist.preorder hwf))
          (rest ++ (ys.flatMap (Worklist.preorder hwf)).flatMap followers) := by
      intro ys
      induction ys with
      | nil => intro rest _; simpa using Runs.stop rest
      | cons y ys ihys =>
        intro rest hys
        have htree := ih y (hys y (by simp)) (ys ++ rest)
        have hlater := ihys (rest ++ (Worklist.preorder hwf y).flatMap followers)
          fun z hz => hys z (List.mem_cons_of_mem _ hz)
        rw [List.append_assoc] at htree
        simpa using htree.trans hlater
    have hchildren := hforest (children x) (rest ++ followers x) fun _ hy => hy
    rw [preorder_eq]
    refine .take ?_
    simpa using hchildren

/-- The trees of the first `n` elements of a list, and what is left behind them. -/
noncomputable def order (followers : α → List α) : Nat → List α → List α × List α
  | 0, xs => ([], xs)
  | _ + 1, [] => ([], [])
  | n + 1, x :: xs =>
    let r := order followers n (xs ++ (preorder hwf x).flatMap followers)
    (preorder hwf x ++ r.1, r.2)

theorem Runs.order (n : Nat) (xs : List α) :
    Runs children followers xs (order hwf followers n xs).1
      (Worklist.order hwf followers n xs).2 := by
  induction n generalizing xs with
  | zero => exact .stop xs
  | succ n ih =>
    cases xs with
    | nil => exact .stop []
    | cons x xs => exact (Runs.preorder hwf x xs).trans (ih _)

/-- The order has an element for each pass, or leaves nothing. -/
theorem length_order (followers : α → List α) (n : Nat) (xs : List α) :
    n ≤ (order hwf followers n xs).1.length ∨ (order hwf followers n xs).2 = [] := by
  induction n generalizing xs with
  | zero => simp
  | succ n ih =>
    cases xs with
    | nil => exact .inr rfl
    | cons x xs =>
      rcases ih (xs ++ (preorder hwf x).flatMap followers) with h | h
      · refine .inl ?_
        have hpos : 0 < (preorder hwf x).length := by
          rw [preorder_eq]
          exact Nat.succ_pos _
        simp only [order, List.length_append]
        omega
      · exact .inr h

/-- **Every run takes its elements in this order**: it is an initial part of the trees of the first
elements. -/
theorem Runs.prefix_order {xs ys log : List α} (h : Runs children followers xs log ys) :
    log <+: (Worklist.order hwf followers log.length xs).1 := by
  have hord : Runs children followers xs _ _ := .order hwf log.length xs
  rcases Nat.le_total log.length (Worklist.order hwf followers log.length xs).1.length with
    hle | hge
  · obtain ⟨more, hmore, -⟩ := h.determined hord hle
    exact ⟨more, hmore.symm⟩
  · obtain ⟨more, hmore, hrest⟩ := hord.determined h hge
    rcases length_order hwf followers log.length xs with hlen | hnil
    · have hnone : more = [] := by
        have := congrArg List.length hmore
        simp only [List.length_append] at this
        exact List.length_eq_zero_iff.mp (by omega)
      rw [hnone, List.append_nil] at hmore
      exact ⟨[], by simpa using hmore⟩
    · rw [hnil] at hrest
      cases hrest
      exact ⟨[], by simpa using hmore⟩

/-- An element of the list is taken when its turn comes. -/
theorem mem_order (followers : α → List α) {x : α} {xs : List α} (h : x ∈ xs) :
    ∃ n, x ∈ (order hwf followers n xs).1 := by
  obtain ⟨before, behind, rfl⟩ := List.append_of_mem h
  clear h
  refine ⟨before.length + 1, ?_⟩
  induction before generalizing behind with
  | nil => simp [order, preorder_eq hwf x]
  | cons y before ih =>
    have h := ih (behind ++ (preorder hwf y).flatMap followers)
    simp only [List.cons_append, List.length_cons, order, List.mem_append] at h ⊢
    rw [List.append_assoc]
    exact .inr (by simpa using h)

end Tree

/-! ## Distinct elements -/

/-- Every element is in the list at first, or is a child or a follower of one element only, and
once only. -/
structure Distinct (children followers : α → List α) (xs : List α) : Prop where
  nodup : xs.Nodup
  own : ∀ x, (children x ++ followers x).Nodup
  apart : ∀ x y z, z ∈ children x ++ followers x → z ∈ children y ++ followers y → x = y
  first : ∀ x, ∀ y ∈ xs, y ∉ children x ++ followers x

/-- What is true of the elements that were taken and of those that are left. -/
structure Accounted (children followers : α → List α) (first taken left : List α) : Prop where
  nodup : (taken ++ left).Nodup
  origin : ∀ y ∈ taken ++ left, y ∈ first ∨ ∃ x ∈ taken, y ∈ children x ++ followers x

theorem Accounted.take {first taken left : List α} {x : α}
    (hd : Distinct children followers first)
    (h : Accounted children followers first taken (x :: left)) :
    Accounted children followers first (taken ++ [x]) (children x ++ left ++ followers x) := by
  have hperm : (taken ++ [x] ++ (children x ++ left ++ followers x)).Perm
      ((taken ++ x :: left) ++ (children x ++ followers x)) := by
    classical
    rw [List.perm_iff_count]
    intro y
    simp only [List.count_append, List.count_cons, List.count_nil]
    omega
  refine ⟨hperm.nodup_iff.mpr (h.nodup.append (hd.own x) ?_), fun y hy => ?_⟩
  · -- a child of `x` is not there yet
    intro y hy hnew
    rcases h.origin y hy with hf | ⟨z, hz, hfrom⟩
    · exact hd.first x y hf hnew
    · obtain rfl := hd.apart z x y hfrom hnew
      exact (List.nodup_append.mp h.nodup).2.2 z hz z (by simp) rfl
  · rcases List.mem_append.mp (hperm.mem_iff.mp hy) with hold | hnew
    · rcases h.origin y hold with hf | ⟨z, hz, hfrom⟩
      · exact .inl hf
      · exact .inr ⟨z, List.mem_append_left _ hz, hfrom⟩
    · exact .inr ⟨x, by simp, hnew⟩

/-- **Nothing is taken twice**, nor taken and left. -/
theorem Runs.nodup {xs ys log : List α} (hd : Distinct children followers xs)
    (h : Runs children followers xs log ys) : (log ++ ys).Nodup := by
  suffices hrun : ∀ taken left, Runs children followers left log ys →
      Accounted children followers xs taken left →
      Accounted children followers xs (taken ++ log) ys from
    (hrun [] xs h ⟨by simpa using hd.nodup, fun y hy => .inl (by simpa using hy)⟩).nodup
  intro taken left hrun hacc
  clear h
  induction hrun generalizing taken with
  | stop => simpa using hacc
  | take _ ih => simpa using ih (taken ++ [_]) (hacc.take hd)

end Worklist
