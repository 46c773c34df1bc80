import Mathlib.Data.List.Forall2
import Mathlib.Data.List.Perm.Basic
import Mathlib.Logic.Relation

/-!
# One element of a list replaced, added or taken out

What `List.set` and `List.eraseIdx` do to the optional values that `filterMap` collects: a
replacement with the same value changes nothing, one that adds a value adds it up to order; an
element that is taken out takes its value with it. `getElem?_snoc`: lookups after an element was
added. `weight`: a sum over the elements. `One`: a step of one element; `chain_of_forall₂`: chains
for all elements make one of lists.
-/

namespace ListUpdate

variable {α β : Type*} {g : α → Option β} {l : List α} {i : Nat} {x y : α}

theorem filterMap_set_same (h : l[i]? = some x) (hg : g y = g x) :
    (l.set i y).filterMap g = l.filterMap g := by
  induction l generalizing i with
  | nil => simp at h
  | cons a l ih =>
    cases i with
    | zero =>
      obtain rfl : a = x := by simpa using h
      simp [List.filterMap_cons, hg]
    | succ i =>
      have hi := ih (i := i) (by simpa using h)
      simp [List.filterMap_cons, hi]

theorem filterMap_set_new {b : β} (h : l[i]? = some x) (hx : g x = none) (hy : g y = some b) :
    ((l.set i y).filterMap g).Perm (l.filterMap g ++ [b]) := by
  induction l generalizing i with
  | nil => simp at h
  | cons a l ih =>
    cases i with
    | zero =>
      obtain rfl : a = x := by simpa using h
      simpa [List.filterMap_cons, hx, hy] using (List.perm_append_singleton b _).symm
    | succ i =>
      have hi := ih (i := i) (by simpa using h)
      cases hga : g a with
      | none => simpa [List.filterMap_cons, hga] using hi
      | some c => simpa [List.filterMap_cons, hga] using hi

/-- A replacement that a function does not see. -/
theorem set_same (h : l[i]? = some x) : l.set i x = l := by
  obtain ⟨hi, rfl⟩ := List.getElem?_eq_some_iff.mp h
  exact List.set_getElem_self hi

theorem map_set_same {f : α → β} (h : l[i]? = some x) (hf : f y = f x) :
    (l.set i y).map f = l.map f := by
  obtain ⟨hi, rfl⟩ := List.getElem?_eq_some_iff.mp h
  rw [List.map_set, hf]
  refine List.ext_getElem? fun j => ?_
  rw [List.getElem?_set]
  split
  · rename_i hij
    subst hij
    simp [hi]
  · rfl

/-- A lookup after an element was added at the end: as before, or the new element. -/
theorem getElem?_snoc (l : List α) (x : α) (i : Nat) :
    (l ++ [x])[i]? = l[i]? ∨ l[i]? = none ∧ (l ++ [x])[i]? = some x := by
  rcases Nat.lt_trichotomy i l.length with hlt | rfl | hgt
  · exact .inl (List.getElem?_append_left hlt)
  · exact .inr ⟨by simp, by simp⟩
  · left
    rw [List.getElem?_eq_none (by simpa using Nat.succ_le_of_lt hgt),
      List.getElem?_eq_none (Nat.le_of_lt hgt)]

/-- A property of all elements survives the replacement by one that has it. -/
theorem forall_mem_set {P : α → Prop} (hl : ∀ a ∈ l, P a) (hy : P y) : ∀ a ∈ l.set i y, P a := by
  intro a ha
  rcases List.mem_or_eq_of_mem_set ha with ha | rfl
  · exact hl a ha
  · exact hy

/-- Where at most one element satisfies `p`, none does when it is taken out. -/
theorem not_of_mem_eraseIdx {p : α → Bool} (h : l[i]? = some x) (hx : p x = true)
    (hone : (l.filter p).length ≤ 1) : ∀ y ∈ l.eraseIdx i, p y = false := by
  obtain ⟨hi, rfl⟩ := List.getElem?_eq_some_iff.mp h
  have hl : l = l.take i ++ l[i] :: l.drop (i + 1) := by simp
  rw [hl, List.filter_append, List.filter_cons_of_pos hx, List.length_append,
    List.length_cons] at hone
  have hbefore : (l.take i).filter p = [] := List.length_eq_zero_iff.mp (by omega)
  have hbehind : (l.drop (i + 1)).filter p = [] := List.length_eq_zero_iff.mp (by omega)
  rw [List.filter_eq_nil_iff] at hbefore hbehind
  intro y hy
  rw [List.eraseIdx_eq_take_drop_succ] at hy
  rcases List.mem_append.mp hy with hy | hy
  · simpa using hbefore y hy
  · simpa using hbehind y hy

/-- An element without a value is taken out. -/
theorem filterMap_eraseIdx_none (h : l[i]? = some x) (hx : g x = none) :
    (l.eraseIdx i).filterMap g = l.filterMap g := by
  obtain ⟨hi, rfl⟩ := List.getElem?_eq_some_iff.mp h
  conv => rhs; rw [← List.take_append_drop i l, List.drop_eq_getElem_cons hi]
  rw [List.eraseIdx_eq_take_drop_succ, List.filterMap_append, List.filterMap_append,
    List.filterMap_cons_none hx]

/-- An element with a value is taken out, and so is its value. -/
theorem filterMap_eraseIdx_some {b : β} (h : l[i]? = some x) (hx : g x = some b) :
    ∃ k, (l.filterMap g)[k]? = some b ∧
      (l.eraseIdx i).filterMap g = (l.filterMap g).eraseIdx k := by
  obtain ⟨hi, rfl⟩ := List.getElem?_eq_some_iff.mp h
  have hl : l.filterMap g =
      (l.take i).filterMap g ++ b :: (l.drop (i + 1)).filterMap g := by
    conv => lhs; rw [← List.take_append_drop i l, List.drop_eq_getElem_cons hi]
    rw [List.filterMap_append, List.filterMap_cons_some hx]
  refine ⟨((l.take i).filterMap g).length, by simp [hl], ?_⟩
  rw [hl, List.eraseIdx_append_of_length_le (Nat.le_refl _), Nat.sub_self,
    List.eraseIdx_zero, List.tail_cons, List.eraseIdx_eq_take_drop_succ, List.filterMap_append]

theorem filterMap_set_none {b : β} (h : l[i]? = some x) (hx : g x = some b) (hy : g y = none) :
    (l.filterMap g).Perm (b :: (l.set i y).filterMap g) := by
  have hlt : i < l.length := (List.getElem?_eq_some_iff.mp h).choose
  have hset : (l.set i y)[i]? = some y := by simp [hlt]
  have hback : (l.set i y).set i x = l := by rw [List.set_set, set_same h]
  have hperm := filterMap_set_new hset hy hx
  rw [hback] at hperm
  exact hperm.trans (List.perm_append_singleton b _)

theorem filterMap_eraseIdx_perm {b : β} (h : l[i]? = some x) (hx : g x = some b) :
    (l.filterMap g).Perm (b :: (l.eraseIdx i).filterMap g) := by
  obtain ⟨hlt, rfl⟩ := List.getElem?_eq_some_iff.mp h
  have hperm := (List.getElem_cons_eraseIdx_perm hlt).symm.filterMap g
  rw [List.filterMap_cons_some hx] at hperm
  exact hperm

/-- The weight of a list: the sum over its elements. -/
def weight (f : α → Nat) : List α → Nat
  | [] => 0
  | a :: l => f a + weight f l

theorem weight_set {f : α → Nat} (h : l[i]? = some x) :
    weight f (l.set i y) + f x = weight f l + f y := by
  induction l generalizing i with
  | nil => simp at h
  | cons a l ih =>
    cases i with
    | zero =>
      obtain rfl : a = x := by simpa using h
      simp only [List.set_cons_zero, weight]
      omega
    | succ i =>
      have hi := ih (i := i) (by simpa using h)
      simp only [List.set_cons_succ, weight]
      omega

theorem weight_eq_zero {f : α → Nat} (h : ∀ a ∈ l, f a = 0) : weight f l = 0 := by
  induction l with
  | nil => rfl
  | cons a l ih =>
    obtain ⟨ha, hl⟩ := List.forall_mem_cons.mp h
    rw [weight, ha, ih hl]

theorem weight_append {f : α → Nat} (l l' : List α) :
    weight f (l ++ l') = weight f l + weight f l' := by
  induction l with
  | nil => simp [weight]
  | cons a l ih => simp [weight, ih, Nat.add_assoc]

theorem weight_eraseIdx {f : α → Nat} (h : l[i]? = some x) :
    weight f (l.eraseIdx i) + f x = weight f l := by
  induction l generalizing i with
  | nil => simp at h
  | cons a l ih =>
    cases i with
    | zero =>
      obtain rfl : a = x := by simpa using h
      exact Nat.add_comm _ _
    | succ i =>
      have hl := ih (i := i) (by simpa using h)
      simp only [List.eraseIdx_cons_succ, weight]
      omega

open Relation

/-- One element is replaced by one that `r` leads to. -/
def One (r : α → α → Prop) (l l' : List α) : Prop :=
  ∃ i x y, l[i]? = some x ∧ r x y ∧ l' = l.set i y

theorem One.cons {r : α → α → Prop} {l l' : List α} (h : One r l l') (a : α) :
    One r (a :: l) (a :: l') := by
  obtain ⟨i, x, y, hi, hr, rfl⟩ := h
  exact ⟨i + 1, x, y, hi, hr, rfl⟩

/-- A chain of one element. -/
theorem chain_set {r : α → α → Prop} (h : l[i]? = some x) (hxy : ReflTransGen r x y) :
    ReflTransGen (One r) l (l.set i y) := by
  obtain ⟨hi, rfl⟩ := List.getElem?_eq_some_iff.mp h
  induction hxy with
  | refl => rw [List.set_getElem_self]
  | @tail y z _ hr ih =>
    refine ih.tail ⟨i, y, z, List.getElem?_set_self hi, hr, ?_⟩
    rw [List.set_set]

theorem chain_of_forall₂ {r : α → α → Prop} {l l' : List α}
    (h : List.Forall₂ (ReflTransGen r) l l') : ReflTransGen (One r) l l' := by
  induction h with
  | nil => exact .refl
  | @cons x y l l' hxy _ ih =>
    have hhead : ReflTransGen (One r) (x :: l) (y :: l) :=
      hxy.lift (· :: l) fun a b hr => ⟨0, a, b, rfl, hr, rfl⟩
    exact hhead.trans (ih.lift (y :: ·) fun _ _ hone => hone.cons y)

end ListUpdate
