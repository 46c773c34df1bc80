import Mathlib.Data.List.Basic

/-!
# `std::vector` and iterator ranges over lists

A vector is the list of its elements, an iterator the position behind `begin()`. An iterator behind
`end()` and an unsigned difference below zero are undefined (`none`), so that a definition over
these operations says where the code it translates relies on a bound.

* `rangeFrom`: the range `[begin() + n, end())`.
* `copyTo`: `std::copy` of a range to `begin() + n`.
* `removeFrom`: `std::remove_if` from `begin() + n` on, and the erasure of what it leaves.
* `findIf`: `std::find_if` with a predicate that may count its calls.
-/

namespace Vec

variable {α : Type*}

/-- The elements of `[begin() + n, end())`. -/
def rangeFrom (v : List α) (n : Nat) : Option (List α) :=
  if n ≤ v.length then some (v.drop n) else none

/-- An unsigned difference that must not wrap. -/
def sub (a b : Nat) : Option Nat := if b ≤ a then some (a - b) else none

/-- `std::copy` of `xs` to `begin() + n`; the target range must lie inside the vector. -/
def copyTo (xs v : List α) (n : Nat) : Option (List α) :=
  if n + xs.length ≤ v.length then some (v.take n ++ xs ++ v.drop (n + xs.length)) else none

/-- `resize(n)`: new elements are `a`. -/
def resize (v : List α) (n : Nat) (a : α) : List α := v.take n ++ List.replicate (n - v.length) a

/-- `std::remove_if(begin() + n, end(), p)` and `erase` of the range from its result on. -/
def removeFrom (v : List α) (n : Nat) (p : α → Bool) : Option (List α) :=
  (rangeFrom v n).map fun r => v.take n ++ r.filter (fun x => !p x)

/-- `std::find_if` over a range: whether an element matched, and the elements that were offered to
the predicate. The predicate may depend on what it was offered before. -/
def findIf (p : List α → α → Bool) : List α → List α → Bool × List α
  | seen, [] => (false, seen)
  | seen, x :: xs => if p seen x then (true, seen ++ [x]) else findIf p (seen ++ [x]) xs

theorem rangeFrom_eq_some {v r : List α} {n : Nat} :
    rangeFrom v n = some r ↔ n ≤ v.length ∧ v.drop n = r := by
  unfold rangeFrom
  split
  · rename_i hn
    simp [hn]
  · rename_i hn
    simp [hn]

theorem rangeFrom_of_le {v : List α} {n : Nat} (h : n ≤ v.length) :
    rangeFrom v n = some (v.drop n) := rangeFrom_eq_some.mpr ⟨h, rfl⟩

/-- A range read after a prefix of its own length. -/
@[simp] theorem rangeFrom_append (u v : List α) : rangeFrom (u ++ v) u.length = some v := by
  rw [rangeFrom_eq_some]
  simp

@[simp] theorem rangeFrom_zero (v : List α) : rangeFrom v 0 = some v := by
  simp [rangeFrom]

theorem sub_of_le {a b : Nat} (h : b ≤ a) : sub a b = some (a - b) := if_pos h

/-- A copy that fits in front of position `n`: everything from there on stays. -/
theorem copyTo_front {xs v : List α} {n : Nat} (hn : n ≤ v.length) (hx : xs.length ≤ n) :
    copyTo xs v (n - xs.length) = some (v.take (n - xs.length) ++ xs ++ v.drop n) := by
  have hsum : n - xs.length + xs.length = n := Nat.sub_add_cancel hx
  unfold copyTo
  rw [hsum, if_pos hn]

theorem resize_grow (v : List α) (k : Nat) (a : α) :
    resize v (v.length + k) a = v ++ List.replicate k a := by
  unfold resize
  rw [List.take_of_length_le (Nat.le_add_right _ _), Nat.add_sub_cancel_left]

/-- A copy into the space that `resize` made behind the elements. -/
theorem copyTo_resize (xs v : List α) (a : α) :
    copyTo xs (resize v (v.length + xs.length) a) v.length = some (v ++ xs) := by
  rw [resize_grow]
  simp [copyTo]

/-- A copy to the front, and the old elements behind it cut off. -/
theorem resize_copyTo_zero {xs v w : List α} (a : α) (h : copyTo xs v 0 = some w) :
    resize w xs.length a = xs := by
  unfold copyTo at h
  split at h
  · cases h
    simp [resize]
  · cases h

theorem copyTo_zero_isSome {xs v : List α} (h : xs.length ≤ v.length) :
    ∃ w, copyTo xs v 0 = some w := by
  unfold copyTo
  rw [if_pos (by omega)]
  exact ⟨_, rfl⟩

theorem removeFrom_of_le {v : List α} {n : Nat} (h : n ≤ v.length) (p : α → Bool) :
    removeFrom v n p = some (v.take n ++ (v.drop n).filter (fun x => !p x)) := by
  simp [removeFrom, rangeFrom_of_le h]

/-- Removal changes the length exactly if an element of the range matches. -/
theorem length_removeFrom {v w : List α} {n : Nat} {p : α → Bool} (h : removeFrom v n p = some w) :
    w.length = v.length ↔ ∀ x ∈ v.drop n, p x = false := by
  obtain ⟨r, hr, rfl⟩ := Option.map_eq_some_iff.mp h
  obtain ⟨hn, rfl⟩ := rangeFrom_eq_some.mp hr
  have hlen : v.length = n + (v.drop n).length := by simp; omega
  rw [List.length_append, List.length_take, Nat.min_eq_left hn, hlen, Nat.add_left_cancel_iff,
    List.length_filter_eq_length_iff]
  simp

/-- Whether the predicate accepts the element at position `k`, after those in front of it. -/
def acceptsAt (p : List α → α → Bool) (xs : List α) (k : Nat) : Bool := xs[k]?.any (p (xs.take k))

/-- **A search offers the elements in order up to the first one that is accepted.** -/
theorem findIf_eq (p : List α → α → Bool) (xs : List α) :
    findIf p [] xs =
      match (List.range xs.length).find? (acceptsAt p xs) with
      | some k => (true, xs.take (k + 1))
      | none => (false, xs) := by
  suffices h : ∀ seen, findIf p seen xs =
      match (List.range xs.length).find? (acceptsAt (fun l => p (seen ++ l)) xs) with
      | some k => (true, seen ++ xs.take (k + 1))
      | none => (false, seen ++ xs) by
    simpa using h []
  induction xs with
  | nil => simp [findIf]
  | cons x xs ih =>
    intro seen
    rw [List.length_cons, List.range_succ_eq_map, List.find?_cons, List.find?_map]
    by_cases hx : p seen x = true
    · simp [findIf, acceptsAt, hx]
    · have hnext : acceptsAt (fun l => p (seen ++ l)) (x :: xs) ∘ Nat.succ =
          acceptsAt (fun l => p (seen ++ [x] ++ l)) xs := by
        funext k
        simp [acceptsAt]
      simp only [findIf, hx, ih, hnext, acceptsAt]
      cases (List.range xs.length).find? _ <;> simp [hx]

end Vec
