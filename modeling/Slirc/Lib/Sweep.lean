import Mathlib.Data.List.Basic

/-!
# Erasing elements while iterating

A loop goes through a container once: it steps over the elements to keep, and erases the others,
where `erase` gives the iterator to the next element. An iterator is given by the elements before it
and those from it on.

* `sweep keep erased before rest s`: the loop, and what it leaves. `erased x left s` is what the
  erasing of `x` does to the state, where `left` are the other elements that are there at this time.
* `visits`: the erased elements, each with those that are left. `sweep_eq`: the loop erases these.
* `map_visits`: every element that is not kept is erased once. `mem_of_keep`, `visits_sublist`: what
  is left at the time.
-/

namespace Sweep

variable {α σ : Type*} (keep : α → Bool)

/-- `while (it != end) if (keep(*it)) ++it; else it = erase(it);` -/
def sweep (erased : α → List α → σ → σ) : List α → List α → σ → List α × σ
  | before, [], s => (before, s)
  | before, x :: rest, s =>
    if keep x then sweep erased (before ++ [x]) rest s
    else sweep erased before rest (erased x (before ++ rest) s)

/-- The erased elements, and what is left when they are. -/
def visits : List α → List α → List (α × List α)
  | _, [] => []
  | before, x :: rest =>
    if keep x then visits (before ++ [x]) rest else (x, before ++ rest) :: visits before rest

variable {keep}

theorem sweep_eq (erased : α → List α → σ → σ) (before rest : List α) (s : σ) :
    sweep keep erased before rest s =
      (before ++ rest.filter keep,
        (visits keep before rest).foldl (fun s v => erased v.1 v.2 s) s) := by
  induction rest generalizing before s with
  | nil => simp [sweep, visits]
  | cons x rest ih =>
    unfold sweep visits
    by_cases hx : keep x = true
    · rw [if_pos hx, if_pos hx, ih, List.filter_cons_of_pos hx, List.append_assoc]
      rfl
    · rw [if_neg hx, if_neg hx, ih, List.filter_cons_of_neg hx]
      rfl

theorem map_visits (before rest : List α) :
    (visits keep before rest).map Prod.fst = rest.filter fun x => !keep x := by
  induction rest generalizing before with
  | nil => rfl
  | cons x rest ih =>
    unfold visits
    by_cases hx : keep x = true
    · rw [if_pos hx, ih, List.filter_cons_of_neg (by simp [hx])]
    · rw [if_neg hx, List.map_cons, ih, List.filter_cons_of_pos (by simp [hx])]

theorem not_keep_of_mem {before rest : List α} {v : α × List α} (h : v ∈ visits keep before rest) :
    keep v.1 = false := by
  have hmem := List.mem_map_of_mem (f := Prod.fst) h
  rw [map_visits, List.mem_filter] at hmem
  simpa using hmem.2

/-- What is left was there before. -/
theorem visits_sublist {before rest : List α} {v : α × List α} (h : v ∈ visits keep before rest) :
    v.2.Sublist (before ++ rest) := by
  induction rest generalizing before with
  | nil => cases h
  | cons x rest ih =>
    unfold visits at h
    have hcons : (before ++ rest).Sublist (before ++ x :: rest) :=
      (List.sublist_cons_self x rest).append_left before
    split at h
    · have hsub := ih h
      rwa [List.append_assoc] at hsub
    · obtain rfl | h := List.mem_cons.mp h
      · exact hcons
      · exact (ih h).trans hcons

/-- The elements that are kept are always left. -/
theorem mem_of_keep {before rest : List α} {v : α × List α} (h : v ∈ visits keep before rest)
    {y : α} (hy : y ∈ before ++ rest) (hkeep : keep y = true) : y ∈ v.2 := by
  induction rest generalizing before with
  | nil => cases h
  | cons x rest ih =>
    unfold visits at h
    split at h
    · exact ih h (by rwa [List.append_assoc])
    · rename_i hx
      have hleft : y ∈ before ++ rest := by
        rw [List.mem_append, List.mem_cons] at hy
        rw [List.mem_append]
        obtain hy | rfl | hy := hy
        · exact .inl hy
        · exact absurd hkeep hx
        · exact .inr hy
      obtain rfl | h := List.mem_cons.mp h
      · exact hleft
      · exact ih h hleft

end Sweep
