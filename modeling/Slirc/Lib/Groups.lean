import Mathlib.Data.List.Forall2
import Mathlib.Order.Lattice

/-!
# Lists in groups

Lists whose elements have a key. `insertBehind key x l` puts `x` behind all elements with the same
key or a smaller one. It is how a list that ascends by the key takes up an element behind its group.

* `insertBehind_perm`, `insertBehind_pairwise`, `insertBehind_filter`: its elements, what holds
  between them, and its groups.
* `eq_of_filter_eq`: a list that ascends is determined by its groups.
* `forall₂_insertBehind`: two lists that are related stay so.
-/

namespace Groups

variable {α β γ : Type*} [LinearOrder β] {key : α → β}

variable (key) in
/-- `x` goes behind its group (module doc). -/
def insertBehind (x : α) (l : List α) : List α :=
  l.filter (key · ≤ key x) ++ x :: l.filter (key x < key ·)

variable (key) in
theorem insertBehind_perm (x : α) (l : List α) : (insertBehind key x l).Perm (x :: l) := by
  refine List.perm_middle.trans (List.Perm.cons x ?_)
  have hnot : l.filter (key x < key ·) = l.filter fun y => !decide (key y ≤ key x) :=
    List.filter_congr fun y _ => by simp only [← decide_not, not_le]
  rw [hnot]
  exact List.filter_append_perm (fun y => decide (key y ≤ key x)) l

/-- A relation that holds towards greater keys. -/
theorem insertBehind_pairwise {R : α → α → Prop} {x : α} {l : List α}
    (hlt : ∀ a b, key a < key b → R a b) (hl : l.Pairwise R)
    (hx : ∀ y ∈ l, key y = key x → R y x) : (insertBehind key x l).Pairwise R := by
  have hle : ∀ y ∈ l.filter (key · ≤ key x), key y ≤ key x ∧ R y x := by
    intro y hy
    obtain ⟨hmem, hle⟩ := List.mem_filter.mp hy
    have hle := of_decide_eq_true hle
    exact ⟨hle, hle.lt_or_eq.elim (hlt y x) (hx y hmem)⟩
  have hgt : ∀ y ∈ l.filter (key x < key ·), key x < key y := fun y hy =>
    of_decide_eq_true (List.mem_filter.mp hy).2
  refine List.pairwise_append.mpr ⟨hl.filter _, ?_, fun y hy z hz => ?_⟩
  · exact List.pairwise_cons.mpr ⟨fun y hy => hlt x y (hgt y hy), hl.filter _⟩
  · rcases List.mem_cons.mp hz with rfl | hz
    · exact (hle y hy).2
    · exact hlt y z ((hle y hy).1.trans_lt (hgt z hz))

variable (key) in
/-- An insertion puts `x` behind its group and leaves the others alone. -/
theorem insertBehind_filter (x : α) (l : List α) (g : β) :
    (insertBehind key x l).filter (key · = g) =
      l.filter (key · = g) ++ if key x = g then [x] else [] := by
  have hsplit : ∀ p : α → Bool, (l.filter p).filter (key · = g) =
      l.filter fun y => decide (key y = g) && p y := fun p => List.filter_filter
  rw [insertBehind, List.filter_append, List.filter_cons, hsplit, hsplit]
  by_cases hg : g ≤ key x
  · have hfront : l.filter (fun y => decide (key y = g) && decide (key y ≤ key x)) =
        l.filter (key · = g) :=
      List.filter_congr fun y _ => by by_cases hy : key y = g <;> simp [hy, hg]
    have hback : l.filter (fun y => decide (key y = g) && decide (key x < key y)) = [] := by
      refine List.filter_eq_nil_iff.mpr fun y _ => ?_
      by_cases hy : key y = g <;> simp [hy, hg]
    rw [hfront, hback]
    simp
  · have hne : key x ≠ g := fun h => hg (le_of_eq h.symm)
    have hfront : l.filter (fun y => decide (key y = g) && decide (key y ≤ key x)) = [] := by
      refine List.filter_eq_nil_iff.mpr fun y _ => ?_
      by_cases hy : key y = g <;> simp [hy, not_le.mp hg]
    have hback : l.filter (fun y => decide (key y = g) && decide (key x < key y)) =
        l.filter (key · = g) :=
      List.filter_congr fun y _ => by by_cases hy : key y = g <;> simp [hy, not_le.mp hg]
    rw [hfront, hback]
    simp [hne]

/-- **A list that ascends is determined by its groups.** -/
theorem eq_of_filter_eq {l m : List α} (hl : l.Pairwise (key · ≤ key ·))
    (hm : m.Pairwise (key · ≤ key ·)) (h : ∀ g, l.filter (key · = g) = m.filter (key · = g)) :
    l = m := by
  induction l generalizing m with
  | nil =>
    cases m with
    | nil => rfl
    | cons b m => simpa using h (key b)
  | cons a l ih =>
    cases m with
    | nil => simpa using h (key a)
    | cons b m =>
      have hmem : ∀ g x, x ∈ a :: l → key x = g → ∃ y ∈ b :: m, key y = g := by
        intro g x hx hg
        have hx : x ∈ (a :: l).filter (key · = g) := List.mem_filter.mpr ⟨hx, by simpa using hg⟩
        rw [h g] at hx
        exact ⟨x, (List.mem_filter.mp hx).1, hg⟩
      have hmem' : ∀ g y, y ∈ b :: m → key y = g → ∃ x ∈ a :: l, key x = g := by
        intro g y hy hg
        have hy : y ∈ (b :: m).filter (key · = g) := List.mem_filter.mpr ⟨hy, by simpa using hg⟩
        rw [← h g] at hy
        exact ⟨y, (List.mem_filter.mp hy).1, hg⟩
      -- both heads have the least key
      have hkey : key a = key b := by
        obtain ⟨y, hy, hya⟩ := hmem (key a) a (by simp) rfl
        obtain ⟨x, hx, hxb⟩ := hmem' (key b) b (by simp) rfl
        refine le_antisymm ?_ ?_
        · rw [← hxb]
          exact (List.mem_cons.mp hx).elim (fun hx => le_of_eq (by rw [hx]))
            (List.rel_of_pairwise_cons hl)
        · rw [← hya]
          exact (List.mem_cons.mp hy).elim (fun hy => le_of_eq (by rw [hy]))
            (List.rel_of_pairwise_cons hm)
      have hhead := h (key a)
      rw [List.filter_cons_of_pos (by simp), List.filter_cons_of_pos (by simp [hkey])] at hhead
      obtain ⟨rfl, -⟩ := List.cons.inj hhead
      refine congrArg (a :: ·) (ih hl.of_cons hm.of_cons fun g => ?_)
      have hg := h g
      rw [List.filter_cons, List.filter_cons] at hg
      split at hg
      · exact (List.cons.inj hg).2
      · exact hg

/-- A list that ascends, with `x` behind its group. -/
theorem eq_insertBehind {x : α} {l m : List α} (hl : l.Pairwise (key · ≤ key ·))
    (hm : m.Pairwise (key · ≤ key ·))
    (h : ∀ g, m.filter (key · = g) = l.filter (key · = g) ++ if key x = g then [x] else []) :
    m = insertBehind key x l := by
  have hins : (insertBehind key x l).Pairwise (key · ≤ key ·) :=
    insertBehind_pairwise (fun _ _ => le_of_lt) hl fun _ _ => le_of_eq
  refine eq_of_filter_eq hm hins fun g => ?_
  rw [h g, insertBehind_filter]

/-- Elements that are related have the same key. -/
theorem forall₂_insertBehind {key' : γ → β} {R : α → γ → Prop} {x : α} {y : γ} {l : List α}
    {m : List γ} (hkey : ∀ a c, R a c → key a = key' c) (h : List.Forall₂ R l m) (hx : R x y) :
    List.Forall₂ R (insertBehind key x l) (insertBehind key' y m) := by
  refine List.rel_append (List.rel_filter (fun {a c} hac => ?_) h)
    (.cons hx (List.rel_filter (fun {a c} hac => ?_) h))
  · simp [hkey a c hac, hkey x y hx]
  · simp [hkey a c hac, hkey x y hx]

end Groups
