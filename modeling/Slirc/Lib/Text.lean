import Mathlib.Data.List.Basic

/-!
# Searching in strings

The search functions of `std::string`, on lists. A position that is not found (`npos`) is `none`.
All of them look for a position at which the rest of the string has a property: `search` from a
position on, `searchBack` from a position down.

* `search_split`, `search_none`: a search for a character splits the string. `search_append`,
  `search_of_not`: it finds where a string is split.
* `searchBack_append`, `searchBack_split`, `searchBack_none`: the same for a search from behind.
* `find_append`, `find_split`, `find_eq_none`: the first occurrence of a pattern.
-/

namespace Text

variable {α : Type*}

/-- The first position from `pos` on at which the rest of the string satisfies `p`. -/
def search (p : List α → Bool) (s : List α) (pos : Nat) : Option Nat :=
  (List.range' pos (s.length + 1 - pos)).find? fun i => p (s.drop i)

/-- The last position up to `pos` at which the rest of the string satisfies `p`. -/
def searchBack (p : List α → Bool) (s : List α) (pos : Nat) : Option Nat :=
  (List.range (min pos s.length + 1)).reverse.find? fun i => p (s.drop i)

/-- A string begins with a character that satisfies `q`. -/
def startsWith (q : α → Bool) : List α → Bool
  | [] => false
  | c :: _ => q c

section Std

variable [DecidableEq α]

/-- `s.find(pattern, pos)` -/
def find (s pattern : List α) (pos : Nat) : Option Nat := search pattern.isPrefixOf s pos

/-- `s.find_first_of(chars, pos)` -/
def findFirstOf (s chars : List α) (pos : Nat) : Option Nat :=
  search (startsWith fun c => decide (c ∈ chars)) s pos

/-- `s.find_first_not_of(chars, pos)` -/
def findFirstNotOf (s chars : List α) (pos : Nat) : Option Nat :=
  search (startsWith fun c => decide (c ∉ chars)) s pos

/-- `s.find_last_not_of(chars, pos)` -/
def findLastNotOf (s chars : List α) (pos : Nat) : Option Nat :=
  searchBack (startsWith fun c => decide (c ∉ chars)) s pos

/-- `s.rfind(c, pos)` -/
def rfind (s : List α) (c : α) (pos : Nat) : Option Nat :=
  searchBack (startsWith (· == c)) s pos

end Std

/-- `s.substr(pos, n)` for a position in the string. -/
def substr (s : List α) (pos n : Nat) : List α := (s.drop pos).take n

theorem search_eq_some {p : List α → Bool} {s : List α} {pos i : Nat} :
    search p s pos = some i ↔
      p (s.drop i) = true ∧ (pos ≤ i ∧ i ≤ s.length) ∧
        ∀ j, pos ≤ j → j < i → p (s.drop j) = false := by
  have hrange : pos ≤ i ∧ i < pos + (s.length + 1 - pos) ↔ pos ≤ i ∧ i ≤ s.length := by omega
  simp [search, List.mem_range'_1, hrange]

/-- A search for a character that satisfies `q` passes characters that do not. -/
theorem search_split {q : α → Bool} {s : List α} {pos i : Nat}
    (h : search (startsWith q) s pos = some i) :
    ∃ l c t, s.drop pos = l ++ c :: t ∧ (∀ x ∈ l, q x = false) ∧ q c = true ∧
      i = pos + l.length ∧ s.drop i = c :: t := by
  obtain ⟨hq, ⟨hle, hlen⟩, hfirst⟩ := search_eq_some.mp h
  cases hi : s.drop i with
  | nil =>
    rw [hi] at hq
    cases hq
  | cons c t =>
    rw [hi] at hq
    have hlt : i < s.length := by
      by_contra hc
      rw [List.drop_of_length_le (by omega)] at hi
      cases hi
    refine ⟨(s.drop pos).take (i - pos), c, t, ?_, fun x hx => ?_, hq, ?_, rfl⟩
    · rw [← hi, show s.drop i = (s.drop pos).drop (i - pos) by
        rw [List.drop_drop, Nat.add_sub_cancel' hle], List.take_append_drop]
    · obtain ⟨k, hk, rfl⟩ := List.getElem_of_mem hx
      simp only [List.length_take, List.length_drop] at hk
      have hj := hfirst (pos + k) (by omega) (by omega)
      rw [List.drop_eq_getElem_cons (by omega)] at hj
      simpa [startsWith] using hj
    · simp only [List.length_take, List.length_drop]
      omega

/-- A search for a character that satisfies `q` fails. -/
theorem search_none {q : α → Bool} {s : List α} {pos : Nat}
    (h : search (startsWith q) s pos = none) : ∀ x ∈ s.drop pos, q x = false := by
  intro x hx
  obtain ⟨k, hk, rfl⟩ := List.getElem_of_mem hx
  simp only [List.length_drop] at hk
  have hj : ∀ i, pos ≤ i → i < pos + (s.length + 1 - pos) → _ := List.find?_range'_eq_none.mp h
  have hk' := hj (pos + k) (by omega) (by omega)
  rw [List.drop_eq_getElem_cons (by omega)] at hk'
  simpa [startsWith] using hk'

/-- The converse of `search_split`. -/
theorem search_append {q : α → Bool} (a : List α) {b : List α} {c : α} (t : List α)
    (hb : ∀ x ∈ b, q x = false) (hc : q c = true) :
    search (startsWith q) (a ++ (b ++ c :: t)) a.length = some (a.length + b.length) := by
  refine search_eq_some.mpr ⟨?_, ⟨Nat.le_add_right _ _, by simp⟩, fun j hle hlt => ?_⟩
  · rw [← List.append_assoc, ← List.length_append, List.drop_left]
    exact hc
  · obtain ⟨k, rfl⟩ := Nat.exists_eq_add_of_le hle
    have hk : k < b.length := by omega
    rw [List.drop_length_add_append, List.drop_append_of_le_length (Nat.le_of_lt hk),
      List.drop_eq_getElem_cons hk]
    exact hb _ (List.getElem_mem hk)

/-- The converse of `search_none`. -/
theorem search_of_not {q : α → Bool} {s : List α} {pos : Nat} (h : ∀ x ∈ s.drop pos, q x = false) :
    search (startsWith q) s pos = none := by
  refine List.find?_eq_none.mpr fun j hj => ?_
  obtain ⟨hle, -⟩ := List.mem_range'_1.mp hj
  obtain ⟨k, rfl⟩ := Nat.exists_eq_add_of_le hle
  rw [← List.drop_drop]
  cases hk : (s.drop pos).drop k with
  | nil => simp [startsWith]
  | cons c t =>
    have hmem : c ∈ s.drop pos := List.drop_subset k _ (by rw [hk]; exact List.mem_cons_self)
    simp [startsWith, h c hmem]

theorem find_singleton [DecidableEq α] (s : List α) (c : α) (pos : Nat) :
    find s [c] pos = search (startsWith fun x => x == c) s pos := by
  unfold find
  congr 1
  funext t
  cases t with
  | nil => rfl
  | cons x t => simp [startsWith, List.isPrefixOf, Bool.beq_comm]

/-! ## Searches from behind -/

theorem find?_reverse_range {p : Nat → Bool} {n i : Nat} :
    (List.range (n + 1)).reverse.find? p = some i ↔
      p i = true ∧ i ≤ n ∧ ∀ j, i < j → j ≤ n → p j = false := by
  induction n with
  | zero =>
    simp only [Nat.zero_add, List.range_one, List.reverse_singleton, List.find?_singleton]
    grind
  | succ n ih =>
    rw [List.range_succ, List.reverse_append, List.reverse_singleton, List.singleton_append,
      List.find?_cons]
    grind

theorem searchBack_eq_some {p : List α → Bool} {s : List α} {pos i : Nat} :
    searchBack p s pos = some i ↔
      p (s.drop i) = true ∧ i ≤ min pos s.length ∧
        ∀ j, i < j → j ≤ min pos s.length → p (s.drop j) = false :=
  find?_reverse_range

/-- A search from behind for a character that satisfies `q` passes characters that do not. -/
theorem searchBack_append {q : α → Bool} {a b t : List α} {c : α} {pos : Nat} (hc : q c = true)
    (hb : ∀ x ∈ b, q x = false) (hle : a.length ≤ pos)
    (hpos : t = [] ∨ pos ≤ a.length + b.length) :
    searchBack (startsWith q) (a ++ c :: (b ++ t)) pos = some a.length := by
  refine searchBack_eq_some.mpr ⟨by simp [startsWith, hc], by simp; omega, fun j hlt hj => ?_⟩
  obtain ⟨k, rfl⟩ := Nat.exists_eq_add_of_lt hlt
  rw [Nat.add_assoc, List.drop_length_add_append, List.drop_succ_cons]
  by_cases hk : k < b.length
  · rw [List.drop_append_of_le_length (Nat.le_of_lt hk), List.drop_eq_getElem_cons hk]
    exact hb _ (List.getElem_mem hk)
  · -- the end of the string
    obtain rfl : t = [] := hpos.resolve_right fun hpos => by omega
    rw [List.drop_of_length_le (by simp; omega)]
    rfl

/-- The converse of `searchBack_append`, for a search from the end. -/
theorem searchBack_split {q : α → Bool} {s : List α} {pos i : Nat} (hpos : s.length ≤ pos)
    (h : searchBack (startsWith q) s pos = some i) :
    ∃ l c t, s = l ++ c :: t ∧ q c = true ∧ (∀ x ∈ t, q x = false) ∧ i = l.length := by
  obtain ⟨hq, hle, hafter⟩ := searchBack_eq_some.mp h
  rw [Nat.min_eq_right hpos] at hle hafter
  cases hi : s.drop i with
  | nil =>
    rw [hi] at hq
    cases hq
  | cons c t =>
    rw [hi] at hq
    refine ⟨s.take i, c, t, ?_, hq, fun x hx => ?_, (List.length_take_of_le hle).symm⟩
    · rw [← hi, List.take_append_drop]
    · obtain ⟨k, hk, rfl⟩ := List.getElem_of_mem hx
      have hlen := congrArg List.length hi
      simp only [List.length_drop, List.length_cons] at hlen
      have hj := hafter (i + (k + 1)) (by omega) (by omega)
      rw [← List.drop_drop, hi, List.drop_succ_cons, List.drop_eq_getElem_cons hk] at hj
      exact hj

/-- A search from behind fails if no character up to `pos` satisfies `q`. -/
theorem searchBack_none {q : α → Bool} {s : List α} {pos : Nat}
    (h : ∀ x ∈ s.take (pos + 1), q x = false) : searchBack (startsWith q) s pos = none := by
  refine List.find?_eq_none.mpr fun j hj => ?_
  rw [List.mem_reverse, List.mem_range] at hj
  by_cases hlt : j < s.length
  · rw [List.drop_eq_getElem_cons hlt]
    have hmem : s[j] ∈ s.take (pos + 1) :=
      List.mem_take_iff_getElem.mpr ⟨j, by omega, rfl⟩
    simp [startsWith, h _ hmem]
  · rw [List.drop_of_length_le (by omega)]
    simp [startsWith]

/-! ## Patterns -/

section Find

variable [DecidableEq α]

/-- The first occurrence of a pattern whose first character does not recur in it. -/
theorem find_append {c : α} {ps l : List α} (t : List α) (hc : c ∉ ps) (h : ¬c :: ps <:+: l) :
    find (l ++ c :: ps ++ t) (c :: ps) 0 = some l.length := by
  refine search_eq_some.mpr ⟨?_, ⟨Nat.zero_le _, by simp⟩, fun j _ hj => ?_⟩
  · simp
  · rw [Bool.eq_false_iff]
    intro hp
    rw [List.isPrefixOf_iff_prefix, List.append_assoc,
      List.drop_append_of_le_length (Nat.le_of_lt hj)] at hp
    have hwhole : ¬c :: ps <+: l.drop j := fun hw =>
      h (hw.isInfix.trans (List.drop_suffix j l).isInfix)
    obtain ⟨u, hu⟩ := hp
    rcases List.append_eq_append_iff.mp hu with ⟨as, hd, -⟩ | ⟨bs, hd, hrest⟩
    · exact hwhole ⟨as, hd.symm⟩
    · -- the pattern reaches the second occurrence, and meets its first character
      have hne : l.drop j ≠ [] := by simp; omega
      obtain ⟨x, d, hxd⟩ := List.exists_cons_of_ne_nil hne
      rw [hxd] at hd
      obtain ⟨rfl, hps⟩ := List.cons.inj hd
      cases bs with
      | nil => exact hwhole ⟨[], by rw [hxd, hps]; simp⟩
      | cons y bs =>
        obtain ⟨rfl, -⟩ := List.cons.inj hrest
        exact hc (by rw [hps]; simp)

theorem find_eq_none {s pattern : List α} : find s pattern 0 = none ↔ ¬pattern <:+: s := by
  simp only [find, search, List.find?_eq_none, List.isPrefixOf_iff_prefix]
  constructor
  · rintro h ⟨l, t, rfl⟩
    have hlen : (l ++ pattern ++ t).length = l.length + pattern.length + t.length := by
      rw [List.length_append, List.length_append]
    refine h l.length (List.mem_range'_1.mpr (by omega)) ?_
    rw [List.append_assoc, List.drop_left]
    exact List.prefix_append _ _
  · intro h j _ hp
    exact h (hp.isInfix.trans (List.drop_suffix j s).isInfix)

/-- A pattern that is found splits the string. -/
theorem find_split {s pattern : List α} {pos i : Nat} (h : find s pattern pos = some i) :
    ∃ t, s = s.take i ++ pattern ++ t ∧ i ≤ s.length := by
  obtain ⟨hp, ⟨-, hlen⟩, -⟩ := search_eq_some.mp h
  obtain ⟨t, ht⟩ := List.isPrefixOf_iff_prefix.mp hp
  refine ⟨t, ?_, hlen⟩
  rw [List.append_assoc, ht, List.take_append_drop]

end Find

end Text
