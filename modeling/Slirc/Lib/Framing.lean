import Mathlib.Data.List.Basic
import Mathlib.Data.List.Induction
import Mathlib.Data.List.TakeWhile

/-!
# Framing a stream into lines

A stream is cut at every separator. Each piece loses its leading blanks, is dropped if nothing is
left of it, and is trimmed; what stands behind the last separator waits for the rest of its line
(`lines`, `rest`).

`lines_append`, `rest_append`: only `rest` of what came before is needed for what comes next. So a
reader that keeps it gives the same lines, however the stream is cut into chunks (`feed_chunks`).
-/

/-- How lines look: the separator is a blank. -/
structure Framing (α : Type*) where
  sep : α
  blank : α → Bool
  trim : List α → List α
  blank_sep : blank sep = true

namespace Framing

variable {α : Type*} [DecidableEq α] (F : Framing α)

/-- The line of one piece, if there is one. -/
def line (piece : List α) : List (List α) :=
  if piece.dropWhile F.blank = [] then [] else [F.trim (piece.dropWhile F.blank)]

/-- The lines of a stream. -/
def lines (s : List α) : List (List α) := (s.splitOn F.sep).dropLast.flatMap F.line

/-- What stands behind the last separator, without its leading blanks. -/
def rest (s : List α) : List α := ((s.splitOn F.sep).getLastD []).dropWhile F.blank

/-- A reader that keeps the rest: its lines so far and what it keeps, before and after a chunk. -/
def feed (r : List (List α) × List α) (chunk : List α) : List (List α) × List α :=
  (r.1 ++ F.lines (r.2 ++ chunk), F.rest (r.2 ++ chunk))

variable {F}

theorem lines_of_not_mem {s : List α} (h : F.sep ∉ s) : F.lines s = [] := by
  simp [lines, List.splitOn_eq_singleton h]

theorem rest_of_not_mem {s : List α} (h : F.sep ∉ s) : F.rest s = s.dropWhile F.blank := by
  simp [rest, List.splitOn_eq_singleton h]

theorem lines_append_sep {l : List α} (h : F.sep ∉ l) (s : List α) :
    F.lines (l ++ F.sep :: s) = F.line l ++ F.lines s := by
  rw [lines, List.splitOn_append_cons_self_of_not_mem h,
    List.dropLast_cons_of_ne_nil (List.splitOn_ne_nil _ _)]
  rfl

theorem rest_append_sep {l : List α} (h : F.sep ∉ l) (s : List α) :
    F.rest (l ++ F.sep :: s) = F.rest s := by
  rw [rest, List.splitOn_append_cons_self_of_not_mem h, rest]
  cases hs : s.splitOn F.sep with
  | nil => exact absurd hs (List.splitOn_ne_nil _ _)
  | cons p ps => rfl

/-- A stream by its pieces: none is finished, or there is a first one. -/
theorem pieces_induction {P : List α → Prop} (hlast : ∀ s, F.sep ∉ s → P s)
    (hpiece : ∀ l s, F.sep ∉ l → P s → P (l ++ F.sep :: s)) (s : List α) : P s := by
  induction hn : s.length using Nat.strongRecOn generalizing s with
  | _ n ih =>
    by_cases hmem : F.sep ∈ s
    · obtain ⟨l, t, rfl, hl⟩ := List.eq_append_cons_of_mem hmem
      refine hpiece l t hl (ih t.length ?_ t rfl)
      simp only [List.length_append, List.length_cons] at hn
      omega
    · exact hlast s hmem

/-- A leading blank does not matter. -/
theorem blank_cons {c : α} (hc : F.blank c = true) (s : List α) :
    F.lines (c :: s) = F.lines s ∧ F.rest (c :: s) = F.rest s := by
  by_cases hsep : c = F.sep
  · subst hsep
    have hnil : F.sep ∉ ([] : List α) := by simp
    exact ⟨by simpa [line] using lines_append_sep hnil s, by simpa using rest_append_sep hnil s⟩
  induction s using pieces_induction (F := F) with
  | hlast s hs =>
    have hcs : F.sep ∉ c :: s := by simp [hs, Ne.symm hsep]
    simp [lines_of_not_mem, rest_of_not_mem, hs, hcs, hc]
  | hpiece l s hl _ =>
    have hcl : F.sep ∉ c :: l := by simp [hl, Ne.symm hsep]
    have hline : F.line (c :: l) = F.line l := by simp [line, hc]
    have hlines := lines_append_sep hcl s
    have hrest := rest_append_sep hcl s
    rw [List.cons_append] at hlines hrest
    rw [hlines, hrest, lines_append_sep hl, rest_append_sep hl, hline]
    exact ⟨rfl, rfl⟩

theorem blanks_append {l : List α} (hl : ∀ c ∈ l, F.blank c = true) (s : List α) :
    F.lines (l ++ s) = F.lines s ∧ F.rest (l ++ s) = F.rest s := by
  induction l with
  | nil => exact ⟨rfl, rfl⟩
  | cons c l ih =>
    obtain ⟨hlines, hrest⟩ := blank_cons (hl c (by simp)) (l ++ s)
    obtain ⟨hlines', hrest'⟩ := ih fun c hc => hl c (List.mem_cons_of_mem _ hc)
    exact ⟨hlines.trans hlines', hrest.trans hrest'⟩

/-- Leading blanks may be dropped before more of the stream comes. -/
theorem dropWhile_append (s t : List α) :
    F.lines (s.dropWhile F.blank ++ t) = F.lines (s ++ t) ∧
      F.rest (s.dropWhile F.blank ++ t) = F.rest (s ++ t) := by
  have hs : s ++ t = s.takeWhile F.blank ++ (s.dropWhile F.blank ++ t) := by
    rw [← List.append_assoc, List.takeWhile_append_dropWhile]
  obtain ⟨hlines, hrest⟩ :=
    blanks_append (F := F) (fun c hc => List.mem_takeWhile_imp hc) (s.dropWhile F.blank ++ t)
  rw [hs]
  exact ⟨hlines.symm, hrest.symm⟩

/-- **The lines of a stream and of what follows it**: of the stream, only its rest matters. -/
theorem frame_append (s t : List α) :
    F.lines (s ++ t) = F.lines s ++ F.lines (F.rest s ++ t) ∧
      F.rest (s ++ t) = F.rest (F.rest s ++ t) := by
  induction s using pieces_induction (F := F) with
  | hlast s hs =>
    obtain ⟨hlines, hrest⟩ := dropWhile_append (F := F) s t
    rw [lines_of_not_mem hs, rest_of_not_mem hs, hlines, hrest]
    exact ⟨rfl, rfl⟩
  | hpiece l s hl ih =>
    rw [List.append_assoc, List.cons_append, lines_append_sep hl, rest_append_sep hl,
      lines_append_sep hl, rest_append_sep hl, ih.1, List.append_assoc]
    exact ⟨rfl, ih.2⟩

/-- **Chunks do not matter.** -/
theorem feed_chunks (chunks : List (List α)) :
    chunks.foldl F.feed ([], []) = (F.lines chunks.flatten, F.rest chunks.flatten) := by
  induction chunks using List.reverseRecOn with
  | nil => simp [lines, rest]
  | append_singleton chunks chunk ih =>
    obtain ⟨hlines, hrest⟩ := frame_append (F := F) chunks.flatten chunk
    simp only [List.foldl_append, ih, List.foldl_cons, List.foldl_nil, feed, List.flatten_append,
      List.flatten_cons, List.flatten_nil, List.append_nil, hlines, hrest]

end Framing
