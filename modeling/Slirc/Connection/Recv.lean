import Slirc.Lib.Framing
import Slirc.Lib.Text

/-!
# Receiving lines (`impl::recv` in `src/modules/connection.cpp`)

The loop of `recv` takes complete lines out of `recv_buffer`; what it leaves there waits for the
next read. A byte of the stream is the `Char` with its value.

`recv_framing`: however the bytes arrive, the lines are those of the whole stream (`ircFraming`).
-/

namespace Slirc

/-- The characters that `recv` skips in front of a line: `" \r\n"`. -/
def lineBlanks : List Char := [' ', '\r', '\n']

/-- A line without one `'\r'` at its end. -/
def dropCR (l : List Char) : List Char := if l.getLast? = some '\r' then l.dropLast else l

/-- The end of a line in front of its `'\r'`, if it has one. -/
def stepBack (buf : List Char) (lineEnd : Nat) : Nat :=
  if buf[lineEnd - 1]? = some '\r' then lineEnd - 1 else lineEnd

theorem dropCR_split {c : Char} (hc : c ∉ lineBlanks) (l : List Char) :
    ∃ cr, c :: l = dropCR (c :: l) ++ cr ∧ (∀ x ∈ cr, x ∈ lineBlanks) ∧ dropCR (c :: l) ≠ [] := by
  unfold dropCR
  split
  · rename_i hlast
    obtain ⟨ys, hys⟩ := List.getLast?_eq_some_iff.mp hlast
    refine ⟨['\r'], by simp [hys], by simp [lineBlanks], ?_⟩
    cases ys with
    | nil =>
      obtain ⟨rfl, -⟩ := List.cons.inj hys
      simp [lineBlanks] at hc
    | cons y ys =>
      rw [hys, List.dropLast_concat]
      simp
  · exact ⟨[], by simp, by simp, by simp⟩

/-- **One pass of the loop**: behind the blanks it skips stand a line, the blanks that end it, and
the text it goes on with. -/
theorem recv_pass {buf : List Char} {lineEnd lineBegin next : Nat}
    (hb : Text.findFirstNotOf buf lineBlanks lineEnd = some lineBegin)
    (he : Text.find buf ['\n'] lineBegin = some next) :
    ∃ skipped c l cr t, buf.drop lineEnd = skipped ++ (c :: l ++ '\n' :: t) ∧
      c :: l = dropCR (c :: l) ++ cr ∧ c ∉ lineBlanks ∧ '\n' ∉ c :: l ∧
      (∀ x ∈ skipped, x ∈ lineBlanks) ∧ (∀ x ∈ cr, x ∈ lineBlanks) ∧ dropCR (c :: l) ≠ [] ∧
      lineBegin = lineEnd + skipped.length ∧
      stepBack buf next = lineBegin + (dropCR (c :: l)).length := by
  obtain ⟨skipped, c, t, hdrop, hskip, hc, hbegin, hrest⟩ := Text.search_split hb
  rw [Text.find_singleton] at he
  obtain ⟨l, c', t', hdrop', hl, hc', hnext, -⟩ := Text.search_split he
  obtain rfl : c' = '\n' := by simpa using hc'
  simp only [decide_eq_true_eq, decide_eq_false_iff_not, not_not] at hc hskip
  have hsep : '\n' ∉ l := fun hm => by simpa using hl _ hm
  rw [hrest] at hdrop'
  cases l with
  | nil =>
    obtain ⟨rfl, -⟩ := List.cons.inj hdrop'
    simp [lineBlanks] at hc
  | cons x l =>
    simp only [List.cons_append, List.cons.injEq] at hdrop'
    obtain ⟨rfl, rfl⟩ := hdrop'
    obtain ⟨cr, hcr, hblank, hne⟩ := dropCR_split hc l
    refine ⟨skipped, c, l, cr, t', hdrop, hcr, hc, hsep, hskip, hblank, hne, hbegin, ?_⟩
    have hlast : buf[next - 1]? = (c :: l).getLast? := by
      rw [show next - 1 = lineBegin + l.length by simp only [List.length_cons] at hnext; omega,
        ← List.getElem?_drop, hrest, ← List.cons_append,
        List.getElem?_append_left (by simp), List.getLast?_eq_getElem?]
      rfl
    unfold stepBack dropCR
    rw [hlast]
    split
    · simp only [List.length_dropLast, List.length_cons] at hnext ⊢
      omega
    · exact hnext

theorem recv_progress {buf : List Char} {lineEnd lineBegin next : Nat}
    (hb : Text.findFirstNotOf buf lineBlanks lineEnd = some lineBegin)
    (he : Text.find buf ['\n'] lineBegin = some next) :
    buf.length - stepBack buf next < buf.length - lineEnd := by
  obtain ⟨skipped, c, l, cr, t, hdrop, -, -, -, -, -, hne, hbegin, hstep⟩ := recv_pass hb he
  have hlen := congrArg List.length hdrop
  have hpos := List.length_pos_of_ne_nil hne
  simp only [List.length_drop, List.length_append, List.length_cons] at hlen
  omega

/-- The loop of `recv`: the lines it emits from `line_end` on, and the buffer it leaves. -/
def recvLoop (buf : List Char) (lineEnd : Nat) : List (List Char) × List Char :=
  match _hb : Text.findFirstNotOf buf lineBlanks lineEnd with
  | none => ([], [])
  | some lineBegin =>
    match _he : Text.find buf ['\n'] lineBegin with
    | none => ([], buf.drop lineBegin)
    | some next =>
      let r := recvLoop buf (stepBack buf next)
      (Text.substr buf lineBegin (stepBack buf next - lineBegin) :: r.1, r.2)
termination_by buf.length - lineEnd
decreasing_by exact recv_progress _hb _he

/-- The lines of the protocol. -/
def ircFraming : Framing Char where
  sep := '\n'
  blank c := decide (c ∈ lineBlanks)
  trim := dropCR
  blank_sep := by decide

/-- **The loop of `recv` frames what stands from `line_end` on.** -/
theorem recvLoop_eq (buf : List Char) (lineEnd : Nat) :
    recvLoop buf lineEnd =
      (ircFraming.lines (buf.drop lineEnd), ircFraming.rest (buf.drop lineEnd)) := by
  fun_induction recvLoop buf lineEnd with
  | case1 lineEnd hb =>
    have hblank := Text.search_none hb
    have hall := Framing.blanks_append (F := ircFraming)
      (fun c hc => by simpa [ircFraming] using hblank c hc) []
    rw [List.append_nil] at hall
    rw [hall.1, hall.2]
    rfl
  | case2 lineEnd lineBegin hb he =>
    obtain ⟨skipped, c, t, hdrop, hskip, hc, -, hrest⟩ := Text.search_split hb
    rw [Text.find_singleton] at he
    have hsep : ircFraming.sep ∉ buf.drop lineBegin :=
      fun hm => by simpa [ircFraming] using Text.search_none he _ hm
    have hall := Framing.blanks_append (F := ircFraming)
      (fun x hx => by simpa [ircFraming] using hskip x hx) (buf.drop lineBegin)
    rw [hrest, ← hdrop, ← hrest] at hall
    rw [hall.1, hall.2, Framing.lines_of_not_mem hsep, Framing.rest_of_not_mem hsep, hrest,
      List.dropWhile_cons_of_neg (by simpa [ircFraming] using hc)]
  | case3 lineEnd lineBegin hb next he r ih =>
    obtain ⟨skipped, c, l, cr, t, hdrop, hcr, hc, hsep, hskip, hblank, -, hbegin, hstep⟩ :=
      recv_pass hb he
    have hbuf : buf.drop lineBegin = c :: l ++ '\n' :: t := by
      rw [hbegin, ← List.drop_drop, hdrop, List.drop_left]
    have hline : Text.substr buf lineBegin (stepBack buf next - lineBegin) = dropCR (c :: l) := by
      rw [hstep, Nat.add_sub_cancel_left, Text.substr, hbuf]
      nth_rewrite 2 [hcr]
      rw [List.append_assoc, List.take_left]
    have hnext : buf.drop (stepBack buf next) = cr ++ '\n' :: t := by
      rw [hstep, ← List.drop_drop, hbuf]
      nth_rewrite 2 [hcr]
      rw [List.append_assoc, List.drop_left]
    have hone : ircFraming.line (c :: l) = [dropCR (c :: l)] := by
      rw [Framing.line, List.dropWhile_cons_of_neg (by simpa [ircFraming] using hc),
        if_neg (by simp)]
      rfl
    have hskipped := Framing.blanks_append (F := ircFraming)
      (fun x hx => by simpa [ircFraming] using hskip x hx) (c :: l ++ '\n' :: t)
    have hended := Framing.blanks_append (F := ircFraming)
      (fun x hx => by simpa [ircFraming] using hblank x hx) ('\n' :: t)
    have hbreak := Framing.blank_cons (F := ircFraming) ircFraming.blank_sep t
    have hcut := Framing.lines_append_sep (F := ircFraming) hsep t
    have hkeep := Framing.rest_append_sep (F := ircFraming) hsep t
    rw [hdrop, hskipped.1, hskipped.2, hline, show r = _ from ih, hnext, hended.1, hended.2]
    refine Prod.ext ?_ ?_
    · calc dropCR (c :: l) :: ircFraming.lines ('\n' :: t)
        _ = ircFraming.line (c :: l) ++ ircFraming.lines t := by
          rw [hone, ← hbreak.1]
          rfl
        _ = ircFraming.lines (c :: l ++ '\n' :: t) := hcut.symm
    · exact hbreak.2.trans hkeep.symm

/-- A delivery of the receive handler: the bytes are appended to `recv_buffer`, and `recv` is
called. The lines emitted so far and the buffer. -/
def deliver (r : List (List Char) × List Char) (chunk : List Char) :
    List (List Char) × List Char :=
  ((r.1 ++ (recvLoop (r.2 ++ chunk) 0).1), (recvLoop (r.2 ++ chunk) 0).2)

/-- **Framing does not depend on how the bytes arrive.** After any deliveries the lines are those of
the whole stream, and the buffer is the unfinished line without its leading blanks. -/
theorem recv_framing (chunks : List (List Char)) :
    chunks.foldl deliver ([], []) =
      (ircFraming.lines chunks.flatten, ircFraming.rest chunks.flatten) := by
  have hfeed : deliver = ircFraming.feed := by
    funext r chunk
    simp [deliver, Framing.feed, recvLoop_eq]
  rw [hfeed, Framing.feed_chunks]

end Slirc
