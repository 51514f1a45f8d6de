import CommentTags.Proofs.Copy.Text
import CommentTags.Proofs.Enclosed

/-!
# The lines of a copy

The lines of a part of a text are copied one by one. Each has its content at the place to which it is
copied; a carriage return before the line feed is white space at the end of the line.

## Main definitions

* `CommentLine.relocate`: a line with its content at another place;
* `Text.SegmentStands`: a segment of the copy stands for one of the text;
* `Text.ReadsAlike`: lines are read from the copy as from the text.

## Main results

* `Text.Copies.ofSegment_place`: a line is read from the copy as from the text;
* `Text.Copies.forall₂_segments`: the segments of a part of the copy stand for those of the text;
* `Text.Copies.lines_place`: the lines of an enclosed comment are copied.
-/

namespace CommentTags

/-- The line with its content at another place. -/
def CommentLine.relocate (place : Nat → Nat) (line : CommentLine) : CommentLine :=
  { line with start := place line.start, stop := place line.stop }

@[simp]
theorem CommentLine.indent_relocate (place : Nat → Nat) (line : CommentLine) :
    (line.relocate place).indent = line.indent := rfl

@[simp]
theorem CommentLine.opener_relocate (place : Nat → Nat) (line : CommentLine) :
    (line.relocate place).opener = line.opener := rfl

namespace Text

variable {text copy : Text} {ending : LineEnding} {place : Nat → Nat}

/-- A segment of the copy starts at the place of a segment of the text, and its end stands for the other
end. -/
def SegmentStands (text copy : Text) (place : Nat → Nat) (seg seg' : Nat × Nat) : Prop :=
  seg'.1 = place seg.1 ∧ Stands text copy place seg.2 seg'.2

/-- A line that is read from a part of a line of the text is read from the copy likewise. -/
def ReadsAlike (text copy : Text) (place : Nat → Nat) (read read' : Nat → Nat → CommentLine) : Prop :=
  ∀ ⦃s e q : Nat⦄, s ≤ e → e ≤ text.size → text.FreeOfNewlines s e → Stands text copy place e q →
    read' (place s) q = (read s e).relocate place

/-- What is read from segments of the text is read from segments that stand for them. -/
theorem ReadsAlike.map_segments {read read' : Nat → Nat → CommentLine}
    (hread : ReadsAlike text copy place read read') {segs segs' : List (Nat × Nat)}
    (hsegs : List.Forall₂ (SegmentStands text copy place) segs segs')
    (hin : ∀ seg ∈ segs, seg.1 ≤ seg.2 ∧ seg.2 ≤ text.size ∧ text.FreeOfNewlines seg.1 seg.2) :
    segs'.map (fun (s, e) => read' s e) =
      (segs.map fun (s, e) => read s e).map (CommentLine.relocate place) := by
  induction hsegs with
  | nil => rfl
  | @cons seg seg' segs segs' hseg _ ih =>
    obtain ⟨⟨hle, hsize, hfree⟩, hrest⟩ := List.forall_mem_cons.1 hin
    obtain ⟨s, e⟩ := seg
    obtain ⟨s', q⟩ := seg'
    obtain ⟨rfl, hq⟩ : s' = place s ∧ Stands text copy place e q := hseg
    rw [List.map_cons, List.map_cons, List.map_cons, ih hrest]
    exact congrArg (· :: _) (hread hle hsize hfree hq)

/-- The segments of a part of the text lie in it, each within one line. -/
theorem segments_inText {s e : Nat} (hse : s ≤ e) (he : e ≤ text.size) :
    ∀ seg ∈ text.segments s e, seg.1 ≤ seg.2 ∧ seg.2 ≤ text.size ∧ text.FreeOfNewlines seg.1 seg.2 := by
  intro seg hseg
  obtain ⟨-, hle, hstop, hfree⟩ := (segments_spec hse).1 seg hseg
  exact ⟨hle, Nat.le_trans hstop he, hfree⟩

namespace Copies

variable (h : text.Copies copy ending place)
include h

/-- A line is read from the copy as from the text. -/
theorem ofSegment_place (mayOpen : Nat → Bool) :
    ReadsAlike text copy place (CommentLine.ofSegment text mayOpen) (CommentLine.ofSegment copy mayOpen) := by
  intro s e q hse he hfree hq
  have hlo : s ≤ text.skipBlanks s e := le_skipBlanks hse
  have hhi : text.skipBlanks s e ≤ e := skipBlanks_le hse
  have hcontent : copy.skipBlanks (place s) q = place (text.skipBlanks s e) :=
    h.skipBlanks_place hse he hq.place_le hq.blankAt_eq_false
  -- blanks keep their distance from the start of the line
  have hindent : place (text.skipBlanks s e) - place s = text.skipBlanks s e - s := by
    rw [h.place_eq_add hfree he hlo hhi, Nat.add_sub_cancel_left]
  have hstop : copy.trimEnd (place (text.skipBlanks s e)) q = place (text.trimEnd (text.skipBlanks s e) e) :=
    h.trimEnd_place hhi he (hfree.mono hlo (Nat.le_refl _)) hq
  simp only [CommentLine.ofSegment, CommentLine.relocate, hcontent, hindent, hstop]

/-- A further line of a doc comment is read from the copy as from the text. -/
theorem docLine_place (hstar : '*' ∉ ending.chars) :
    ReadsAlike text copy place (Enclosure.docLine text) (Enclosure.docLine copy) := by
  intro s e q hse he hfree hq
  have hlo : s ≤ text.skipBlanks s e := le_skipBlanks hse
  have hhi : text.skipBlanks s e ≤ e := skipBlanks_le hse
  have hlead : copy.skipBlanks (place s) q = place (text.skipBlanks s e) :=
    h.skipBlanks_place hse he hq.place_le hq.blankAt_eq_false
  have hcond : place (text.skipBlanks s e) < q ∧ copy[place (text.skipBlanks s e)]? = some '*' ↔
      text.skipBlanks s e < e ∧ text[text.skipBlanks s e]? = some '*' := by
    rw [h.getElem?_place_iff hstar (Nat.le_trans hhi he)]
    refine and_congr_left fun hget => ?_
    exact (h.lt_stands_iff hq ⟨'*', hget, by decide⟩).symm
  rw [Enclosure.docLine, Enclosure.docLine]
  simp only [hlead, Bool.and_eq_true, decide_eq_true_eq, beq_iff_eq, hcond]
  split
  · next hstarred =>
    rw [← h.place_succ ⟨'*', hstarred.2, by decide⟩]
    exact h.ofSegment_place afterOneBlank hstarred.1 he (hfree.mono (by omega) (Nat.le_refl _)) hq
  · exact h.ofSegment_place afterAnyBlanks hse he hfree hq

/-- The segments of a part of the copy stand for those of the part of the text. -/
theorem forall₂_segments {s e : Nat} (hse : s ≤ e) (he : e ≤ text.size) :
    List.Forall₂ (SegmentStands text copy place) (text.segments s e) (copy.segments (place s) (place e)) := by
  have hs : s ≤ text.size := Nat.le_trans hse he
  obtain ⟨hle, hsize, hfree, hnewline⟩ := (lineEnd_eq_iff hs).1 rfl
  rcases Nat.lt_or_ge (text.lineEnd s) e with hlt | hge
  -- the line ends in the part, and the next one starts after its line ending
  · obtain ⟨p, hp, hfeed, hnext⟩ := h.exists_newline (hnewline (Nat.lt_of_lt_of_le hlt he))
    have hple : place s ≤ p := Nat.le_trans (h.mono.monotone hle) hp.place_le
    have hplt : p < place e := (h.lt_iff_of_stands hp).1 hlt
    have hpfree := (h.freeOfNewlines_place hfree hle hsize).of_stands hp
    rw [segments_of_newline hle hlt hfree (hnewline (Nat.lt_of_lt_of_le hlt he)),
      segments_of_newline hple hplt hpfree hfeed, ← hnext]
    exact .cons ⟨rfl, hp⟩ (forall₂_segments (Nat.succ_le_of_lt hlt) he)
  · have honly := hfree.mono (Nat.le_refl _) hge
    rw [segments_of_freeOfNewlines honly, segments_of_freeOfNewlines (h.freeOfNewlines_place honly hse he)]
    exact .cons ⟨rfl, .inl rfl⟩ .nil
termination_by e - s

/-- The lines of a part of the text are read from its copy. -/
theorem map_ofSegment_segments (mayOpen : Nat → Bool) {s e : Nat} (hse : s ≤ e) (he : e ≤ text.size) :
    (copy.segments (place s) (place e)).map (fun (s, e) => CommentLine.ofSegment copy mayOpen s e) =
      ((text.segments s e).map fun (s, e) => CommentLine.ofSegment text mayOpen s e).map
        (CommentLine.relocate place) :=
  (h.ofSegment_place mayOpen).map_segments (h.forall₂_segments hse he) (segments_inText hse he)

/-- The text of a comment is split into the same lines. -/
private theorem split_place {further further' : Nat → Nat → CommentLine}
    (hfurther : ReadsAlike text copy place further further') {s e : Nat} (hse : s ≤ e) (he : e ≤ text.size) :
    (match copy.segments (place s) (place e) with
      | [] => []
      | (first, eol) :: rest =>
        CommentLine.ofSegment copy afterOneBlank first eol :: rest.map fun (s, e) => further' s e) =
    (match text.segments s e with
      | [] => []
      | (first, eol) :: rest =>
        CommentLine.ofSegment text afterOneBlank first eol :: rest.map fun (s, e) => further s e).map
      (CommentLine.relocate place) := by
  have hin := segments_inText hse he
  have hsegs := h.forall₂_segments hse he
  generalize text.segments s e = segs at *
  generalize copy.segments (place s) (place e) = segs' at *
  cases hsegs with
  | nil => rfl
  | @cons seg seg' segs segs' hseg hrest =>
    obtain ⟨⟨hle, hsize, hfree⟩, hothers⟩ := List.forall_mem_cons.1 hin
    obtain ⟨s, e⟩ := seg
    obtain ⟨s', q⟩ := seg'
    obtain ⟨rfl, hq⟩ : s' = place s ∧ Stands text copy place e q := hseg
    dsimp only at *
    rw [List.map_cons, h.ofSegment_place afterOneBlank hle hsize hfree hq, hfurther.map_segments hrest hothers]

/-- The lines of an enclosed comment are copied, if its marks have no character of a line ending. -/
theorem lines_place {kind : Enclosure} (hopening : ending.Spares kind.opening.chars)
    (hclosing : ending.Spares kind.closing.chars) {s e : Nat} (hse : s ≤ e) (he : e ≤ text.size) :
    kind.lines copy (place s) (place e) = (kind.lines text s e).map (CommentLine.relocate place) := by
  cases kind with
  | doc =>
    have hstar : '*' ∉ ending.chars := hopening '*' (by decide)
    exact h.split_place (h.docLine_place hstar) hse he
  | block opening closing =>
    have hlast : opening.last ∉ ending.chars := hopening _ (List.getLast_mem opening.nonempty)
    have hfirst : closing.first ∉ ending.chars := hclosing _ (List.head_mem closing.nonempty)
    have hskip : copy.skipChar opening.last (place s) (place e) = place (text.skipChar opening.last s e) :=
      h.skipChar_place hlast hse he (Nat.le_refl _) fun hlt => absurd hlt (Nat.lt_irrefl _)
    have hle : text.skipChar opening.last s e ≤ e := skipChar_le hse
    have hdrop : copy.dropEndWhile (· == closing.first) (place (text.skipChar opening.last s e)) (place e) =
        place (text.dropEndWhile (· == closing.first) (text.skipChar opening.last s e) e) :=
      h.dropEndWhile_place hle he fun _ _ _ _ => beq_false_of_ne (LineEnding.ne_newline hfirst).symm
    have hstop := @dropEndWhile_bounds text (· == closing.first) _ _ hle
    simp only [Enclosure.lines, hskip, hdrop, h.mono.lt_iff_lt]
    split
    · next hlt =>
      exact h.split_place (h.ofSegment_place afterAnyBlanks) (Nat.le_of_lt hlt) (Nat.le_trans hstop.2 he)
    · rfl

end Copies

end Text

end CommentTags
