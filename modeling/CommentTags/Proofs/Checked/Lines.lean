import CommentTags.Proofs.Checked.Slice
import CommentTags.Proofs.CommentLine

/-!
# Lines by bytes

A part of a text is split into segments, and the content of a comment line is found in its segment, by byte
offsets. Each loop checks that it gets further.

## Main definitions

* `Checked.lineEnd` and `Checked.segments`: the end of a line, and the lines of a part of the text;
* `Checked.commentLine`: a comment line from its segment;
* `CommentLine.toBytes`: a comment line with byte offsets in place of positions.

## Main results

* `Checked.Fits.segments_eq` and `Checked.Fits.commentLine_eq`: nothing goes wrong, and the outcome is that of
  the scan.
-/

namespace CommentTags

/-- The line with byte offsets in place of positions. -/
def CommentLine.toBytes (text : Text) (line : CommentLine) : CommentLine :=
  { line with start := text.byteAt line.start, stop := text.byteAt line.stop }

@[simp]
theorem CommentLine.indent_toBytes (text : Text) (line : CommentLine) :
    (line.toBytes text).indent = line.indent := rfl

@[simp]
theorem CommentLine.opener_toBytes (text : Text) (line : CommentLine) :
    (line.toBytes text).opener = line.opener := rfl

/-- The ends of a segment as byte offsets. -/
def Text.segmentToBytes (text : Text) (segment : Nat × Nat) : Nat × Nat :=
  (text.byteAt segment.1, text.byteAt segment.2)

namespace Text

variable {text : Text} {start stop : Nat}

/-- A single character as a literal. -/
theorem occursAt_singleton {c : Char} {i : Nat} : text.occursAt [c] i = true ↔ text[i]? = some c := by
  rw [occursAt, occursAt, Bool.and_true, beq_iff_eq]

/-- A part of a line is its only segment. -/
theorem segments_of_freeOfNewlines (h : text.FreeOfNewlines start stop) :
    text.segments start stop = [(start, stop)] := by
  have hfeeds : text.lineFeeds start stop = [] := by
    rw [List.eq_nil_iff_forall_not_mem]
    intro i hi
    obtain ⟨h₁, h₂, hi⟩ := mem_lineFeeds.1 hi
    exact h i h₁ h₂ hi
  rw [segments, hfeeds]
  rfl

/-- After the first line feed the next segment starts. -/
theorem segments_of_newline {eol : Nat} (hle : start ≤ eol) (hlt : eol < stop)
    (hfree : text.FreeOfNewlines start eol) (hnewline : text[eol]? = some '\n') :
    text.segments start stop = (start, eol) :: text.segments (eol + 1) stop := by
  have hfeeds : text.lineFeeds start stop = eol :: text.lineFeeds (eol + 1) stop := by
    have hsplit : List.range' start (stop - start) =
        List.range' start (eol - start) ++ eol :: List.range' (eol + 1) (stop - (eol + 1)) := by
      have happend := @List.range'_append_1 start (eol - start) (stop - (eol + 1) + 1)
      rw [Nat.add_sub_cancel' hle, List.range'_succ] at happend
      rw [happend]
      congr 1
      omega
    have hnone : (List.range' start (eol - start)).filter (fun i => text[i]? == some '\n') = [] := by
      rw [List.filter_eq_nil_iff]
      intro i hi hfeed
      rw [List.mem_range'_1] at hi
      exact hfree i hi.1 (by omega) (eq_of_beq hfeed)
    rw [lineFeeds, hsplit, List.filter_append, hnone, List.nil_append, List.filter_cons, hnewline]
    rfl
  rw [segments, hfeeds]
  rfl

end Text

namespace Checked

/-- The end of the line in which the byte offset `start` lies. -/
def lineEnd (text : Text) (start : Nat) : Except IndexFault Nat := do
  match (← slice text start text.byteLength).find? ['\n'] with
  | some i => add start i
  | none => return text.byteLength

/-- The lines between two byte offsets, without their line feeds. -/
def segments (text : Text) (start stop : Nat) : Except IndexFault (List (Nat × Nat)) := do
  let eol := min (← lineEnd text start) stop
  if stop ≤ eol then
    return [(start, eol)]
  else
    let next ← add eol 1
    if start < next ∧ next ≤ stop then
      let rest ← segments text next stop
      return (start, eol) :: rest
    else
      throw .stuck
termination_by stop - start

/-- The line between two byte offsets. -/
def commentLine (text : Text) (mayOpen : Nat → Bool) (start stop : Nat) :
    Except IndexFault CommentLine := do
  let indent := (← slice text start stop).leadingBlanks
  let content ← add start indent
  let trimmed ← add content (← slice text content stop).trimmedLength
  return { start := content, stop := trimmed, indent, opener := mayOpen indent }

variable {text : Text} {base i j : Nat}

/-- The end of a line is found. -/
theorem Fits.lineEnd_eq (hfits : Fits text base) (hi : i ≤ text.size) :
    lineEnd text (text.byteAt i) = .ok (text.byteAt (text.lineEnd i)) := by
  rw [lineEnd, slice_byteLength hi, ok_bind, Slice.find?]
  cases hfind : text.find? ['\n'] i text.size with
  | none =>
    have hnone : text.lineEnd i = text.size := by
      rw [Text.lineEnd_eq_iff hi]
      refine ⟨hi, Nat.le_refl _, fun k h₁ h₂ hk => ?_, fun hlt => absurd hlt (Nat.lt_irrefl _)⟩
      have hnot := Text.find?_eq_none_iff.1 hfind k h₁ h₂
      rw [Text.occursAt_singleton.2 hk] at hnot
      cases hnot
    rw [Option.map_none, hnone, Text.byteAt_size]
    rfl
  | some eol =>
    obtain ⟨⟨hle, hlt, hocc⟩, hmin⟩ := Text.find?_eq_some_iff.1 hfind
    have hsome : text.lineEnd i = eol := by
      rw [Text.lineEnd_eq_iff hi]
      refine ⟨hle, Nat.le_of_lt hlt, fun k h₁ h₂ hk => ?_, fun _ => Text.occursAt_singleton.1 hocc⟩
      have hnot := hmin k h₁ h₂
      rw [Text.occursAt_singleton.2 hk] at hnot
      cases hnot
    rw [Option.map_some, hsome]
    exact hfits.add_upTo hle (Nat.le_of_lt hlt) text.size

/-- A character of one byte is passed over. -/
theorem Fits.add_one (hfits : Fits text base) {c : Char} (hc : text[i]? = some c) (hsize : c.utf8Size = 1) :
    add (text.byteAt i) 1 = .ok (text.byteAt (i + 1)) := by
  have hlt : i < text.size := (Array.getElem?_eq_some_iff.1 hc).1
  have hone : utf8Length [c] = 1 := utf8Length_eq_length fun d hd => by
    rw [List.mem_singleton.1 hd, hsize]
  have hadd := hfits.add_utf8Length (Text.occursAt_singleton.2 hc) (Nat.le_of_lt hlt)
  rwa [hone] at hadd

/-- A part of the text is split into its lines. -/
theorem Fits.segments_eq (hfits : Fits text base) {i j : Nat} (hij : i ≤ j) (hj : j ≤ text.size) :
    segments text (text.byteAt i) (text.byteAt j) =
      .ok ((text.segments i j).map text.segmentToBytes) := by
  have hi : i ≤ text.size := Nat.le_trans hij hj
  obtain ⟨hle, -, hfree, hnewline⟩ := (Text.lineEnd_eq_iff hi).1 rfl
  rw [segments, hfits.lineEnd_eq hi, ok_bind]
  rcases Nat.lt_or_ge (text.lineEnd i) j with hlt | hge
  · have hbytes : min (text.byteAt (text.lineEnd i)) (text.byteAt j) = text.byteAt (text.lineEnd i) :=
      Nat.min_eq_left (Text.byteAt_le_byteAt (Nat.le_of_lt hlt))
    have hfeed := hnewline (Nat.lt_of_lt_of_le hlt hj)
    rw [Text.segments_of_newline hle hlt hfree hfeed]
    have ih := hfits.segments_eq (Nat.succ_le_of_lt hlt) hj
    dsimp only
    rw [hbytes, if_neg (Nat.not_le.2 (Text.byteAt_lt_byteAt hlt hj)), hfits.add_one hfeed rfl, ok_bind,
      if_pos ⟨Text.byteAt_lt_byteAt (by omega) (by omega), Text.byteAt_le_byteAt hlt⟩, ih]
    rfl
  · have hbytes : min (text.byteAt (text.lineEnd i)) (text.byteAt j) = text.byteAt j :=
      Nat.min_eq_right (Text.byteAt_le_byteAt hge)
    rw [Text.segments_of_freeOfNewlines (hfree.mono (Nat.le_refl _) hge)]
    dsimp only
    rw [hbytes, if_pos (Nat.le_refl _)]
    rfl
termination_by j - i

/-- A comment line is read from its segment. -/
theorem Fits.commentLine_eq (hfits : Fits text base) (mayOpen : Nat → Bool) (hij : i ≤ j)
    (hj : j ≤ text.size) :
    commentLine text mayOpen (text.byteAt i) (text.byteAt j) =
      .ok ((CommentLine.ofSegment text mayOpen i j).toBytes text) := by
  have hlo : i ≤ text.skipBlanks i j := Text.le_skipBlanks hij
  have hhi : text.skipBlanks i j ≤ j := Text.skipBlanks_le hij
  obtain ⟨htrim, hle⟩ := @Text.dropEndWhile_bounds text Unicode.isWhiteSpace _ _ hhi
  -- the indentation has as many bytes as blanks
  have hindent : (⟨i, j⟩ : Slice text).leadingBlanks = text.skipBlanks i j - i := by
    have hblanks := Text.byteAt_of_blanks hlo (Nat.le_trans hhi hj) fun k h₁ h₂ =>
      Text.blankAt_of_lt_skipBlanks hij h₁ h₂
    rw [Slice.leadingBlanks, Slice.upTo, hblanks, Nat.add_sub_cancel_left]
  have hcontent : add (text.byteAt i) (⟨i, j⟩ : Slice text).leadingBlanks =
      .ok (text.byteAt (text.skipBlanks i j)) :=
    hfits.add_upTo hlo (Nat.le_trans hhi hj) j
  have htrimmed : add (text.byteAt (text.skipBlanks i j))
      (⟨text.skipBlanks i j, j⟩ : Slice text).trimmedLength =
        .ok (text.byteAt (text.trimEnd (text.skipBlanks i j) j)) :=
    hfits.add_upTo htrim (Nat.le_trans hle hj) j
  rw [commentLine, slice_byteAt hij hj, ok_bind]
  dsimp only
  rw [hcontent, ok_bind, slice_byteAt hhi hj, ok_bind, htrimmed, ok_bind, hindent]
  rfl

end Checked

end CommentTags
