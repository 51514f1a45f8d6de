import CommentTags.Proofs.Checked.Lines
import CommentTags.Proofs.Enclosed

/-!
# Enclosed comments by bytes

The next enclosed comment is found and its text split into lines by byte offsets: behind an asterisk at the
start of a line, and between the repeated marks of a block comment.

## Main definitions

* `Checked.nextEnclosed`: what the next comment of a kind gives;
* `Found.toBytes`: what a comment gives with byte offsets in place of positions.

## Main results

* `Checked.Fits.nextEnclosed_eq`: nothing goes wrong, and the outcome is that of the scan.
-/

namespace CommentTags

/-- The comment with byte offsets in place of positions. -/
def EnclosedComment.toBytes (text : Text) (comment : EnclosedComment) : EnclosedComment where
  start := text.byteAt comment.start
  bodyStart := text.byteAt comment.bodyStart
  bodyStop := text.byteAt comment.bodyStop
  stop := text.byteAt comment.stop

/-- What a comment gives with byte offsets in place of positions; what is claimed is a part of the document, and
its offsets count characters. -/
def Found.toBytes (text : Text) (found : Found) : Found :=
  { found with lines := found.lines.map (CommentLine.toBytes text), resume := text.byteAt found.resume }

namespace Checked

/-- The next comment of a kind from the byte offset `pos` on. -/
def findEnclosed? (kind : Enclosure) (text : Text) (pos : Nat) :
    Except IndexFault (Option EnclosedComment) := do
  let rest ← slice text pos text.byteLength
  return (kind.find? text rest.start).map (EnclosedComment.toBytes text)

/-- A line of a doc comment after the first. -/
def docLine (text : Text) (start stop : Nat) : Except IndexFault CommentLine := do
  let lead ← add start (← slice text start stop).leadingBlanks
  let content ← slice text lead stop
  if content.startsWith ['*'] then
    commentLine text afterOneBlank (← add lead 1) stop
  else
    commentLine text afterAnyBlanks start stop

/-- The text of a block comment without repetitions of its marks. -/
def trimBody (opening closing : Mark) (text : Text) (start stop : Nat) : Except IndexFault (Nat × Nat) := do
  let body := (← slice text start stop).trimStart opening.last
  let first ← sub stop body.length
  let last ← add first (body.trimEnd closing.first).length
  return (first, last)

/-- The first line of a comment, and the `further` ones. -/
def bodyLines (text : Text) (further : Nat → Nat → Except IndexFault CommentLine) (start stop : Nat) :
    Except IndexFault (List CommentLine) := do
  match ← segments text start stop with
  | [] => return []
  | (first, eol) :: rest =>
    let line ← commentLine text afterOneBlank first eol
    let others ← rest.mapM fun segment => further segment.1 segment.2
    return line :: others

/-- The lines of the comment text between two byte offsets. -/
def enclosedLines (kind : Enclosure) (text : Text) (start stop : Nat) :
    Except IndexFault (List CommentLine) :=
  match kind with
  | .doc => bodyLines text (docLine text) start stop
  | .block opening closing => do
    let body ← trimBody opening closing text start stop
    if body.1 < body.2 then
      bodyLines text (commentLine text afterAnyBlanks) body.1 body.2
    else
      return []

/-- What the next comment from the byte offset `pos` on gives when the text starts at `base` in its document. -/
def nextEnclosed (kind : Enclosure) (text : Text) (base : Nat) (claims : ClaimSet) (pos : Nat) :
    Except IndexFault (Option Found) := do
  match ← findEnclosed? kind text pos with
  | none => return none
  | some comment =>
    let start ← charOffset text base comment.start
    let stop ← charOffset text base comment.stop
    if claims.overlaps start stop then
      return some { claim := ⟨start, start⟩, lines := [], inlineMark := none, resume := comment.bodyStart }
    else
      let lines ← enclosedLines kind text comment.bodyStart comment.bodyStop
      return some { claim := ⟨start, stop⟩, lines, inlineMark := none, resume := comment.stop }

/-! ## Nothing goes wrong -/

variable {kind : Enclosure} {text : Text} {base i j : Nat}

/-- The next comment is found. -/
theorem findEnclosed?_eq (hi : i ≤ text.size) :
    findEnclosed? kind text (text.byteAt i) =
      .ok ((kind.find? text i).map (EnclosedComment.toBytes text)) := by
  rw [findEnclosed?, slice_byteLength hi, ok_bind]
  rfl

/-- A further line of a doc comment is read. -/
theorem Fits.docLine_eq (hfits : Fits text base) (hij : i ≤ j) (hj : j ≤ text.size) :
    docLine text (text.byteAt i) (text.byteAt j) = .ok ((Enclosure.docLine text i j).toBytes text) := by
  have hlo : i ≤ text.skipBlanks i j := Text.le_skipBlanks hij
  have hhi : text.skipBlanks i j ≤ j := Text.skipBlanks_le hij
  have hlead : add (text.byteAt i) (⟨i, j⟩ : Slice text).leadingBlanks =
      .ok (text.byteAt (text.skipBlanks i j)) :=
    hfits.add_upTo hlo (Nat.le_trans hhi hj) j
  have hasterisk : (⟨text.skipBlanks i j, j⟩ : Slice text).startsWith ['*'] =
      (decide (text.skipBlanks i j < j) && text[text.skipBlanks i j]? == some '*') := by
    rw [Slice.startsWith, Text.occursAt, Text.occursAt, Bool.and_true]
    rfl
  rw [docLine, slice_byteAt hij hj, ok_bind, hlead, ok_bind, slice_byteAt hhi hj, ok_bind, hasterisk,
    Enclosure.docLine]
  split
  · next hcond =>
    rw [Bool.and_eq_true, decide_eq_true_eq, beq_iff_eq] at hcond
    rw [hfits.add_one hcond.2 rfl, ok_bind]
    exact hfits.commentLine_eq afterOneBlank hcond.1 hj
  · exact hfits.commentLine_eq afterAnyBlanks hij hj

/-- The repetitions of the marks are left off. -/
theorem Fits.trimBody_eq (hfits : Fits text base) (opening closing : Mark) (hij : i ≤ j)
    (hj : j ≤ text.size) :
    trimBody opening closing text (text.byteAt i) (text.byteAt j) =
      .ok (text.byteAt (text.skipChar opening.last i j),
        text.byteAt (text.dropEndWhile (· == closing.first) (text.skipChar opening.last i j) j)) := by
  have hskip : text.skipChar opening.last i j ≤ j := Text.skipChar_le hij
  obtain ⟨hlo, hhi⟩ := @Text.dropEndWhile_bounds text (· == closing.first) _ _ hskip
  rw [trimBody, slice_byteAt hij hj, ok_bind]
  dsimp only
  rw [Slice.trimStart, sub_length hskip, ok_bind, Slice.trimEnd, Slice.length,
    hfits.add_upTo hlo (Nat.le_trans hhi hj), ok_bind]
  rfl

/-- The text of a comment is read line by line. -/
theorem Fits.bodyLines_eq (hfits : Fits text base) {further : Nat → Nat → Except IndexFault CommentLine}
    {line : Nat → Nat → CommentLine}
    (hfurther : ∀ {a b}, a ≤ b → b ≤ text.size →
      further (text.byteAt a) (text.byteAt b) = .ok ((line a b).toBytes text))
    (hij : i ≤ j) (hj : j ≤ text.size) {lines : List CommentLine}
    (hlines : lines = match text.segments i j with
      | [] => []
      | (first, eol) :: rest =>
        CommentLine.ofSegment text afterOneBlank first eol :: rest.map fun (a, b) => line a b) :
    bodyLines text further (text.byteAt i) (text.byteAt j) = .ok (lines.map (CommentLine.toBytes text)) := by
  have hin := (@Text.segments_spec text _ _ hij).1
  rw [hlines, bodyLines, hfits.segments_eq hij hj, ok_bind]
  cases hsegs : text.segments i j with
  | nil => rfl
  | cons seg rest =>
    rw [hsegs, List.forall_mem_cons] at hin
    obtain ⟨⟨-, hle, hend, -⟩, hrest⟩ := hin
    have hfirst : commentLine text afterOneBlank (text.byteAt seg.1) (text.byteAt seg.2) =
        .ok ((CommentLine.ofSegment text afterOneBlank seg.1 seg.2).toBytes text) :=
      hfits.commentLine_eq afterOneBlank hle (Nat.le_trans hend hj)
    have hone : ∀ segment ∈ rest, further (text.segmentToBytes segment).1 (text.segmentToBytes segment).2 =
        .ok ((line segment.1 segment.2).toBytes text) := fun segment hsegment => by
      obtain ⟨-, hle, hend, -⟩ := hrest segment hsegment
      exact hfurther hle (Nat.le_trans hend hj)
    have hothers : rest.mapM ((fun segment => further segment.1 segment.2) ∘ text.segmentToBytes) =
        .ok (rest.map fun segment => (line segment.1 segment.2).toBytes text) :=
      mapM_of_ok hone
    rw [List.map_cons]
    dsimp only
    rw [Text.segmentToBytes, hfirst, ok_bind, List.mapM_map, hothers, ok_bind, List.map_cons, List.map_map]
    rfl

/-- The lines of a comment are read. -/
theorem Fits.enclosedLines_eq (hfits : Fits text base) (kind : Enclosure) (hij : i ≤ j)
    (hj : j ≤ text.size) :
    enclosedLines kind text (text.byteAt i) (text.byteAt j) =
      .ok ((kind.lines text i j).map (CommentLine.toBytes text)) := by
  cases kind with
  | doc => exact hfits.bodyLines_eq hfits.docLine_eq hij hj rfl
  | block opening closing =>
    have hskip : text.skipChar opening.last i j ≤ j := Text.skipChar_le hij
    obtain ⟨hlo, hhi⟩ := @Text.dropEndWhile_bounds text (· == closing.first) _ _ hskip
    have hend := Nat.le_trans hhi hj
    rw [enclosedLines, hfits.trimBody_eq opening closing hij hj, ok_bind, Enclosure.lines]
    dsimp only
    rcases Nat.lt_or_eq_of_le hlo with hlt | heq
    · rw [if_pos (Text.byteAt_lt_byteAt hlt hend), if_pos hlt]
      exact hfits.bodyLines_eq (hfits.commentLine_eq afterAnyBlanks) hlo hend rfl
    · rw [← heq, if_neg (Nat.lt_irrefl _), if_neg (Nat.lt_irrefl _)]
      rfl

/-- What the next comment gives is found. -/
theorem Fits.nextEnclosed_eq (hfits : Fits text base) (kind : Enclosure) (claims : ClaimSet)
    (hi : i ≤ text.size) :
    nextEnclosed kind text base claims (text.byteAt i) =
      .ok ((kind.next text base claims i).map (Found.toBytes text)) := by
  rw [nextEnclosed, findEnclosed?_eq hi, ok_bind, Enclosure.next]
  cases hfind : kind.find? text i with
  | none => rfl
  | some comment =>
    obtain ⟨hcomment, -, hopening, hbody, hclosing, -⟩ := Enclosure.find?_eq_some hfind
    have hstop := hcomment.bounds.2
    have hstart : charOffset text base (comment.toBytes text).start = .ok (base + comment.start) :=
      hfits.charOffset_byteAt (by omega)
    have hend : charOffset text base (comment.toBytes text).stop = .ok (base + comment.stop) :=
      hfits.charOffset_byteAt hstop
    have hlines : enclosedLines kind text (comment.toBytes text).bodyStart (comment.toBytes text).bodyStop =
        .ok ((kind.lines text comment.bodyStart comment.bodyStop).map (CommentLine.toBytes text)) :=
      hfits.enclosedLines_eq kind hbody (by omega)
    rw [Option.map_some]
    dsimp only
    rw [hstart, ok_bind, hend, ok_bind, Option.bind_eq_bind, Option.bind_some]
    split
    · rfl
    · rw [hlines, ok_bind]
      rfl

end Checked

end CommentTags
