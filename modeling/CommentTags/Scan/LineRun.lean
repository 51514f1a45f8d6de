import CommentTags.Scan.Anchor
import CommentTags.Scan.Pass

/-!
# Runs of line comments

A line comment goes from its mark to the end of the line. Line comments on consecutive lines form one
run if every further line starts, after blanks, with the exact text of the first mark. The mark takes in
all repetitions of its last character, so that a run of `///` does not go on over a line with `//`.

A run ends where claimed text begins.

## Main definitions

* `LineRun.markAt?`: the mark at a position, with its repetitions;
* `LineRun.read`: follows a run through the text;
* `LineRun.pass`: the pass that finds runs of line comments.

## Main results

* `LineRun.next_advances`: after each opening mark looking goes on further to the right.
-/

namespace CommentTags

/-- What was read of a run of line comments. -/
structure LineRun where
  /-- The text after the mark on each line. -/
  lines : List CommentLine
  /-- The end of the run. -/
  stop : Nat
  /-- Where to go on looking for comments. -/
  resume : Nat
deriving DecidableEq, Repr

namespace LineRun

/-- The mark together with the repetitions of its last character that follow it at `i`. -/
def extend (text : Text) (i : Nat) (mark : Mark) : Mark where
  chars := mark.chars ++ List.replicate
    (text.skipChar mark.last (i + mark.length) text.size - (i + mark.length)) mark.last
  nonempty := by simp [mark.nonempty]

/-- The first of the `marks` that stands at `i`, with its repetitions. -/
def markAt? (marks : List Mark) (text : Text) (i : Nat) : Option Mark :=
  (marks.find? (text.occursAt ·.chars i)).map (extend text i)

/-- A mark with its repetitions lies in the text. -/
theorem add_length_le_of_markAt? {marks : List Mark} {text : Text} {i : Nat} {mark : Mark}
    (h : markAt? marks text i = some mark) (hi : i < text.size) : i + mark.length ≤ text.size := by
  simp only [markAt?, Option.map_eq_some_iff] at h
  obtain ⟨m, hm, rfl⟩ := h
  have hocc : text.occursAt m.chars i = true := by
    simpa using List.find?_some hm
  have hocc : i + m.length ≤ text.size :=
    Text.add_length_le_of_occursAt hocc (Nat.le_of_lt hi)
  have hskip : text.skipChar m.last (i + m.length) text.size ≤ text.size := Text.skipChar_le hocc
  simp only [Mark.length, extend, List.length_append, List.length_replicate] at *
  omega

/-- Where the line that starts at `lineStart` carries `mark` after its blanks. -/
def continuation? (text : Text) (mark : Mark) (lineStart : Nat) : Option Nat :=
  let i := text.skipBlanks lineStart text.size
  if text.occursAt mark.chars i then some i else none

/-- The mark of a further line lies in the text, at the start of the line or later. -/
theorem continuation?_eq_some {text : Text} {mark : Mark} {lineStart i : Nat}
    (h : continuation? text mark lineStart = some i) (hl : lineStart ≤ text.size) :
    lineStart ≤ i ∧ i + mark.length ≤ text.size := by
  simp only [continuation?, Option.ite_none_right_eq_some, Option.some.injEq] at h
  obtain ⟨hocc, rfl⟩ := h
  exact ⟨Text.le_skipBlanks hl, Text.add_length_le_of_occursAt hocc (Text.skipBlanks_le hl)⟩

/-- Where the comment that starts with a mark at `markStart` is cut: at the first claim that starts
after that position in the same line, or at the end of the line. -/
def cutAt (base : Nat) (claims : ClaimSet) (markStart eol : Nat) : Nat :=
  match claims.firstStartWithin (base + markStart) (base + eol) with
  | some c => c - base
  | none => eol

/-- Follows a run whose next mark stands at `markStart`; `lines` are the lines read so far, last first,
and `stop` is where they end. A claim that starts inside a mark ends the run before the mark. -/
def read (text : Text) (base : Nat) (claims : ClaimSet) (mark : Mark) (lines : List CommentLine)
    (stop markStart : Nat) : LineRun :=
  let markEnd := markStart + mark.length
  let eol := text.lineEnd markEnd
  let cut := cutAt base claims markStart eol
  -- the mark itself is cut
  if cut < markEnd then ⟨lines.reverse, stop, markEnd⟩
  else
    let lines := CommentLine.ofSegment text afterOneBlank markEnd cut :: lines
    -- the line is cut after its mark
    if cut < eol then ⟨lines.reverse, cut, cut⟩
    else if _hsize : text.size ≤ eol then ⟨lines.reverse, eol, eol⟩
    else
      match _hnext : continuation? text mark (eol + 1) with
      | none => ⟨lines.reverse, eol, eol⟩
      | some next =>
        if claims.contains (base + next) then ⟨lines.reverse, eol, eol⟩
        else read text base claims mark lines eol next
termination_by text.size - markStart
decreasing_by
  have h₁ : eol + 1 ≤ next := (continuation?_eq_some _hnext (by omega)).1
  have h₂ : markEnd ≤ eol := Text.le_lineEnd text markEnd
  have h₃ : markStart < markEnd := Nat.lt_add_of_pos_right mark.length_pos
  omega

/-- A run is left within the text. -/
theorem resume_read_le {text : Text} {base : Nat} {claims : ClaimSet} {mark : Mark}
    {lines : List CommentLine} {stop markStart : Nat} (h : markStart + mark.length ≤ text.size) :
    (read text base claims mark lines stop markStart).resume ≤ text.size := by
  have heol := Text.lineEnd_le h
  rw [read]
  split
  · exact h
  · simp only
    split
    · simp only
      omega
    · split
      · exact heol
      · next hsize =>
        split
        · exact heol
        · next i hi =>
          split
          · exact heol
          · have hnext := continuation?_eq_some hi (by omega)
            have hmark := Text.le_lineEnd text (markStart + mark.length)
            have hlen := mark.length_pos
            have hless : text.size - i < text.size - markStart := by omega
            exact resume_read_le hnext.2
termination_by text.size - markStart

/-- What the next opening mark from `pos` on gives when the text starts at `base` in its document. -/
def next (marks : List Mark) (text : Text) (base : Nat) (claims : ClaimSet) (pos : Nat) :
    Option Found := do
  let start ← text.findFree? (fun i => (markAt? marks text i).isSome) pos
  let mark ← markAt? marks text start
  if claims.contains (base + start) then
    return {
      claim := ⟨base + start, base + start⟩
      lines := []
      inlineMark := none
      resume := start + mark.length }
  else
    let run := read text base claims mark [] start start
    return {
      claim := ⟨base + start, base + run.stop⟩
      lines := run.lines
      inlineMark := some mark
      resume := max run.resume (start + mark.length) }

/-- After an opening mark looking goes on further to the right, within the text. -/
theorem next_advances {marks : List Mark} {text : Text} {base : Nat} {claims : ClaimSet} {pos : Nat}
    {found : Found} (h : next marks text base claims pos = some found) :
    pos < found.resume ∧ found.resume ≤ text.size := by
  simp only [next, Option.bind_eq_bind, Option.bind_eq_some_iff] at h
  obtain ⟨i, hi, mark, hmark, h⟩ := h
  obtain ⟨hpos, hlt, -⟩ := Text.findFree?_eq_some hi
  have hlen := mark.length_pos
  have hfit := add_length_le_of_markAt? hmark hlt
  have hread : (read text base claims mark [] i i).resume ≤ text.size := resume_read_le hfit
  split at h <;> cases h <;> simp only <;> omega

/-- The pass that finds runs of line comments with one of the `marks`. -/
def pass (marks : List Mark) (text : Text) (base : Nat) : Pass text where
  next := next marks text base
  advances := next_advances

end LineRun

end CommentTags
