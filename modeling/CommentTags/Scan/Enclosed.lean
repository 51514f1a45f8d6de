import CommentTags.Scan.Anchor
import CommentTags.Scan.Pass

/-!
# Doc comments and block comments

An enclosed comment goes from an opening mark to the first closing mark after it.

A comment that overlaps earlier claims is skipped; its opening mark is passed over and the text right
after it looked at again. The text after an accepted comment is looked at from its end on.

## Main definitions

* `Enclosure.find?`: the next comment of a kind;
* `Enclosure.lines`: the lines of its text;
* `Enclosure.pass`: the pass that finds comments of a kind.

## Main results

* `Enclosure.next_advances`: after each opening mark looking goes on further to the right.
-/

namespace CommentTags

/-- An enclosed comment found in a text. -/
structure EnclosedComment where
  /-- Where the opening mark starts. -/
  start : Nat
  /-- Where the text of the comment starts. -/
  bodyStart : Nat
  /-- Where the closing mark starts. -/
  bodyStop : Nat
  /-- The end of the closing mark. -/
  stop : Nat
deriving DecidableEq, Repr

namespace Enclosure

/-- White space that tells the mark of a doc comment from an empty block comment. -/
def isDocSpace (c : Char) : Bool :=
  isBlank c || c == '\r' || c == '\n'

/-- The comment opens at `i`, wherever it closes. -/
def opensAt (kind : Enclosure) (text : Text) (i : Nat) : Bool :=
  text.occursAt kind.opening.chars i &&
    match kind with
    | doc => text[i + kind.opening.length]?.any isDocSpace
    | block .. => true

/-- The number of characters from the opening mark on in which no closing mark is looked for. -/
def guard : Enclosure → Nat
  | doc => doc.opening.length + 1
  | block opening _ => opening.length

/-- The next comment in `text` whose opening mark stands at `pos` or later. -/
def find? (kind : Enclosure) (text : Text) (pos : Nat) : Option EnclosedComment := do
  let start ← text.findFree? (kind.opensAt text) pos
  let close ← text.find? kind.closing.chars (start + kind.guard) text.size
  return {
    start
    bodyStart := start + kind.opening.length
    bodyStop := close
    stop := close + kind.closing.length }

/-- A line of a doc comment after the first: an asterisk at its start does not belong to the text. -/
def docLine (text : Text) (start stop : Nat) : CommentLine :=
  let lead := text.skipBlanks start stop
  if lead < stop && text[lead]? == some '*' then
    CommentLine.ofSegment text afterOneBlank (lead + 1) stop
  else
    CommentLine.ofSegment text afterAnyBlanks start stop

/-- The lines of the comment text between `start` and `stop`. On the first line a tag must follow the
mark after one blank. Repetitions of the last character of the opening mark, and of the first one of
the closing mark, belong to the marks of a block comment. -/
def lines (kind : Enclosure) (text : Text) (start stop : Nat) : List CommentLine :=
  let split (further : Nat → Nat → CommentLine) (start stop : Nat) : List CommentLine :=
    match text.segments start stop with
    | [] => []
    | (first, eol) :: rest =>
      CommentLine.ofSegment text afterOneBlank first eol :: rest.map fun (s, e) => further s e
  match kind with
  | doc => split (docLine text) start stop
  | block opening closing =>
    let start := text.skipChar opening.last start stop
    let stop := text.dropEndWhile (· == closing.first) start stop
    if start < stop then split (CommentLine.ofSegment text afterAnyBlanks) start stop else []

/-- What the next comment from `pos` on gives when the text starts at `base` in its document. -/
def next (kind : Enclosure) (text : Text) (base : Nat) (claims : ClaimSet) (pos : Nat) :
    Option Found := do
  let comment ← kind.find? text pos
  if claims.overlaps (base + comment.start) (base + comment.stop) then
    return {
      claim := ⟨base + comment.start, base + comment.start⟩
      lines := []
      inlineMark := none
      resume := comment.bodyStart }
  else
    return {
      claim := ⟨base + comment.start, base + comment.stop⟩
      lines := kind.lines text comment.bodyStart comment.bodyStop
      inlineMark := none
      resume := comment.stop }

/-- The closing mark is looked for after the opening mark. -/
theorem opening_length_le_guard (kind : Enclosure) : kind.opening.length ≤ kind.guard := by
  cases kind <;> simp [guard, opening]

/-- After an opening mark looking goes on further to the right, within the text. -/
theorem next_advances {kind : Enclosure} {text : Text} {base : Nat} {claims : ClaimSet} {pos : Nat}
    {found : Found} (h : kind.next text base claims pos = some found) :
    pos < found.resume ∧ found.resume ≤ text.size := by
  have hopen := kind.opening.length_pos
  have hguard := kind.opening_length_le_guard
  simp only [next, find?, Option.bind_eq_bind, Option.bind_eq_some_iff] at h
  obtain ⟨comment, ⟨i, hi, j, hj, hc⟩, h⟩ := h
  obtain ⟨hpos, -⟩ := Text.findFree?_eq_some hi
  obtain ⟨⟨hle, -⟩, hp, -⟩ := firstFrom_eq_some_iff.1 hj
  simp only [Bool.and_eq_true, decide_eq_true_eq] at hp
  cases hc
  have hlen : kind.closing.length = kind.closing.chars.length := rfl
  -- a skipped comment is left after its opening mark, an accepted one after its closing mark
  split at h <;> cases h <;> simp only <;> omega

/-- The pass that finds comments of one kind. -/
def pass (kind : Enclosure) (text : Text) (base : Nat) : Pass text where
  next := kind.next text base
  advances := next_advances

end Enclosure

end CommentTags
