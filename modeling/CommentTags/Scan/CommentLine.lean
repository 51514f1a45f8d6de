import CommentTags.Scan.Matchers
import CommentTags.Span

/-!
# The lines of a comment

The text of a comment, its marks stripped, is read line by line. A `CommentLine` says where the content
of a line is, how far it is indented, and whether a tag may stand at its start.

Lines are shown by two rules:

* A line that may open a tag and starts with a multiline tag is a head. It is shown whole, and so are
  the lines that follow it, up to the first line that is blank, that is not indented deeper than the
  head (`Continuation.indented`), or that may open a tag and starts with one.
* Any other line shows the line tag it starts with, or else the first tag after a mark further on in
  the line (`inlineTag?`).

## Main definitions

* `CommentLine.ofSegment`: a line of comment text from where it lies in the text;
* `Matchers.taggedLines`: what each of several lines shows;
* `Matchers.inlineTag?`: the first tag after a mark inside a line.
-/

namespace CommentTags

/-- One line of comment text. -/
structure CommentLine where
  /-- Where the content starts, after the indentation. -/
  start : Nat
  /-- The end of the content, trailing white space left off. -/
  stop : Nat
  /-- The number of blanks before the content. -/
  indent : Nat
  /-- A tag may stand at the start of the content. -/
  opener : Bool
deriving DecidableEq, Repr, Inhabited

namespace CommentLine

/-- The line between `start` and `stop`; `mayOpen` tells from the indentation whether a tag may stand
at the start of its content. -/
def ofSegment (text : Text) (mayOpen : Nat → Bool) (start stop : Nat) : CommentLine :=
  let content := text.skipBlanks start stop
  { start := content
    stop := text.trimEnd content stop
    indent := content - start
    opener := mayOpen (content - start) }

/-- The line has no content. -/
def isBlank (line : CommentLine) : Bool :=
  line.stop ≤ line.start

end CommentLine

/-- A tag may stand after exactly one blank. -/
def afterOneBlank (indent : Nat) : Bool :=
  indent == 1

/-- A tag may stand after any number of blanks. -/
def afterAnyBlanks (_ : Nat) : Bool :=
  true

/-- How far the highlight of a multiline tag goes on. -/
inductive Continuation where
  /-- As long as lines are indented deeper than the head. -/
  | indented
  /-- Up to a blank line. -/
  | untilBlank
deriving DecidableEq, Repr

/-- A line whose highlight may go on over the lines that follow. -/
structure Head where
  /-- The tag at the start of the line. -/
  tag : Span
  /-- The indentation of the line. -/
  indent : Nat
deriving DecidableEq, Repr

/-- What is shown of a line. -/
structure TaggedLine where
  /-- The tag that decides the style. -/
  tag : Span
  /-- The text to show. -/
  shown : Span
  /-- The line is a head. -/
  isHead : Bool
deriving DecidableEq, Repr

namespace Matchers

variable (matchers : Matchers) (text : Text)

/-- The line as a head, if it is one. -/
def head? (line : CommentLine) : Option Head :=
  if line.opener && !line.isBlank then do
    let length ← (← matchers.multiline).matchAt? text line.start line.stop
    return ⟨⟨line.start, line.start + length⟩, line.indent⟩
  else
    none

/-- The highlight of `head` goes on over `line`. -/
def goesOn (mode : Continuation) (head : Head) (line : CommentLine) : Bool :=
  !line.isBlank && (mode == .untilBlank || head.indent < line.indent) &&
    !(line.opener && (matchers.tagAt? text line.start line.stop).isSome)

/-- The first tag in `start ≤ p < stop` that follows an occurrence of `mark` and one blank; a blank
stands before the mark. Occurrences of the mark are looked for one after the other, without overlap. -/
def inlineTag? (mark : Mark) (start stop : Nat) : Option Span :=
  match _h : text.find? mark.chars start stop with
  | none => none
  | some i =>
    let next := i + mark.length
    match
      if text.followsBlank i && next < stop && text.blankAt next then
        matchers.tagAt? text (next + 1) stop
      else
        none with
    | some length => some ⟨next + 1, next + 1 + length⟩
    | none => inlineTag? mark next stop
termination_by stop + 1 - start
decreasing_by
  have h₁ := le_of_firstFrom _h
  have h₂ := lt_of_firstFrom _h
  have h₃ := mark.length_pos
  omega

/-- The tag that a line shows when it is neither a head nor under one. -/
def lineTag? (inlineMark : Option Mark) (line : CommentLine) : Option Span :=
  if line.isBlank then none
  else
    let leading := if line.opener then do
        let length ← (← matchers.line).matchAt? text line.start line.stop
        return Span.mk line.start (line.start + length)
      else
        none
    leading.or (inlineMark.bind (matchers.inlineTag? text · line.start line.stop))

/-- What each of the `lines` shows when the highlight of `head` may go on over the first. -/
def taggedLines (mode : Continuation) (inlineMark : Option Mark) (head : Option Head) :
    List CommentLine → List (Option TaggedLine)
  | [] => []
  | line :: rest =>
    match head.filter (matchers.goesOn text mode · line) with
    | some h =>
      some ⟨h.tag, ⟨line.start, line.stop⟩, false⟩ :: taggedLines mode inlineMark (some h) rest
    | none =>
      match matchers.head? text line with
      | some h =>
        some ⟨h.tag, ⟨line.start, line.stop⟩, true⟩ :: taggedLines mode inlineMark (some h) rest
      | none =>
        (matchers.lineTag? text inlineMark line).map (fun tag => ⟨tag, ⟨tag.start, line.stop⟩, false⟩)
          :: taggedLines mode inlineMark none rest

end Matchers

end CommentTags
