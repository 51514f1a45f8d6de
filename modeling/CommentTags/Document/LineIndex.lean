import CommentTags.Document.Position
import CommentTags.Text.Basic

/-!
# The lines of a document

A `LineIndex` knows where the lines of a text start and converts between character offsets and positions.

A line ends after a line feed, a carriage return, a vertical tab, a form feed, a next-line character, a
line separator or a paragraph separator; a carriage return and the line feed after it end one line
together. Columns are clamped before the line feed at the end of a line and the carriage return before
it, while any other break counts as a character of its line.

## Main definitions

* `LineIndex.ofString`: the lines of a string;
* `LineIndex.positionAt` and `LineIndex.offsetAt`: the conversions, for every argument;
* `LineIndex.lineText?`: the text of a line.
-/

namespace CommentTags

/-- A character that ends a line of a document. -/
def isLineBreak (c : Char) : Bool :=
  c == '\n' || c == '\r' || c == '\x0b' || c == '\x0c' || c == '\u0085' || c == '\u2028' ||
    c == '\u2029'

namespace Text

/-- A line of a document starts at `i`. -/
def startsDocumentLine (text : Text) (i : Nat) : Bool :=
  i == 0 ||
    (text[i - 1]?.any isLineBreak && !(text[i - 1]? == some '\r' && text[i]? == some '\n'))

/-- Where the lines of a document start. -/
def documentLineStarts (text : Text) : Array Nat :=
  (Array.range (text.size + 1)).filter text.startsDocumentLine

end Text

/-- A text and where its lines start. -/
structure LineIndex where
  /-- The characters. -/
  text : Text
  /-- The offsets at which lines start. -/
  starts : Array Nat
  /-- The offsets are those of the text. -/
  starts_eq : starts = text.documentLineStarts

namespace LineIndex

/-- The lines of a string. -/
def ofString (s : String) : LineIndex :=
  ⟨Text.ofString s, _, rfl⟩

instance : Inhabited LineIndex := ⟨ofString ""⟩

/-- The number of lines; there is always one. -/
def lineCount (index : LineIndex) : Nat :=
  index.starts.size

/-- The number of characters. -/
def charCount (index : LineIndex) : Nat :=
  index.text.size

/-- The whole text. -/
def toString (index : LineIndex) : String :=
  String.ofList index.text.toList

/-- The number of bytes in UTF-8. -/
def byteCount (index : LineIndex) : Nat :=
  index.toString.utf8ByteSize

/-- The line of the character at `offset`, or the last line. -/
def lineOf (index : LineIndex) (offset : Nat) : Nat :=
  partitionPoint (fun i => index.starts[i]?.all (offset < ·)) 0 index.starts.size - 1

/-- The position of the character at `offset`; offsets beyond the text stand for its end. -/
def positionAt (index : LineIndex) (offset : Nat) : Position :=
  let offset := min offset index.charCount
  let line := index.lineOf offset
  ⟨line, offset - index.starts[line]?.getD 0⟩

/-- The number of characters of a line that columns count, when the line takes `start ≤ p < stop`. -/
def columns (text : Text) (start stop : Nat) : Nat :=
  let length := stop - start
  if 0 < length && text[stop - 1]? == some '\n' then
    if 1 < length && text[stop - 2]? == some '\r' then length - 2 else length - 1
  else
    length

/-- The number of characters of `line` that columns count. -/
def lineLength (index : LineIndex) (line : Nat) : Nat :=
  match index.starts[line]? with
  | some start => columns index.text start (index.starts[line + 1]?.getD index.charCount)
  | none => 0

/-- The offset of a position. A column beyond its line stands for the end of the line, and a line
beyond the text for the end of the text. -/
def offsetAt (index : LineIndex) (position : Position) : Nat :=
  match index.starts[position.line]? with
  | some start => start + min position.column (index.lineLength position.line)
  | none => index.charCount

/-- The offset at which `line` starts. -/
def lineStart (index : LineIndex) (line : Nat) : Nat :=
  index.offsetAt ⟨line, 0⟩

/-- The offset at which the columns of `line` end. -/
def lineEnd (index : LineIndex) (line : Nat) : Nat :=
  index.offsetAt ⟨line, Position.endOfLine⟩

/-- The text from `start` to just before `stop`. -/
def slice (index : LineIndex) (start stop : Nat) : String :=
  index.text.slice start stop

/-- The text of `line` as far as columns count it. -/
def lineText? (index : LineIndex) (line : Nat) : Option String :=
  index.starts[line]?.map fun start => index.slice start (start + index.lineLength line)

end LineIndex

end CommentTags
