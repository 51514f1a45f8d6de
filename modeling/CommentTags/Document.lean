import CommentTags.Document.LineIndex

/-!
# Documents

A scan reads documents through `TextDocument`, which a host implements on top of its own buffers.
`SourceDocument` is an implementation that holds its text itself.
-/

namespace CommentTags

/-- What a scan needs to know about a document. Offsets count characters from its start. -/
class TextDocument (δ : Type) where
  /-- The language that decides which comment marks count. -/
  languageId : δ → String
  /-- The whole text. -/
  text : δ → String
  /-- The offset of a position, clamped to the document. -/
  offsetAt : δ → Position → Nat
  /-- The position of an offset, clamped to the document. -/
  positionAt : δ → Nat → Position
  /-- The number of lines, at least one. -/
  lineCount : δ → Nat
  /-- The text of a range, clamped to the document. -/
  textIn : δ → TextRange → String := fun document range =>
    let start := offsetAt document range.start
    let stop := offsetAt document range.stop
    String.ofList (((text document).toList.drop start).take (stop - start))
  /-- The ranges that are visible, by default the whole document. -/
  visibleRanges : δ → List TextRange := fun document => [.lines 0 (lineCount document - 1)]

/-- A document that holds its text. -/
structure SourceDocument where
  /-- The language. -/
  languageId : String
  /-- The text and its lines. -/
  index : LineIndex
  /-- The visible ranges; none stand for the whole document. -/
  visible : List TextRange := []

namespace SourceDocument

/-- A document all of which is visible. -/
def new (languageId text : String) : SourceDocument :=
  { languageId, index := .ofString text }

/-- Replaces the text; what is visible stays. -/
def setText (document : SourceDocument) (text : String) : SourceDocument :=
  { document with index := .ofString text }

/-- Sets the visible ranges; none stand for the whole document. -/
def setVisible (document : SourceDocument) (visible : List TextRange) : SourceDocument :=
  { document with visible }

instance : TextDocument SourceDocument where
  languageId := languageId
  text document := document.index.toString
  offsetAt document := document.index.offsetAt
  positionAt document := document.index.positionAt
  lineCount document := document.index.lineCount
  textIn document range :=
    document.index.slice (document.index.offsetAt range.start) (document.index.offsetAt range.stop)
  visibleRanges document :=
    if document.visible.isEmpty then [.lines 0 (document.index.lineCount - 1)] else document.visible

end SourceDocument

end CommentTags
