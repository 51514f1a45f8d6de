import CommentTags.Document
import CommentTags.Scan.Ranges
import CommentTags.Tag.Table

/-!
# Showing ranges

The ranges of a scan are handed to a `DecorationSink`, which shows for each tag what it was given last.
`applyDecorations` gives it one list of ranges for every configured tag, an empty one where nothing was
found, so that ranges shown before go away. `DecorationMap` is a sink that only remembers.
-/

namespace CommentTags

/-- Something that shows ranges of text. -/
class DecorationSink (κ : Type) where
  /-- Shows `ranges` for the tag with the key `key`, instead of what was shown before. -/
  setDecorations : κ → String → List TextRange → κ

/-- The ranges of the spans `spans` of a document. -/
def textRanges {δ : Type} [TextDocument δ] (document : δ) (spans : List Span) : List TextRange :=
  spans.map fun span =>
    ⟨TextDocument.positionAt document span.start, TextDocument.positionAt document span.stop⟩

/-- Gives the sink the ranges of every tag in the table. -/
def applyDecorations {δ κ : Type} [TextDocument δ] [DecorationSink κ] (tags : TagTable)
    (document : δ) (ranges : TagRanges) (sink : κ) : κ :=
  tags.keys.foldl
    (fun sink key => DecorationSink.setDecorations sink key (textRanges document (ranges.get key)))
    sink

/-- A sink that remembers the ranges of each tag. -/
structure DecorationMap where
  /-- The ranges of each key. -/
  ranges : Std.TreeMap String (List TextRange) := {}
  /-- The number of times that ranges were set. -/
  updates : Nat := 0

namespace DecorationMap

/-- The ranges set last for the key `key`. -/
def get (map : DecorationMap) (key : String) : List TextRange :=
  map.ranges.getD key []

/-- The keys for which ranges were set. -/
def keys (map : DecorationMap) : List String :=
  map.ranges.keys

instance : DecorationSink DecorationMap where
  setDecorations map key ranges :=
    { ranges := map.ranges.insert key ranges, updates := map.updates + 1 }

end DecorationMap

end CommentTags
