import CommentTags.Span
import CommentTags.Unicode.Lowercase
import Std.Data.TreeMap

/-!
# Ranges by tag

The outcome of a scan: for every tag key, which is a tag name in lower case, the spans to show in the
tag's style.

## Main definitions

* `TagRanges.push`: records one span;
* `TagRanges.append`: takes over the spans of another outcome;
* `TagRanges.normalize`: sorts the spans of each key and drops repetitions;
* `TagRanges.flat` and `TagRanges.collect`: turn ranges into a list of highlights and back.
-/

namespace CommentTags

/-- A span to show in the style of a tag. -/
structure Highlight where
  /-- The tag as found in the text. -/
  tag : String
  /-- The span to show. -/
  span : Span
deriving DecidableEq, Repr, Inhabited

/-- The spans to show, by tag key. -/
structure TagRanges where
  /-- The spans of each key. -/
  groups : Std.TreeMap String (Array Span) := {}

namespace TagRanges

/-- No spans. -/
def empty : TagRanges := {}

instance : EmptyCollection TagRanges := ⟨empty⟩

instance : Inhabited TagRanges := ⟨empty⟩

/-- Each key with its spans, in key order. -/
def toList (ranges : TagRanges) : List (String × List Span) :=
  ranges.groups.toList.map fun (key, spans) => (key, spans.toList)

instance : BEq TagRanges := ⟨fun a b => a.toList == b.toList⟩

/-- Records `span` for the tag `tag` in any letter case, unless the span is empty. -/
def push (ranges : TagRanges) (tag : String) (span : Span) : TagRanges :=
  if span.isEmpty then ranges
  else ⟨ranges.groups.alter (Unicode.lowercase tag) fun spans => some ((spans.getD #[]).push span)⟩

/-- The spans recorded for `tag` in any letter case. -/
def get (ranges : TagRanges) (tag : String) : List Span :=
  (ranges.groups.getD (Unicode.lowercase tag) #[]).toList

/-- The keys with spans, in order. -/
def keys (ranges : TagRanges) : List String :=
  ranges.groups.keys

/-- Nothing is recorded. -/
def isEmpty (ranges : TagRanges) : Bool :=
  ranges.groups.isEmpty

/-- The spans of `ranges` followed, key by key, by those of `other`. -/
def append (ranges other : TagRanges) : TagRanges :=
  ⟨other.groups.foldl
    (fun groups key spans => groups.alter key fun old => some (old.getD #[] ++ spans))
    ranges.groups⟩

instance : Append TagRanges := ⟨append⟩

/-- Each key's spans sorted and without repetitions. -/
def normalize (ranges : TagRanges) : TagRanges :=
  ⟨ranges.groups.map fun _ spans =>
    ((spans.toList.mergeSort (fun a b => decide (a ≤ b))).eraseReps).toArray⟩

/-- All spans with their keys, by key and then in the order recorded. -/
def flat (ranges : TagRanges) : List Highlight :=
  ranges.toList.flatMap fun (key, spans) => spans.map fun span => ⟨key, span⟩

/-- The number of spans of all keys. -/
def count (ranges : TagRanges) : Nat :=
  ranges.flat.length

/-- The spans of `highlights`, recorded in turn. -/
def pushAll (ranges : TagRanges) (highlights : List Highlight) : TagRanges :=
  highlights.foldl (fun ranges h => ranges.push h.tag h.span) ranges

/-- The normalized ranges of `highlights`. -/
def collect (highlights : List Highlight) : TagRanges :=
  (empty.pushAll highlights).normalize

end TagRanges

end CommentTags
