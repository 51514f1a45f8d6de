import CommentTags.Scan.Enclosed
import CommentTags.Scan.LineRun

/-!
# Scanning a text for tags

In source code a scan looks for every kind of enclosed comment in turn and then for the runs of line
comments. In plain text it reads every line.

A scan answers the ranges of each tag and the claims made. A scan that is interrupted answers no ranges;
the claims made up to then remain.

## Main definitions

* `codePasses`: the passes over source code, in order;
* `plainLines`: the lines of plain text;
* `Matchers.scan`: scans a text that starts at a given offset of its document.
-/

namespace CommentTags

/-- What a scan leaves behind. -/
structure Scanned (σ : Type) where
  /-- The ranges of each tag, unless the scan was interrupted. -/
  result : Except Cancelled TagRanges
  /-- The claims after the scan. -/
  claims : ClaimSet
  /-- The caller's checkpoint after the scan. -/
  checkpoint : σ

/-- The passes over source code: enclosed comments of each kind, then runs of line comments. -/
def codePasses (enclosures : List Enclosure) (lineMarks : List Mark) (text : Text) (base : Nat) :
    List (Pass text) :=
  enclosures.map (·.pass text base) ++ [LineRun.pass lineMarks text base]

/-- The lines of plain text. -/
def plainLines (text : Text) : List CommentLine :=
  (text.segments 0 text.size).map fun (start, stop) =>
    CommentLine.ofSegment text afterAnyBlanks start stop

namespace Matchers

variable {σ : Type} [Checkpoint σ]

/-- Scans a text that starts at `base` in its document. -/
def scanText (matchers : Matchers) (text : Text) (base : Nat) : ScanM σ Unit := do
  ScanM.consult
  match matchers.shape with
  | .code enclosures lineMarks =>
    (codePasses enclosures lineMarks text base).forM fun pass => pass.sweep base matchers 0
  | .plainText =>
    ScanM.consult
    ScanM.recordAll text base
      (matchers.taggedLines text .untilBlank none none (plainLines text))

/-- Scans `text`, which starts at the character `offset` of its document, under earlier `claims`.
Nothing is looked for, and the checkpoint is not consulted, when nothing can be found. -/
def scan (matchers : Matchers) (text : String) (offset : Nat) (claims : ClaimSet) (checkpoint : σ) :
    Scanned σ :=
  if matchers.isInert || text.isEmpty then
    ⟨.ok .empty, claims, checkpoint⟩
  else
    match matchers.scanText (Text.ofString text) offset ⟨claims, [], checkpoint⟩ with
    | .ok _ s => ⟨.ok (TagRanges.collect s.found.reverse), s.claims, s.checkpoint⟩
    | .error e s => ⟨.error e, s.claims, s.checkpoint⟩

end Matchers

end CommentTags
