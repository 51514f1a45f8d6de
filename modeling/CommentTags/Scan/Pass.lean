import CommentTags.Checkpoint
import CommentTags.Scan.Claims
import CommentTags.Scan.CommentLine
import CommentTags.Scan.Ranges

/-!
# Passes over a text

A scan goes over the text once for every kind of comment.

Before a comment is claimed, and before the highlight of each of its heads is recorded, the caller's
checkpoint is consulted. When it fails, the scan ends and the claims made so far remain.

## Main definitions

* `ScanM`: a step of a scan, which may be interrupted;
* `Pass`: what the next comment from a position on is, given the claims so far;
* `Pass.sweep`: runs a pass from a position to the end of the text.
-/

namespace CommentTags

/-- The state of a scan. -/
structure ScanState (σ : Type) where
  /-- The claimed text. -/
  claims : ClaimSet
  /-- What was found, last first. -/
  found : List Highlight
  /-- The caller's checkpoint. -/
  checkpoint : σ

/-- A step of a scan, which may be interrupted. -/
abbrev ScanM (σ : Type) := EStateM Cancelled (ScanState σ)

namespace ScanM

variable {σ : Type}

/-- Consults the checkpoint. -/
def consult [Checkpoint σ] : ScanM σ Unit := fun s =>
  match Checkpoint.consult s.checkpoint with
  | (true, checkpoint) => .ok () { s with checkpoint }
  | (false, checkpoint) => .error .cancelled { s with checkpoint }

/-- Claims a span. -/
def claim (span : Span) : ScanM σ Unit :=
  modify fun s => { s with claims := s.claims.claim span }

/-- Records what a line shows, at the place of the text in its document. -/
def record (text : Text) (base : Nat) (line : TaggedLine) : ScanM σ Unit :=
  modify fun s => { s with
    found := ⟨text.slice line.tag.start line.tag.stop, line.shown.shift base⟩ :: s.found }

/-- Records what `lines` show; the checkpoint is consulted before each head. -/
def recordAll [Checkpoint σ] (text : Text) (base : Nat) : List (Option TaggedLine) → ScanM σ Unit
  | [] => pure ()
  | none :: rest => recordAll text base rest
  | some line :: rest => do
    if line.isHead then consult
    record text base line
    recordAll text base rest

end ScanM

/-- What a pass makes of the next opening mark. -/
structure Found where
  /-- The text to claim; nothing if the comment is left to an earlier claim. -/
  claim : Span
  /-- The lines to read. -/
  lines : List CommentLine
  /-- The mark after which a tag may stand further on in a line. -/
  inlineMark : Option Mark
  /-- Where to go on looking. -/
  resume : Nat

/-- A way to find one kind of comment in `text`. -/
structure Pass (text : Text) where
  /-- What the next opening mark from a position on gives under the claims so far. -/
  next : ClaimSet → Nat → Option Found
  /-- Looking goes on further to the right, within the text. -/
  advances : ∀ {claims : ClaimSet} {pos : Nat} {found : Found},
    next claims pos = some found → pos < found.resume ∧ found.resume ≤ text.size

/-- Claims and reads every comment that `pass` finds from `pos` on. -/
def Pass.sweep {σ : Type} [Checkpoint σ] {text : Text} (pass : Pass text) (base : Nat)
    (matchers : Matchers) (pos : Nat) : ScanM σ Unit := fun s =>
  match _h : pass.next s.claims pos with
  | none => .ok () s
  | some found =>
    let step : ScanM σ Unit := do
      ScanM.consult
      ScanM.claim found.claim
      ScanM.recordAll text base
        (matchers.taggedLines text .indented found.inlineMark none found.lines)
    match step s with
    | .ok _ s => sweep pass base matchers found.resume s
    | .error e s => .error e s
termination_by text.size - pos
decreasing_by
  have := pass.advances _h
  omega

end CommentTags
