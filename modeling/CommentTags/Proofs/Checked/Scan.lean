import CommentTags.Proofs.Checked.LineRun
import CommentTags.Proofs.Checked.Tags
import CommentTags.Proofs.Scan

/-!
# A scan by bytes

A whole scan by byte offsets: it answers a fault wherever a slice of the text is none, an offset is no machine
word, or a loop does not get further. What the lines of a comment show is worked out before the checkpoint is
consulted, so that a fault does not go unnoticed because the scan was interrupted before.

## Main definitions

* `Checked.sweep`: claims and reads every comment of a kind;
* `Checked.scan`: a scan of a text.

## Main results

* `Checked.scan_eq_ok`: nothing goes wrong in a scan of a text all of whose offsets are machine words, whatever
  the marks, the tags and the claims are.
-/

namespace CommentTags

namespace Checked

variable {σ : Type} [Checkpoint σ]

/-- What the next comment from a byte offset on gives under the claims so far. -/
abbrev Finder :=
  ClaimSet → Nat → Except IndexFault (Option Found)

/-- What a part of a scan leaves behind. -/
abbrev Outcome (σ : Type) :=
  EStateM.Result Cancelled (ScanState σ) Unit

/-- What lines show, and where in the document it is. -/
def shownLines (matchers : Matchers) (text : Text) (base : Nat) (mode : Continuation)
    (inlineMark : Option Mark) (lines : List CommentLine) : Except IndexFault (List (Option TaggedLine)) := do
  placeAll text base (← taggedLines matchers text mode inlineMark none lines)

/-- Claims a comment and records what its lines show. -/
def take (text : Text) (base : Nat) (claim : Span) (shown : List (Option TaggedLine)) : ScanM σ Unit := do
  ScanM.consult
  ScanM.claim claim
  ScanM.recordAll text base shown

/-- Claims and reads every comment that `next` gives from the byte offset `pos` on. -/
def sweep (matchers : Matchers) (text : Text) (base : Nat) (next : Finder) (pos : Nat) (s : ScanState σ) :
    Except IndexFault (Outcome σ) := do
  match ← next s.claims pos with
  | none => return .ok () s
  | some found =>
    let shown ← shownLines matchers text base .indented found.inlineMark found.lines
    match take text base found.claim shown s with
    | .ok _ s =>
      if pos < found.resume ∧ found.resume ≤ text.byteLength then
        sweep matchers text base next found.resume s
      else
        throw .stuck
    | .error e s => return .error e s
termination_by text.byteLength - pos

/-- Claims and reads all that several finders give, one after the other. -/
def sweepAll (matchers : Matchers) (text : Text) (base : Nat) :
    List Finder → ScanState σ → Except IndexFault (Outcome σ)
  | [], s => return .ok () s
  | next :: rest, s => do
    match ← sweep matchers text base next 0 s with
    | .ok _ s => sweepAll matchers text base rest s
    | .error e s => return .error e s

/-- The finders for source code. -/
def codeFinders (enclosures : List Enclosure) (lineMarks : List Mark) (text : Text) (base : Nat) :
    List Finder :=
  enclosures.map (nextEnclosed · text base) ++ [nextRun lineMarks text base]

/-- The lines of plain text. -/
def plainLines (text : Text) : Except IndexFault (List CommentLine) := do
  (← segments text 0 text.byteLength).mapM fun segment =>
    commentLine text afterAnyBlanks segment.1 segment.2

/-- Scans a text that starts at `base` in its document. -/
def scanText (matchers : Matchers) (text : Text) (base : Nat) (s : ScanState σ) :
    Except IndexFault (Outcome σ) :=
  match (ScanM.consult : ScanM σ Unit) s with
  | .error e s => return .error e s
  | .ok _ s =>
    match matchers.shape with
    | .code enclosures lineMarks => sweepAll matchers text base (codeFinders enclosures lineMarks text base) s
    | .plainText => do
      let shown ← shownLines matchers text base .untilBlank none (← plainLines text)
      match (ScanM.consult : ScanM σ Unit) s with
      | .error e s => return .error e s
      | .ok _ s => return ScanM.recordAll text base shown s

/-- Scans `text`, which starts at the character `offset` of its document, under earlier `claims`. -/
def scan (matchers : Matchers) (text : String) (offset : Nat) (claims : ClaimSet) (checkpoint : σ) :
    Except IndexFault (Scanned σ) :=
  if matchers.isInert || text.isEmpty then
    return ⟨.ok .empty, claims, checkpoint⟩
  else do
    match ← scanText matchers (Text.ofString text) offset ⟨claims, [], checkpoint⟩ with
    | .ok _ s => return ⟨.ok (TagRanges.collect s.found.reverse), s.claims, s.checkpoint⟩
    | .error e s => return ⟨.error e, s.claims, s.checkpoint⟩

/-! ## Nothing goes wrong -/

variable {matchers : Matchers} {text : Text} {base i : Nat}

/-- The finder gives what the pass gives, and the pass reads nothing but lines of the text. -/
structure Implements (next : Finder) (pass : Pass text) : Prop where
  next_eq : ∀ (claims : ClaimSet) {i : Nat}, i ≤ text.size →
    next claims (text.byteAt i) = .ok ((pass.next claims i).map (Found.toBytes text))
  within : ∀ {claims : ClaimSet} {i : Nat} {found : Found}, pass.next claims i = some found →
    ∀ line ∈ found.lines, line.Within text 0 text.size

/-- What lines of the text show is found and brought to its place. -/
theorem Fits.shownLines_eq (hfits : Fits text base) (matchers : Matchers) (mode : Continuation)
    (inlineMark : Option Mark) {lines : List CommentLine}
    (hlines : ∀ line ∈ lines, line.Within text 0 text.size) :
    shownLines matchers text base mode inlineMark (lines.map (CommentLine.toBytes text)) =
      .ok (matchers.taggedLines text mode inlineMark none lines) := by
  have hnone : ∀ h ∈ (none : Option Head), h.tag.InText text := fun h hh => by cases hh
  have htagged := @Fits.taggedLines_eq matchers text base hfits mode inlineMark none lines hlines
  rw [Option.map_none] at htagged
  rw [shownLines, htagged, ok_bind]
  exact hfits.placeAll_eq fun t ht => Matchers.inText_of_mem_taggedLines hnone hlines ht

/-- The sweep of a finder is that of the pass. -/
theorem Fits.sweep_eq (hfits : Fits text base) (matchers : Matchers) {next : Finder} {pass : Pass text}
    (h : Implements next pass) {i : Nat} (hi : i ≤ text.size) (s : ScanState σ) :
    sweep matchers text base next (text.byteAt i) s = .ok (pass.sweep base matchers i s) := by
  rw [sweep, h.next_eq _ hi, ok_bind]
  cases hnext : pass.next s.claims i with
  | none =>
    rw [Pass.sweep_of_none hnext]
    rfl
  | some found =>
    obtain ⟨hlt, hle⟩ := pass.advances hnext
    have hshown : shownLines matchers text base .indented (found.toBytes text).inlineMark
        (found.toBytes text).lines = .ok (matchers.taggedLines text .indented found.inlineMark none found.lines) :=
      hfits.shownLines_eq matchers .indented found.inlineMark (h.within hnext)
    have htake : take text base (found.toBytes text).claim
        (matchers.taggedLines text .indented found.inlineMark none found.lines) s =
          found.take matchers text base s := rfl
    rw [Option.map_some, Pass.sweep_of_some hnext]
    dsimp only
    rw [hshown, ok_bind, htake]
    cases found.take matchers text base s with
    | error e t => rfl
    | ok _ t =>
      have hadvance : text.byteAt i < (found.toBytes text).resume ∧
          (found.toBytes text).resume ≤ text.byteLength :=
        ⟨Text.byteAt_lt_byteAt hlt hle, Text.byteAt_le_byteLength hle⟩
      dsimp only
      rw [if_pos hadvance]
      exact hfits.sweep_eq matchers h hle t
termination_by text.size - i

/-- Several finders are swept like their passes. -/
theorem Fits.sweepAll_eq (hfits : Fits text base) (matchers : Matchers) {nexts : List Finder}
    {passes : List (Pass text)} (h : List.Forall₂ Implements nexts passes) (s : ScanState σ) :
    sweepAll matchers text base nexts s = .ok (passes.forM (fun pass => pass.sweep base matchers 0) s) := by
  induction h generalizing s with
  | nil => rfl
  | @cons next pass nexts passes hnext _ ih =>
    have hsweep := hfits.sweep_eq matchers hnext (Nat.zero_le _) s
    rw [Text.byteAt_zero] at hsweep
    rw [sweepAll, hsweep, ok_bind]
    show _ = Except.ok (EStateM.bind (pass.sweep base matchers 0)
      (fun _ => passes.forM fun pass => pass.sweep base matchers 0) s)
    rw [EStateM.bind]
    cases pass.sweep base matchers 0 s with
    | error e t => rfl
    | ok _ t => exact ih t

theorem Fits.implements_nextEnclosed (hfits : Fits text base) (kind : Enclosure) :
    Implements (nextEnclosed kind text base) (kind.pass text base) where
  next_eq claims _ hi := hfits.nextEnclosed_eq kind claims hi
  within hnext := (Enclosure.readsApart_of_next hnext).within

theorem Fits.implements_nextRun (hfits : Fits text base) (lineMarks : List Mark) :
    Implements (nextRun lineMarks text base) (LineRun.pass lineMarks text base) where
  next_eq claims _ hi := hfits.nextRun_eq lineMarks claims hi
  within hnext := (LineRun.readsApart_of_next hnext).within

/-- The finders for source code find what the passes find. -/
theorem Fits.implements_codeFinders (hfits : Fits text base) (enclosures : List Enclosure)
    (lineMarks : List Mark) :
    List.Forall₂ Implements (codeFinders enclosures lineMarks text base)
      (codePasses enclosures lineMarks text base) := by
  rw [codeFinders, codePasses]
  induction enclosures with
  | nil => exact .cons (hfits.implements_nextRun lineMarks) .nil
  | cons kind rest ih => exact .cons (hfits.implements_nextEnclosed kind) ih

/-- The lines of plain text are read. -/
theorem Fits.plainLines_eq (hfits : Fits text base) :
    plainLines text = .ok ((CommentTags.plainLines text).map (CommentLine.toBytes text)) := by
  have hsegments := hfits.segments_eq (Nat.zero_le text.size) (Nat.le_refl _)
  rw [Text.byteAt_zero, Text.byteAt_size] at hsegments
  have hin := (@Text.segments_spec text 0 text.size (Nat.zero_le _)).1
  have hone : ∀ segment ∈ text.segments 0 text.size,
      commentLine text afterAnyBlanks (text.segmentToBytes segment).1 (text.segmentToBytes segment).2 =
        .ok ((CommentLine.ofSegment text afterAnyBlanks segment.1 segment.2).toBytes text) :=
    fun segment hsegment =>
      hfits.commentLine_eq afterAnyBlanks (hin segment hsegment).2.1 (hin segment hsegment).2.2.1
  rw [plainLines, hsegments, ok_bind, List.mapM_map, CommentTags.plainLines, List.map_map]
  exact mapM_of_ok hone

/-- A text is scanned. -/
theorem Fits.scanText_eq (hfits : Fits text base) (matchers : Matchers) (s : ScanState σ) :
    scanText matchers text base s = .ok (matchers.scanText text base s) := by
  show _ = Except.ok (EStateM.bind ScanM.consult _ s)
  rw [scanText, EStateM.bind]
  cases (ScanM.consult : ScanM σ Unit) s with
  | error e t => rfl
  | ok _ t =>
    dsimp only
    cases matchers.shape with
    | code enclosures lineMarks =>
      exact hfits.sweepAll_eq matchers (hfits.implements_codeFinders enclosures lineMarks) t
    | plainText =>
      dsimp only
      rw [hfits.plainLines_eq, ok_bind,
        hfits.shownLines_eq matchers .untilBlank none (CommentTags.plainLines_spec text).1, ok_bind]
      show _ = Except.ok (EStateM.bind ScanM.consult _ t)
      rw [EStateM.bind]
      cases (ScanM.consult : ScanM σ Unit) t <;> rfl

/-- A scan by bytes in a text all of whose offsets are machine words is the scan by characters. -/
theorem Fits.scan_eq {text : String} {offset : Nat} (hfits : Fits (Text.ofString text) offset)
    (matchers : Matchers) (claims : ClaimSet) (checkpoint : σ) :
    scan matchers text offset claims checkpoint =
      .ok (matchers.scan text offset claims checkpoint) := by
  rw [scan, Matchers.scan]
  split
  · rfl
  · rw [hfits.scanText_eq, ok_bind]
    cases matchers.scanText (Text.ofString text) offset ⟨claims, [], checkpoint⟩ with
    | ok a s => rfl
    | error e s => rfl

/-- Whatever the marks, the tags, the claims and the checkpoint are, nothing goes wrong in a scan of a text
all of whose offsets are machine words: each slice lies in the text and cuts no character, no offset exceeds a
machine word, each loop gets further and stays in the text, and the outcome is that of the scan. -/
theorem scan_eq_ok (matchers : Matchers) (text : String) (offset : Nat) (claims : ClaimSet) (checkpoint : σ)
    (hbytes : text.utf8ByteSize < UInt64.size) (hchars : offset + text.length < UInt64.size) :
    scan matchers text offset claims checkpoint = .ok (matchers.scan text offset claims checkpoint) := by
  have hfits : Fits (Text.ofString text) offset := {
    bytes := by rwa [Text.byteLength_ofString]
    chars := hchars }
  exact hfits.scan_eq matchers claims checkpoint

/-- A run with a mark of three bytes after a character of two, cut by a claim in the middle: nothing goes
wrong, and the part before the claim is shown. -/
theorem scan_eq_ok_multibyte :
    let matchers : Matchers := ⟨none, some ⟨"^(?:!)", [['!']]⟩, .code [] [⟨['→'], by decide⟩]⟩
    let text := "é\n→ !ü"
    let claims := ClaimSet.ofList [⟨10, 11⟩]
    let scanned := matchers.scan text 5 claims Unlimited.mk
    text.utf8ByteSize < UInt64.size ∧ 5 + text.length < UInt64.size ∧
      scan matchers text 5 claims Unlimited.mk = .ok scanned ∧
      scanned.result.toOption.map TagRanges.toList = some [("!", [⟨9, 10⟩])] := by
  intro matchers text claims scanned
  have hbytes : text.utf8ByteSize < UInt64.size := by decide
  have hchars : 5 + text.length < UInt64.size := by decide
  refine ⟨hbytes, hchars, scan_eq_ok matchers text 5 claims Unlimited.mk hbytes hchars, ?_⟩
  dsimp only [scanned, claims, matchers, text]
  decide +kernel

-- at the last machine word, the offset of the mark on the second line is none
example :
    let matchers : Matchers := ⟨none, some ⟨"^(?:!)", [['!']]⟩, .code [] [⟨['#'], by decide⟩]⟩
    scan matchers "\n# !" (UInt64.size - 1) {} Unlimited.mk = .error .overflow := by
  with_unfolding_all rfl

end Checked

end CommentTags
