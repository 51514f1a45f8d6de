import CommentTags.Proofs.Checked.Enclosed
import CommentTags.Proofs.LineRun

/-!
# Runs of line comments by bytes

A run of line comments is followed from mark to mark by byte offsets. Claims count characters, so that the ends
of each line are brought to the document before the claims are asked, and the place where a line is cut is
brought back.

## Main definitions

* `Checked.readRun`: follows a run;
* `Checked.nextRun`: what the next opening mark gives.

## Main results

* `Checked.Fits.readRun_eq` and `Checked.Fits.nextRun_eq`: nothing goes wrong, and the outcome is that of the
  scan.
-/

namespace CommentTags

/-- What was read of a run with byte offsets in place of positions. -/
def LineRun.toBytes (text : Text) (run : LineRun) : LineRun where
  lines := run.lines.map (CommentLine.toBytes text)
  stop := text.byteAt run.stop
  resume := text.byteAt run.resume

/-- A run ends in the text. -/
theorem LineRun.stop_read_le {text : Text} {mark : Mark} {start : Nat}
    (hocc : text.occursAt mark.chars start = true) (base : Nat) (claims : ClaimSet) :
    (read text base claims mark [] start start).stop ≤ text.size := by
  have hreached : Reached text mark start start := ⟨hocc, .inl rfl⟩
  obtain ⟨run, hrun, hread⟩ := follows_read base claims [] start hreached.fits
  obtain ⟨-, hresume, hsize, -⟩ := hrun.bounds hreached
  rw [hread]
  exact Nat.le_trans hresume hsize

namespace Checked

/-- The next opening mark from the byte offset `pos` on, and the byte offsets of its ends. -/
def findOpener? (marks : List Mark) (text : Text) (pos : Nat) :
    Except IndexFault (Option (Mark × Nat × Nat)) := do
  let rest ← slice text pos text.byteLength
  return do
    let start ← text.findFree? (fun i => (LineRun.markAt? marks text i).isSome) rest.start
    let mark ← LineRun.markAt? marks text start
    return (mark, text.byteAt start, text.byteAt (start + mark.length))

/-- Where the line that starts at `lineStart` carries `mark` after its blanks. -/
def continuation? (text : Text) (mark : Mark) (lineStart : Nat) : Except IndexFault (Option Nat) := do
  let start ← add lineStart (← slice text lineStart text.byteLength).leadingBlanks
  let rest ← slice text start text.byteLength
  return if rest.startsWith mark.chars then some start else none

/-- Where the comment that starts with a mark at `markStart` is cut. -/
def cutAt (text : Text) (base : Nat) (claims : ClaimSet) (markStart eol : Nat) : Except IndexFault Nat := do
  let after ← charOffset text base markStart
  let before ← charOffset text base eol
  match claims.firstStartWithin after before with
  | some c => return byteOffset text base c
  | none => return eol

/-- Follows a run whose next mark goes from `markStart` to `markEnd`. -/
def readRun (text : Text) (base : Nat) (claims : ClaimSet) (mark : Mark) (lines : List CommentLine)
    (stop markStart markEnd : Nat) : Except IndexFault LineRun := do
  let eol ← lineEnd text markEnd
  let cut ← cutAt text base claims markStart eol
  if cut < markEnd then
    return ⟨lines.reverse, stop, markEnd⟩
  else
    let line ← commentLine text afterOneBlank markEnd cut
    if cut < eol then
      return ⟨(line :: lines).reverse, cut, cut⟩
    else if text.byteLength ≤ eol then
      return ⟨(line :: lines).reverse, eol, eol⟩
    else
      match ← continuation? text mark (← add eol 1) with
      | none => return ⟨(line :: lines).reverse, eol, eol⟩
      | some next =>
        if claims.contains (← charOffset text base next) then
          return ⟨(line :: lines).reverse, eol, eol⟩
        else
          let nextEnd ← add next (utf8Length mark.chars)
          if markStart < next ∧ next ≤ text.byteLength then
            readRun text base claims mark (line :: lines) eol next nextEnd
          else
            throw .stuck
termination_by text.byteLength - markStart

/-- What the next opening mark from the byte offset `pos` on gives when the text starts at `base` in its
document. -/
def nextRun (marks : List Mark) (text : Text) (base : Nat) (claims : ClaimSet) (pos : Nat) :
    Except IndexFault (Option Found) := do
  match ← findOpener? marks text pos with
  | none => return none
  | some (mark, start, stop) =>
    let first ← charOffset text base start
    if claims.contains first then
      return some { claim := ⟨first, first⟩, lines := [], inlineMark := none, resume := stop }
    else
      let run ← readRun text base claims mark [] start start stop
      let last ← charOffset text base run.stop
      return some {
        claim := ⟨first, last⟩
        lines := run.lines
        inlineMark := some mark
        resume := max run.resume stop }

/-! ## Nothing goes wrong -/

variable {marks : List Mark} {text : Text} {base i j : Nat} {claims : ClaimSet} {mark : Mark}

/-- The next opening mark is found. -/
theorem findOpener?_eq (hi : i ≤ text.size) :
    findOpener? marks text (text.byteAt i) = .ok (do
      let start ← text.findFree? (fun i => (LineRun.markAt? marks text i).isSome) i
      let mark ← LineRun.markAt? marks text start
      return (mark, text.byteAt start, text.byteAt (start + mark.length))) := by
  rw [findOpener?, slice_byteLength hi, ok_bind]
  rfl

/-- The mark of the next line is found. -/
theorem Fits.continuation?_eq (hfits : Fits text base) (hi : i ≤ text.size) :
    continuation? text mark (text.byteAt i) = .ok ((LineRun.continuation? text mark i).map text.byteAt) := by
  have hlo : i ≤ text.skipBlanks i text.size := Text.le_skipBlanks hi
  have hhi : text.skipBlanks i text.size ≤ text.size := Text.skipBlanks_le hi
  have hstart : add (text.byteAt i) (⟨i, text.size⟩ : Slice text).leadingBlanks =
      .ok (text.byteAt (text.skipBlanks i text.size)) :=
    hfits.add_upTo hlo hhi text.size
  -- a mark that stands in the text ends in it
  have hmark : (⟨text.skipBlanks i text.size, text.size⟩ : Slice text).startsWith mark.chars =
      text.occursAt mark.chars (text.skipBlanks i text.size) := by
    rw [Slice.startsWith, Bool.and_eq_right_iff_imp, decide_eq_true_eq]
    exact fun hocc => Text.add_length_le_of_occursAt hocc hhi
  rw [continuation?, slice_byteLength hi, ok_bind, hstart, ok_bind, slice_byteLength hhi, ok_bind, hmark,
    LineRun.continuation?]
  split <;> rfl

/-- The place where a line is cut is found. -/
theorem Fits.cutAt_eq (hfits : Fits text base) (claims : ClaimSet) (hij : i ≤ j) (hj : j ≤ text.size) :
    cutAt text base claims (text.byteAt i) (text.byteAt j) =
      .ok (text.byteAt (LineRun.cutAt base claims i j)) := by
  rw [cutAt, hfits.charOffset_byteAt (Nat.le_trans hij hj), ok_bind, hfits.charOffset_byteAt hj, ok_bind,
    LineRun.cutAt]
  cases claims.firstStartWithin (base + i) (base + j) <;> rfl

/-- A run is followed. -/
theorem Fits.readRun_eq (hfits : Fits text base) (lines : List CommentLine) (stop : Nat) {p : Nat}
    (hfit : p + mark.length ≤ text.size) :
    readRun text base claims mark (lines.map (CommentLine.toBytes text)) (text.byteAt stop) (text.byteAt p)
        (text.byteAt (p + mark.length)) =
      .ok ((LineRun.read text base claims mark lines stop p).toBytes text) := by
  have hlen := mark.length_pos
  have hmark := Text.le_lineEnd text (p + mark.length)
  have heol := Text.lineEnd_le hfit
  obtain ⟨-, hcut, -, -⟩ := @LineRun.cutAt_spec base claims p (text.lineEnd (p + mark.length)) (by omega)
  have hcutSize := Nat.le_trans hcut heol
  rw [readRun, hfits.lineEnd_eq hfit, ok_bind, hfits.cutAt_eq claims (by omega) heol, ok_bind, LineRun.read]
  rcases Nat.lt_or_ge (LineRun.cutAt base claims p (text.lineEnd (p + mark.length))) (p + mark.length) with
    hlt | hge
  -- the mark is cut
  · rw [if_pos (Text.byteAt_lt_byteAt hlt hfit), if_pos hlt, ← List.map_reverse]
    rfl
  · rw [if_neg (Nat.not_lt.2 (Text.byteAt_le_byteAt hge)), if_neg (Nat.not_lt.2 hge),
      hfits.commentLine_eq afterOneBlank hge hcutSize, ok_bind]
    simp only [← List.map_cons, ← List.map_reverse]
    rcases Nat.lt_or_eq_of_le hcut with hlt | heq
    -- the line is cut
    · rw [if_pos (Text.byteAt_lt_byteAt hlt heol), if_pos hlt]
      rfl
    · rw [heq, if_neg (Nat.lt_irrefl _), if_neg (Nat.lt_irrefl _)]
      rcases Nat.lt_or_eq_of_le heol with hinside | hsize
      · have hbytes : text.byteAt (text.lineEnd (p + mark.length)) < text.byteLength := by
          rw [← Text.byteAt_size]
          exact Text.byteAt_lt_byteAt hinside (Nat.le_refl _)
        have hfeed := Text.getElem?_lineEnd hfit hinside
        rw [if_neg (Nat.not_le.2 hbytes), dif_neg (Nat.not_le.2 hinside), hfits.add_one hfeed rfl, ok_bind,
          hfits.continuation?_eq hinside, ok_bind]
        cases hnext : LineRun.continuation? text mark (text.lineEnd (p + mark.length) + 1) with
        | none => rfl
        | some next =>
          obtain ⟨hle, hnextFit⟩ := LineRun.continuation?_eq_some hnext hinside
          have hocc := (LineRun.carriesAt_of_continuation? hnext hinside).occurs
          have hnextSize : next ≤ text.size := by omega
          rw [Option.map_some]
          dsimp only
          rw [hfits.charOffset_byteAt hnextSize, ok_bind]
          split
          · rfl
          -- the run goes on from the mark of the next line
          · have hnextEnd : add (text.byteAt next) (utf8Length mark.chars) =
                .ok (text.byteAt (next + mark.length)) :=
              hfits.add_utf8Length hocc hnextSize
            have hadvance : text.byteAt p < text.byteAt next ∧ text.byteAt next ≤ text.byteLength :=
              ⟨Text.byteAt_lt_byteAt (by omega) hnextSize, Text.byteAt_le_byteLength hnextSize⟩
            have hless : text.size - next < text.size - p := by omega
            rw [hnextEnd, ok_bind, if_pos hadvance]
            exact hfits.readRun_eq _ _ hnextFit
      -- the text ends
      · rw [hsize, Text.byteAt_size, if_pos (Nat.le_refl _), dif_pos (Nat.le_refl _), LineRun.toBytes,
          Text.byteAt_size]
        rfl
termination_by text.size - p

/-- What the next opening mark gives is found. -/
theorem Fits.nextRun_eq (hfits : Fits text base) (marks : List Mark) (claims : ClaimSet)
    (hi : i ≤ text.size) :
    nextRun marks text base claims (text.byteAt i) =
      .ok ((LineRun.next marks text base claims i).map (Found.toBytes text)) := by
  rw [nextRun, findOpener?_eq hi, ok_bind, LineRun.next]
  cases hstart : text.findFree? (fun i => (LineRun.markAt? marks text i).isSome) i with
  | none => rfl
  | some start =>
    simp only [Option.bind_eq_bind, Option.bind_some]
    cases hmark : LineRun.markAt? marks text start with
    | none => rfl
    | some mark =>
      have hocc := LineRun.occursAt_of_markAt? hmark
      have hfit := mark.add_length_le_of_occursAt hocc
      have hsize : start ≤ text.size := by omega
      have hrun : readRun text base claims mark [] (text.byteAt start) (text.byteAt start)
          (text.byteAt (start + mark.length)) =
            .ok ((LineRun.read text base claims mark [] start start).toBytes text) :=
        hfits.readRun_eq [] start hfit
      have hstop := LineRun.stop_read_le hocc base claims
      simp only [Option.bind_some]
      dsimp only [Option.pure_def]
      rw [hfits.charOffset_byteAt hsize, ok_bind]
      split
      · rfl
      · rw [hrun, ok_bind, LineRun.toBytes]
        dsimp only
        rw [hfits.charOffset_byteAt hstop, ok_bind, Text.max_byteAt]
        rfl

end Checked

end CommentTags
