import CommentTags.Proofs.Copy.Enclosed
import CommentTags.Proofs.Copy.LineRun

/-!
# Scanning a whole copy

A document may be a copy of a text and nothing else. A scan of the copy does, action by action, what a
scan of the text does: the passes over the copy find the comments of the text and no others, and the lines
of a plain text are copied one by one.

## Main definitions

* `CommentShape.marks`: all marks that a scan looks for;
* `Pass.Mirrors`: a pass finds in the copy what another one finds in the text, and nothing else.

## Main results

* `codePasses_mirror`: the passes over the copy mirror those over the text;
* `Matchers.planText_alike`: the plan of a scan of the copy does what the plan of a scan of the text does.
-/

namespace CommentTags

/-- The marks of all comments that are looked for. -/
def CommentShape.marks : CommentShape → List Mark
  | code enclosures lineMarks => enclosures.flatMap (fun kind => [kind.opening, kind.closing]) ++ lineMarks
  | plainText => []

/-- `pass'` finds in the copy what `pass` finds in the text, and nothing else. -/
structure Pass.Mirrors {text copy : Text} (ending : LineEnding) (place : Nat → Nat) (base base' : Nat)
    (pass : Pass text) (pass' : Pass copy) : Prop where
  copied : pass.CopiedBy ending place base base' pass'
  none : ∀ {claims others : ClaimSet} {pos pos' : Nat}, text.Stands copy place pos pos' → pos ≤ text.size →
    pass.next claims pos = none → pass'.next others pos' = none

variable {text copy : Text} {ending : LineEnding} {place : Nat → Nat} {base base' : Nat} {spot : Nat → Nat}
variable (h : text.CopiesAt copy ending place base base' spot)
include h

/-- A pass that mirrors another one visits the copies of the same comments. -/
theorem Pass.Mirrors.forall₂_visits {pass : Pass text} {pass' : Pass copy}
    (hpass : pass.Mirrors ending place base base' pass') {claims others : ClaimSet}
    (hclaims : claims.Copied text copy place base base' others) {pos pos' : Nat}
    (hpos : text.Stands copy place pos pos') (hle : pos ≤ text.size) :
    List.Forall₂ (Found.Copied text copy ending place base base') (pass.visits claims pos)
        (pass'.visits others pos') ∧
      (claims.claimAll ((pass.visits claims pos).map Found.claim)).Copied text copy place base base'
        (others.claimAll ((pass'.visits others pos').map Found.claim)) := by
  obtain ⟨visits', stop, stop', hvisits, hrest, hclaims', hstop, hstopLe, hnone⟩ :=
    hpass.copied.exists_visits h hclaims hpos hle
  rw [visits_of_none (hpass.none hstop hstopLe hnone), List.append_nil] at hrest
  rw [hrest]
  exact ⟨hvisits, hclaims'⟩

/-- So do several passes. -/
theorem forall₂_visitsOf (hzero : place 0 = 0) {passes : List (Pass text)} {passes' : List (Pass copy)}
    (hpasses : List.Forall₂ (Pass.Mirrors ending place base base') passes passes') {claims others : ClaimSet}
    (hclaims : claims.Copied text copy place base base' others) :
    List.Forall₂ (Found.Copied text copy ending place base base') (visitsOf passes claims)
      (visitsOf passes' others) := by
  induction hpasses generalizing claims others with
  | nil => exact .nil
  | cons hpass _ ih =>
    obtain ⟨hvisits, hclaims'⟩ := hpass.forall₂_visits h hclaims (.inl hzero.symm) (Nat.zero_le _)
    exact List.rel_append hvisits (ih hclaims')

variable (hwhole : place text.size = copy.size)
include hwhole

/-- The passes over the copy mirror those over the text, if no mark has a character of a line ending. -/
theorem codePasses_mirror {enclosures : List Enclosure} {lineMarks : List Mark}
    (hmarks : ∀ mark ∈ (CommentShape.code enclosures lineMarks).marks, ending.Spares mark.chars) :
    List.Forall₂ (Pass.Mirrors ending place base base') (codePasses enclosures lineMarks text base)
      (codePasses enclosures lineMarks copy base') := by
  have hkinds : ∀ kind ∈ enclosures, kind.Spared ending := fun kind hkind =>
    ⟨hmarks _ (List.mem_append_left _ (List.mem_flatMap.2 ⟨kind, hkind, by simp⟩)),
      hmarks _ (List.mem_append_left _ (List.mem_flatMap.2 ⟨kind, hkind, by simp⟩))⟩
  have hline : ∀ mark ∈ lineMarks, ending.Spares mark.chars := fun mark hmark =>
    hmarks mark (List.mem_append_right _ hmark)
  rw [codePasses, codePasses]
  have hruns : Pass.Mirrors ending place base base' (LineRun.pass lineMarks text base)
      (LineRun.pass lineMarks copy base') :=
    ⟨LineRun.pass_copiedBy h hline, LineRun.next_eq_none_of_size h.toCopies hwhole hline⟩
  refine List.rel_append ?_ (.cons hruns .nil)
  rw [List.forall₂_map_left_iff, List.forall₂_map_right_iff, List.forall₂_same]
  intro kind hkind
  exact ⟨Enclosure.pass_copiedBy h hwhole (hkinds kind hkind),
    Enclosure.next_eq_none_of_size h.toCopies hwhole (hkinds kind hkind)⟩

namespace Matchers

/-- The plan of a scan of the copy does what the plan of a scan of the text does. -/
theorem planText_alike (hzero : place 0 = 0) (matchers : Matchers)
    (hmarks : ∀ mark ∈ matchers.shape.marks, ending.Spares mark.chars) {claims others : ClaimSet}
    (hclaims : claims.Copied text copy place base base' others) :
    List.Forall₂ (ScanAction.Alike (Span.Copied text copy place base base') spot)
      (matchers.planText text base claims) (matchers.planText copy base' others) := by
  rw [planText, planText]
  refine .cons .consult ?_
  cases hshape : matchers.shape with
  | code enclosures lineMarks =>
    rw [hshape] at hmarks
    have hvisits := forall₂_visitsOf h hzero (codePasses_mirror h hwhole hmarks) hclaims
    exact List.rel_flatMap hvisits fun _ _ hfound => hfound.actions_alike h matchers
  | plainText =>
    have hlines := h.map_ofSegment_segments afterAnyBlanks (Nat.zero_le _) (Nat.le_refl text.size)
    rw [hzero, hwhole] at hlines
    replace hlines : plainLines copy = (plainLines text).map (CommentLine.relocate place) := hlines
    dsimp only
    rw [hlines]
    exact .cons .consult (recordActions_taggedLines_alike h _ matchers .untilBlank
      (fun _ hmark => by cases hmark) (plainLines_spec text).1)

end Matchers

end CommentTags
