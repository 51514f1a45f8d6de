import CommentTags.Proofs.Copy.Claims
import CommentTags.Proofs.Copy.Tags

/-!
# Sweeping a copy

A pass over a text finds its comments one after the other. A pass over a copy that finds what this pass
finds, step by step, finds the same comments in the copy, each with the same highlights. After them it
goes on where the text ends.

## Main definitions

* `Found.Copied`: a comment is copied;
* `Pass.CopiedBy`: what a pass finds in the text another one finds in the copy.

## Main results

* `Pass.CopiedBy.exists_visits`: the comments of the text are found in the copy, before all others;
* `Found.Copied.actions_alike`: a sweep does with a copied comment what it does with the comment.
-/

namespace CommentTags

/-- A comment that is found in the text is copied. -/
structure Found.Copied (text copy : Text) (ending : LineEnding) (place : Nat → Nat) (base base' : Nat)
    (found found' : Found) : Prop where
  claim : found.claim.Copied text copy place base base' found'.claim
  lines : found'.lines = found.lines.map (CommentLine.relocate place)
  inlineMark : found'.inlineMark = found.inlineMark
  resume : text.Stands copy place found.resume found'.resume
  within : ∀ line ∈ found.lines, line.Within text 0 text.size
  spares : ∀ mark ∈ found.inlineMark, ending.Spares mark.chars

/-- What `pass` finds in the text, `pass'` finds in the copy. -/
def Pass.CopiedBy {text copy : Text} (ending : LineEnding) (place : Nat → Nat) (base base' : Nat)
    (pass : Pass text) (pass' : Pass copy) : Prop :=
  ∀ ⦃claims others : ClaimSet⦄, claims.Copied text copy place base base' others →
    ∀ ⦃pos pos' : Nat⦄, text.Stands copy place pos pos' → pos ≤ text.size →
      ∀ found, pass.next claims pos = some found →
        ∃ found', pass'.next others pos' = some found' ∧
          found.Copied text copy ending place base base' found'

variable {text copy : Text} {ending : LineEnding} {place : Nat → Nat} {base base' : Nat} {spot : Nat → Nat}
variable (h : text.CopiesAt copy ending place base base' spot)
include h

/-- The comments that a pass finds in the text are found in the copy, and then the pass over the copy goes
on at a position that stands for one from which no comment is found in the text. -/
theorem Pass.CopiedBy.exists_visits {pass : Pass text} {pass' : Pass copy}
    (hpass : pass.CopiedBy ending place base base' pass') {claims others : ClaimSet}
    (hclaims : claims.Copied text copy place base base' others) {pos pos' : Nat}
    (hpos : text.Stands copy place pos pos') (hle : pos ≤ text.size) :
    ∃ visits' stop stop',
      List.Forall₂ (Found.Copied text copy ending place base base') (pass.visits claims pos) visits' ∧
      pass'.visits others pos' = visits' ++ pass'.visits (others.claimAll (visits'.map Found.claim)) stop' ∧
      (claims.claimAll ((pass.visits claims pos).map Found.claim)).Copied text copy place base base'
        (others.claimAll (visits'.map Found.claim)) ∧
      text.Stands copy place stop stop' ∧ stop ≤ text.size ∧
      pass.next (claims.claimAll ((pass.visits claims pos).map Found.claim)) stop = none := by
  fun_induction visits pass claims pos generalizing others pos' with
  | case1 claims pos hnone => exact ⟨[], pos, pos', .nil, rfl, hclaims, hpos, hle, hnone⟩
  | case2 claims pos found hsome ih =>
    obtain ⟨found', hsome', hfound⟩ := hpass hclaims hpos hle found hsome
    obtain ⟨visits', stop, stop', hvisits, hrest, hends⟩ :=
      ih (h.copied_claim hclaims hfound.claim) hfound.resume (pass.advances hsome).2
    refine ⟨found' :: visits', stop, stop', .cons hfound hvisits, ?_, hends⟩
    rw [visits_of_some hsome', hrest]
    rfl

/-- What lines show is recorded at the places of the same highlights. -/
theorem recordActions_alike (R : Span → Span → Prop) {shown : List (Option TaggedLine)}
    (hshown : ∀ t, some t ∈ shown → t.tag.InLine text) :
    List.Forall₂ (ScanAction.Alike R spot) (recordActions text base shown)
      (recordActions copy base' (shown.map (Option.map (TaggedLine.relocate place)))) := by
  induction shown with
  | nil => exact .nil
  | cons line rest ih =>
    have hrest := ih fun t ht => hshown t (List.mem_cons_of_mem _ ht)
    cases line with
    | none => exact hrest
    | some line =>
      have hhighlight := h.highlight_place h.spot_add (hshown line List.mem_cons_self)
      rw [recordActions, List.map_cons, Option.map_some, recordActions, hhighlight]
      refine List.rel_append ?_ (.cons (.record _) hrest)
      show List.Forall₂ _ (if line.isHead then _ else _) (if line.isHead then _ else _)
      split
      · exact .cons .consult .nil
      · exact .nil

/-- What several lines show is recorded at the places of what the lines of the copy show. -/
theorem recordActions_taggedLines_alike (R : Span → Span → Prop) (matchers : Matchers) (mode : Continuation)
    {inlineMark : Option Mark} (hspares : ∀ mark ∈ inlineMark, ending.Spares mark.chars)
    {lines : List CommentLine} (hlines : ∀ line ∈ lines, line.Within text 0 text.size) :
    List.Forall₂ (ScanAction.Alike R spot)
      (recordActions text base (matchers.taggedLines text mode inlineMark none lines))
      (recordActions copy base'
        (matchers.taggedLines copy mode inlineMark none (lines.map (CommentLine.relocate place)))) := by
  have hshown := h.taggedLines_place matchers mode hspares none hlines
  rw [Option.map_none] at hshown
  rw [hshown]
  exact recordActions_alike h R fun t ht => Matchers.inLine_of_mem_taggedLines hlines ht

/-- A sweep does with a copied comment what it does with the comment. -/
theorem Found.Copied.actions_alike {found found' : Found}
    (hfound : found.Copied text copy ending place base base' found') (matchers : Matchers) :
    List.Forall₂ (ScanAction.Alike (Span.Copied text copy place base base') spot)
      (found.actions matchers text base) (found'.actions matchers copy base') := by
  rw [actions, actions, hfound.inlineMark, hfound.lines]
  refine .cons .consult (.cons (.claim hfound.claim) ?_)
  exact recordActions_taggedLines_alike h _ matchers .indented hfound.spares hfound.within

end CommentTags
