import CommentTags.Proofs.Copy.Scan

/-!
# Texts with an empty line between them

In plain text, and in source code with line comments only, an empty line separates what stands above it
from what stands below it. No run of line comments and no highlight goes on over it. So two texts with an
empty line between them are scanned like each of them alone.

Either text is copied into the whole one, the second one from its place on. The copy of the first text
ends at the empty line; a pass that has found the comments of the first text passes over the empty line
and goes on as if it started there.

## Main definitions

* `aroundBlank`: two texts with an empty line between them;
* `CommentShape.LineByLine`: no comment is looked for that goes on over an empty line.

## Main results

* `LineRun.actions_aroundBlank`: the runs of the whole text are those of the first one and those of the
  second one;
* `Matchers.taggedLines_append`: what lines show does not depend on what stands above an empty line;
* `Matchers.scan_aroundBlank`: the whole text has the ranges and the claims of both.
-/

namespace CommentTags

/-- The first text, an empty line, and the second text. -/
def aroundBlank (first second : String) : String :=
  first ++ "\n\n" ++ second

section Copies

variable (first second : String)

theorem ofString_aroundBlank :
    Text.ofString (aroundBlank first second) =
      Text.ofString first ++ #['\n', '\n'] ++ Text.ofString second := by
  simp [Text.ofString, aroundBlank]

/-- Up to the empty line the whole text is the first text. -/
theorem getElem?_above {i : Nat} (hi : i < (Text.ofString first).size) :
    (Text.ofString (aroundBlank first second))[i]? = (Text.ofString first)[i]? := by
  rw [ofString_aroundBlank, Array.getElem?_append_left (by simp; omega), Array.getElem?_append_left hi]

/-- Two line feeds follow the first text. -/
theorem getElem?_blank :
    (Text.ofString (aroundBlank first second))[(Text.ofString first).size]? = some '\n' ∧
      (Text.ofString (aroundBlank first second))[(Text.ofString first).size + 1]? = some '\n' := by
  rw [ofString_aroundBlank]
  constructor
  · rw [Array.getElem?_append_left (by simp), Array.getElem?_append_right (Nat.le_refl _)]
    simp
  · rw [Array.getElem?_append_left (by simp), Array.getElem?_append_right (Nat.le_add_right _ _)]
    simp

/-- After the empty line the whole text is the second text. -/
theorem getElem?_below (i : Nat) :
    (Text.ofString (aroundBlank first second))[i + ((Text.ofString first).size + 2)]? =
      (Text.ofString second)[i]? := by
  rw [ofString_aroundBlank, Array.getElem?_append_right (by simp)]
  simp

theorem size_aroundBlank :
    (Text.ofString second).size + ((Text.ofString first).size + 2) =
      (Text.ofString (aroundBlank first second)).size := by
  rw [ofString_aroundBlank, Array.size_append, Array.size_append, Nat.add_comm]
  rfl

/-- The first text is copied to the start of the whole text. -/
theorem copiesAt_above (base : Nat) :
    (Text.ofString first).CopiesAt (Text.ofString (aroundBlank first second)) .lf id base base id where
  mono := strictMono_id
  starts := rfl
  solid i c hc _ := by
    have hlt := (Array.getElem?_eq_some_iff.1 hc).1
    exact ⟨(getElem?_above first second hlt).trans hc, rfl⟩
  feed i hi := by
    have hlt := (Array.getElem?_eq_some_iff.1 hi).1
    exact ⟨Text.occursAt_singleton.2 ((getElem?_above first second hlt).trans hi), rfl⟩
  ends := .inr (getElem?_blank first second)
  spot_mono := strictMono_id
  spot_add _ := rfl

/-- The second text is copied to the place after the empty line. -/
theorem copiesAt_below (base : Nat) :
    (Text.ofString second).CopiesAt (Text.ofString (aroundBlank first second)) .lf
      (· + ((Text.ofString first).size + 2)) (base + ((Text.ofString first).size + 2)) base id where
  mono := fun _ _ hlt => Nat.add_lt_add_right hlt _
  starts := by
    rw [Text.startsLine, Bool.or_eq_true, beq_iff_eq, beq_iff_eq, Nat.zero_add]
    exact .inr (getElem?_blank first second).2
  solid i c hc _ := ⟨(getElem?_below first second i).trans hc, Nat.add_right_comm _ _ _⟩
  feed i hi :=
    ⟨Text.occursAt_singleton.2 ((getElem?_below first second i).trans hi), Nat.add_right_comm _ _ _⟩
  ends := .inl (size_aroundBlank first second)
  spot_mono := strictMono_id
  spot_add i := by
    show base + ((Text.ofString first).size + 2) + i = base + (i + ((Text.ofString first).size + 2))
    omega

end Copies

/-! ## Copies that keep every offset -/

/-- Plans that do the same at the same offsets are the same. -/
theorem ScanAction.eq_of_alike {R : Span → Span → Prop} (hR : ∀ s s', R s s' → s = s')
    {plan plan' : List ScanAction} (h : List.Forall₂ (Alike R id) plan plan') : plan = plan' := by
  refine List.forall₂_eq_eq_eq ▸ h.imp fun action action' haction => ?_
  cases haction with
  | consult => rfl
  | claim hspan => exact congrArg claim (hR _ _ hspan)
  | record highlight => rfl

section Unmoved

variable {text copy : Text} {place : Nat → Nat} {base base' : Nat}
variable (h : text.CopiesAt copy .lf place base base' id)
include h

/-- A claim that is copied is the same claim. -/
theorem Span.Copied.eq {s s' : Span} (hs : s.Copied text copy place base base' s') : s = s' := by
  obtain ⟨i, e, p, -, -, hp, rfl, rfl⟩ := hs
  have hstart : base + i = base' + place i := h.spot_add i
  have hstop : base + e = base' + place e := h.spot_add e
  rw [h.eq_place_of_stands rfl hp, hstart, hstop]

/-- A sweep does with copied comments what it does with the comments. -/
theorem flatMap_actions_eq {visits visits' : List Found}
    (hvisits : List.Forall₂ (Found.Copied text copy .lf place base base') visits visits')
    (matchers : Matchers) :
    visits'.flatMap (Found.actions matchers copy base') = visits.flatMap (Found.actions matchers text base) :=
  (ScanAction.eq_of_alike (fun _ _ hspan => hspan.eq h)
    (List.rel_flatMap hvisits fun _ _ hfound => hfound.actions_alike h matchers)).symm

/-- What is recorded of the copied lines is what is recorded of the lines of the text. -/
theorem recordActions_plainLines_eq (matchers : Matchers) :
    recordActions copy base' (matchers.taggedLines copy .untilBlank none none
        ((plainLines text).map (CommentLine.relocate place))) =
      recordActions text base (matchers.taggedLines text .untilBlank none none (plainLines text)) := by
  refine (ScanAction.eq_of_alike (R := Eq) (fun _ _ => id) ?_).symm
  exact recordActions_taggedLines_alike h Eq matchers .untilBlank (fun _ hmark => by cases hmark)
    (plainLines_spec text).1

end Unmoved

namespace LineRun

variable {marks : List Mark} {text : Text} {base : Nat} {claims : ClaimSet}

/-- No mark stands at a line feed. -/
theorem markAt?_of_newline (hmarks : ∀ m ∈ marks, LineEnding.lf.Spares m.chars) {i : Nat}
    (hi : text[i]? = some '\n') : (markAt? marks text i).isSome = false := by
  rw [Bool.eq_false_iff]
  intro hsome
  exact (solidAt_of_markAt? hmarks hsome).ne_newline hi

/-- A search that has come to an empty line goes on after it as if it started there. -/
theorem firstFrom_of_blank (hmarks : ∀ m ∈ marks, LineEnding.lf.Spares m.chars) {pos m : Nat} (hpos : pos ≤ m)
    (hfirst : text[m]? = some '\n') (hsecond : text[m + 1]? = some '\n') :
    firstFrom (fun i => text.freeAt pos i && (markAt? marks text i).isSome) m (text.size - m) =
      text.findFree? (fun i => (markAt? marks text i).isSome) (m + 2) := by
  have hlt : m + 1 < text.size := (Array.getElem?_eq_some_iff.1 hsecond).1
  have hnone : firstFrom (fun i => text.freeAt pos i && (markAt? marks text i).isSome) m 2 = none := by
    rw [firstFrom_eq_none_iff]
    intro j h₁ h₂
    have hnewline : text[j]? = some '\n' := by
      rcases Nat.lt_or_eq_of_le h₁ with hlt | rfl
      · rwa [show j = m + 1 by omega]
      · exact hfirst
    rw [markAt?_of_newline hmarks hnewline, Bool.and_false]
  rw [show text.size - m = 2 + (text.size - (m + 2)) by omega, firstFrom_add, hnone, Option.none_or]
  refine firstFrom_congr fun i h₁ _ => congrArg (· && _) ?_
  rw [Text.freeAt, Text.freeAt]
  rcases Nat.lt_or_eq_of_le h₁ with hlt | rfl
  · rw [decide_eq_true hlt, decide_eq_true (show pos < i by omega)]
  -- the line after the empty line starts there
  · have hstarts : text.startsLine (m + 2) = true := by
      rw [Text.startsLine, Bool.or_eq_true, beq_iff_eq, beq_iff_eq]
      exact .inr hsecond
    rw [hstarts, Bool.true_or, Bool.true_or]

/-- A pass visits the same comments from positions from which it finds the same one. -/
theorem visits_of_findFree?_eq {pos pos' : Nat}
    (h : text.findFree? (fun i => (markAt? marks text i).isSome) pos =
      text.findFree? (fun i => (markAt? marks text i).isSome) pos') :
    (pass marks text base).visits claims pos = (pass marks text base).visits claims pos' := by
  have hnext : (pass marks text base).next claims pos = (pass marks text base).next claims pos' := by
    show next marks text base claims pos = next marks text base claims pos'
    rw [next, next, h]
  cases hfound : (pass marks text base).next claims pos' with
  | none => rw [Pass.visits_of_none hfound, Pass.visits_of_none (hnext.trans hfound)]
  | some found => rw [Pass.visits_of_some hfound, Pass.visits_of_some (hnext.trans hfound)]

/-- The runs of the whole text are those of the first text and then those of the second one. -/
theorem actions_aroundBlank (hmarks : ∀ m ∈ marks, LineEnding.lf.Spares m.chars) (matchers : Matchers)
    (first second : String) (base : Nat) :
    let whole := Text.ofString (aroundBlank first second)
    let above := Text.ofString first
    let below := Text.ofString second
    let offset := base + (above.size + 2)
    ((pass marks whole base).visits .empty 0).flatMap (Found.actions matchers whole base) =
      ((pass marks above base).visits .empty 0).flatMap (Found.actions matchers above base) ++
        ((pass marks below offset).visits .empty 0).flatMap (Found.actions matchers below offset) := by
  intro whole above below offset
  have hup : above.CopiesAt whole .lf id base base id := copiesAt_above first second base
  have hdown : below.CopiesAt whole .lf (· + (above.size + 2)) offset base id :=
    copiesAt_below first second base
  have hblank := getElem?_blank first second
  have hnothing : ClaimSet.Copied above whole id base base .empty .empty :=
    ClaimSet.copied_empty fun _ hs => absurd hs List.not_mem_nil
  obtain ⟨visits, stop, stop', hvisits, hrest, hclaims, hstands, hstop, hnone⟩ :=
    (pass_copiedBy hup hmarks).exists_visits hup hnothing (.inl rfl : above.Stands whole id 0 0)
      (Nat.zero_le _)
  -- after the runs of the first text the search comes to the empty line and goes on below it
  have hle : stop' ≤ above.size := hup.le_place_size_of_stands hstands hstop
  have hsearch : whole.findFree? (fun i => (markAt? marks whole i).isSome) stop' =
      whole.findFree? (fun i => (markAt? marks whole i).isSome) (above.size + 2) := by
    rw [findFree?_markAt? hup.toCopies hmarks hstands hstop, next_eq_none_iff.1 hnone]
    exact firstFrom_of_blank hmarks hle hblank.1 hblank.2
  -- what was claimed above the empty line ends there
  have hfresh : ClaimSet.Copied below whole (· + (above.size + 2)) offset base .empty
      (ClaimSet.empty.claimAll (visits.map Found.claim)) := by
    refine ClaimSet.copied_empty fun s' hs' => ?_
    rcases hclaims.real s' hs' with hbefore | ⟨s, -, i, e, p, -, he, hp, -, rfl⟩
    · exact Nat.le_trans hbefore (Nat.add_le_add_left (Nat.zero_le _) base)
    · have hend : p ≤ above.size := hup.le_place_size_of_stands hp he
      show base + p ≤ base + (0 + (above.size + 2))
      omega
  have hsize : below.size + (above.size + 2) = whole.size := size_aroundBlank first second
  have hmirrors : (pass marks below offset).Mirrors .lf (· + (above.size + 2)) offset base
      (pass marks whole base) :=
    ⟨pass_copiedBy hdown hmarks, next_eq_none_of_size hdown.toCopies hsize hmarks⟩
  have hstart : below.Stands whole (· + (above.size + 2)) 0 (above.size + 2) := .inl (Nat.zero_add _).symm
  have hlower := (hmirrors.forall₂_visits hdown hfresh hstart (Nat.zero_le _)).1
  rw [hrest, visits_of_findFree?_eq hsearch, List.flatMap_append, flatMap_actions_eq hup hvisits,
    flatMap_actions_eq hdown hlower]

end LineRun

/-! ## Plain text -/

namespace Text

variable {text : Text}

/-- The segments of a part of the text are those up to a line feed and those after it. -/
theorem segments_append {start m stop : Nat} (hstart : start ≤ m) (hstop : m < stop)
    (hnewline : text[m]? = some '\n') :
    text.segments start stop = text.segments start m ++ text.segments (m + 1) stop := by
  have hm : m < text.size := (Array.getElem?_eq_some_iff.1 hnewline).1
  obtain ⟨hle, -, hfree, hend⟩ := (lineEnd_eq_iff (Nat.le_trans hstart (Nat.le_of_lt hm))).1
    (rfl : text.lineEnd start = _)
  rcases Nat.lt_trichotomy (text.lineEnd start) m with hlt | heq | hgt
  · have hfeed := hend (Nat.lt_trans hlt hm)
    rw [segments_of_newline hle (Nat.lt_trans hlt hstop) hfree hfeed, segments_of_newline hle hlt hfree hfeed,
      segments_append hlt hstop hnewline]
    rfl
  · rw [heq] at hle hfree
    rw [segments_of_newline hle hstop hfree hnewline, segments_of_freeOfNewlines hfree]
    rfl
  · exact absurd hnewline (hfree m hstart hgt)
termination_by m - start

end Text

/-- Nothing is read between two line feeds. -/
theorem CommentLine.isBlank_ofSegment_self (text : Text) (mayOpen : Nat → Bool) (i : Nat) :
    (ofSegment text mayOpen i i).isBlank = true := by
  have hskip : text.skipBlanks i i = i := (Text.skipBlanks_eq_iff (Nat.le_refl i)).2
    ⟨Nat.le_refl i, Nat.le_refl i, fun j h₁ h₂ => absurd h₂ (Nat.not_lt.2 h₁),
      fun h => absurd h (Nat.lt_irrefl i)⟩
  have htrim : text.trimEnd i i = i := Text.dropEndWhile_self
  rw [isBlank, ofSegment]
  dsimp only
  rw [hskip, htrim, decide_eq_true (Nat.le_refl i)]

namespace Matchers

variable {matchers : Matchers} {text : Text}

/-- A blank line shows nothing, whatever stands above it, and no highlight goes on over it. -/
theorem taggedLines_append (mode : Continuation) (inlineMark : Option Mark) (head : Option Head)
    (above : List CommentLine) {blank : CommentLine} (hblank : blank.isBlank = true)
    (below : List CommentLine) :
    matchers.taggedLines text mode inlineMark head (above ++ blank :: below) =
      matchers.taggedLines text mode inlineMark head above ++
        none :: matchers.taggedLines text mode inlineMark none below := by
  induction above generalizing head with
  | nil =>
    have hgoesOn (head : Head) : matchers.goesOn text mode head blank = false := by
      rw [goesOn, hblank]
      rfl
    have hhead : matchers.head? text blank = none := by
      rw [head?, hblank, Bool.not_true, Bool.and_false, if_neg Bool.false_ne_true]
    have htag : matchers.lineTag? text inlineMark blank = none := by
      rw [lineTag?, if_pos hblank]
    have hfilter : head.filter (matchers.goesOn text mode · blank) = none := by
      cases head with
      | none => rfl
      | some head => rw [Option.filter_some, hgoesOn, if_neg Bool.false_ne_true]
    rw [List.nil_append, taggedLines, taggedLines, hfilter, hhead, htag]
    rfl
  | cons line rest ih =>
    rw [List.cons_append, taggedLines, taggedLines]
    cases head.filter (matchers.goesOn text mode · line) with
    | some head => exact congrArg (_ :: ·) (ih (some head))
    | none =>
      cases matchers.head? text line with
      | some head => exact congrArg (_ :: ·) (ih (some head))
      | none => exact congrArg (_ :: ·) (ih none)

end Matchers

/-- What several lines show is recorded line by line. -/
theorem recordActions_append (text : Text) (base : Nat) (above below : List (Option TaggedLine)) :
    recordActions text base (above ++ below) =
      recordActions text base above ++ recordActions text base below := by
  induction above with
  | nil => rfl
  | cons line rest ih =>
    cases line with
    | none => exact ih
    | some line => rw [List.cons_append, recordActions, recordActions, ih, List.append_assoc, List.cons_append]

/-- The lines of the whole text are those of the first text, an empty one, and those of the second text. -/
theorem plainLines_aroundBlank (first second : String) :
    let whole := Text.ofString (aroundBlank first second)
    let above := Text.ofString first
    let below := Text.ofString second
    plainLines whole = (plainLines above).map (CommentLine.relocate id) ++
      CommentLine.ofSegment whole afterAnyBlanks (above.size + 1) (above.size + 1) ::
        (plainLines below).map (CommentLine.relocate (· + (above.size + 2))) := by
  intro whole above below
  have hup : above.CopiesAt whole .lf id 0 0 id := copiesAt_above first second 0
  have hdown : below.CopiesAt whole .lf (· + (above.size + 2)) (0 + (above.size + 2)) 0 id :=
    copiesAt_below first second 0
  have hfirst : whole[above.size]? = some '\n' := (getElem?_blank first second).1
  have hsecond : whole[above.size + 1]? = some '\n' := (getElem?_blank first second).2
  have hsize : below.size + (above.size + 2) = whole.size := size_aroundBlank first second
  have hupper := hup.map_ofSegment_segments afterAnyBlanks (Nat.zero_le _) (Nat.le_refl above.size)
  have hlower := hdown.map_ofSegment_segments afterAnyBlanks (Nat.zero_le _) (Nat.le_refl below.size)
  have hempty : whole.segments (above.size + 1) (above.size + 1) = [(above.size + 1, above.size + 1)] :=
    Text.segments_of_freeOfNewlines fun p h₁ h₂ => absurd h₂ (Nat.not_lt.2 h₁)
  rw [plainLines, Text.segments_append (Nat.zero_le _) (by omega) hfirst,
    Text.segments_append (Nat.le_refl (above.size + 1)) (by omega) hsecond, hempty, List.map_append,
    List.map_append]
  dsimp only at hlower
  rw [Nat.zero_add, hsize] at hlower
  exact congr (congrArg _ hupper) (congrArg (_ :: ·) hlower)

/-! ## Whole scans -/

namespace CommentShape

/-- No comment is looked for that goes on over an empty line: the text is plain, or comments go up to the
end of a line. -/
inductive LineByLine : CommentShape → Prop where
  | plainText : LineByLine .plainText
  | code (lineMarks : List Mark) (hmarks : ∀ mark ∈ lineMarks, '\n' ∉ mark.chars) :
    LineByLine (.code [] lineMarks)

end CommentShape

namespace Matchers

open ScanAction

variable {matchers : Matchers}

/-- The plan for the whole text goes through both texts. -/
theorem planText_aroundBlank (hshape : matchers.shape.LineByLine) (first second : String) (base : Nat) :
    let whole := Text.ofString (aroundBlank first second)
    let above := Text.ofString first
    let below := Text.ofString second
    let offset := base + (above.size + 2)
    recorded (matchers.planText whole base .empty) =
        recorded (matchers.planText above base .empty) ++ recorded (matchers.planText below offset .empty) ∧
      claimed (matchers.planText whole base .empty) =
        claimed (matchers.planText above base .empty) ++ claimed (matchers.planText below offset .empty) := by
  intro whole above below offset
  generalize hs : matchers.shape = shape at hshape
  cases hshape with
  | code lineMarks hmarks =>
    have hspares : ∀ mark ∈ lineMarks, LineEnding.lf.Spares mark.chars := by
      intro mark hmark c hc hmem
      rw [List.mem_singleton.1 hmem] at hc
      exact hmarks mark hmark hc
    have hplan (text : Text) (base : Nat) : matchers.planText text base .empty =
        .consult :: ((LineRun.pass lineMarks text base).visits .empty 0).flatMap
          (Found.actions matchers text base) := by
      rw [planText, hs]
      show _ :: (_ ++ []).flatMap _ = _
      rw [List.append_nil]
    have hactions := LineRun.actions_aroundBlank hspares matchers first second base
    dsimp only at hactions
    rw [hplan, hplan, hplan, hactions]
    constructor
    · simp only [recorded_consult, recorded_append]
      rfl
    · simp only [claimed_consult, claimed_append]
      rfl
  | plainText =>
    have hplan (text : Text) (base : Nat) : matchers.planText text base .empty =
        .consult :: .consult :: recordActions text base
          (matchers.taggedLines text .untilBlank none none (plainLines text)) := by
      rw [planText, hs]
    have hblank := CommentLine.isBlank_ofSegment_self whole afterAnyBlanks (above.size + 1)
    have hactions :
        recordActions whole base (matchers.taggedLines whole .untilBlank none none (plainLines whole)) =
          recordActions above base (matchers.taggedLines above .untilBlank none none (plainLines above)) ++
            recordActions below offset
              (matchers.taggedLines below .untilBlank none none (plainLines below)) := by
      rw [plainLines_aroundBlank, taggedLines_append .untilBlank none none _ hblank, recordActions_append,
        recordActions_plainLines_eq (copiesAt_above first second base), recordActions,
        recordActions_plainLines_eq (copiesAt_below first second base)]
    rw [hplan, hplan, hplan, hactions]
    constructor
    · simp only [recorded_consult, recorded_append]
    · simp only [claimed_consult, claimed_append]

/-- In an empty text there is nothing to find. -/
theorem planText_of_size (hshape : matchers.shape.LineByLine) {text : Text} (hsize : text.size = 0)
    (base : Nat) :
    recorded (matchers.planText text base .empty) = [] ∧
      claimed (matchers.planText text base .empty) = [] := by
  generalize hs : matchers.shape = shape at hshape
  rw [planText, hs]
  cases hshape with
  | code lineMarks hmarks =>
    have hnone : (LineRun.pass lineMarks text base).next .empty 0 = none := by
      cases hnext : (LineRun.pass lineMarks text base).next .empty 0 with
      | none => rfl
      | some found =>
        have hadvances := (LineRun.pass lineMarks text base).advances hnext
        omega
    have hvisits : visitsOf (codePasses [] lineMarks text base) .empty = [] := by
      show _ ++ [] = _
      rw [Pass.visits_of_none hnone, List.append_nil]
    dsimp only
    rw [hvisits]
    exact ⟨rfl, rfl⟩
  | plainText =>
    have hlines : plainLines text = [CommentLine.ofSegment text afterAnyBlanks 0 0] := by
      rw [plainLines, hsize, Text.segments_of_freeOfNewlines fun p h₁ h₂ => absurd h₂ (Nat.not_lt.2 h₁)]
      rfl
    have hshown : matchers.taggedLines text .untilBlank none none
        [CommentLine.ofSegment text afterAnyBlanks 0 0] = [none] :=
      taggedLines_append .untilBlank none none [] (CommentLine.isBlank_ofSegment_self text afterAnyBlanks 0) []
    dsimp only
    rw [hlines, hshown]
    exact ⟨rfl, rfl⟩

/-- What the plan of a scan amounts to, be the text empty or not. -/
theorem plan_of_lineByLine (hlive : matchers.isInert = false) (hshape : matchers.shape.LineByLine)
    (text : String) (offset : Nat) :
    recorded (matchers.plan text offset .empty) =
        recorded (matchers.planText (Text.ofString text) offset .empty) ∧
      claimed (matchers.plan text offset .empty) =
        claimed (matchers.planText (Text.ofString text) offset .empty) := by
  rw [plan, hlive, Bool.false_or]
  split
  · next hempty =>
    have hsize : (Text.ofString text).size = 0 := by
      rw [String.isEmpty_iff.1 hempty]
      rfl
    obtain ⟨hrecorded, hclaimed⟩ := planText_of_size hshape hsize offset
    rw [hrecorded, hclaimed]
    exact ⟨rfl, rfl⟩
  · exact ⟨rfl, rfl⟩

/-- The plan of a scan of the whole text amounts to the plans of scans of both texts. -/
theorem plan_aroundBlank (hshape : matchers.shape.LineByLine) (first second : String) (offset : Nat) :
    recorded (matchers.plan (aroundBlank first second) offset .empty) =
        recorded (matchers.plan first offset .empty) ++
          recorded (matchers.plan second (offset + first.length + 2) .empty) ∧
      claimed (matchers.plan (aroundBlank first second) offset .empty) =
        claimed (matchers.plan first offset .empty) ++
          claimed (matchers.plan second (offset + first.length + 2) .empty) := by
  cases hlive : matchers.isInert with
  | true =>
    have hplan (text : String) (offset : Nat) : matchers.plan text offset .empty = [] := by
      rw [plan, hlive, Bool.true_or, if_pos rfl]
    rw [hplan, hplan, hplan]
    exact ⟨rfl, rfl⟩
  | false =>
    have hsize : offset + ((Text.ofString first).size + 2) = offset + first.length + 2 := by
      rw [Text.ofString, List.size_toArray, String.length_toList]
      rfl
    have hplan := planText_aroundBlank hshape first second offset
    dsimp only at hplan
    rw [hsize] at hplan
    have hamounts := plan_of_lineByLine hlive hshape
    simp only [hamounts]
    exact hplan

/-- In plain text, and in source code without enclosed comments whose line marks have no line feed, a scan
of two texts with an empty line between them answers what scans of both texts answer, each from where the
text starts, and claims what they claim. A checkpoint that never fails interrupts none of the three scans.
-/
theorem scan_aroundBlank {σ : Type} [Checkpoint σ] (matchers : Matchers) (hshape : matchers.shape.LineByLine)
    (first second : String) (offset : Nat) {checkpoint : σ} (hallows : Checkpoint.Allows checkpoint) :
    let whole := matchers.scan (first ++ "\n\n" ++ second) offset .empty checkpoint
    let above := matchers.scan first offset .empty checkpoint
    let below := matchers.scan second (offset + first.length + 2) .empty checkpoint
    ∃ ranges upper lower, whole.result = .ok ranges ∧ above.result = .ok upper ∧ below.result = .ok lower ∧
      ranges.toList = (TagRanges.union [upper, lower]).toList ∧
      whole.claims = above.claims.claimAll below.claims.toList := by
  intro whole above below
  obtain ⟨ranges, hwhole, -⟩ := matchers.scan_of_allows (aroundBlank first second) offset .empty hallows
  obtain ⟨upper, habove, -⟩ := matchers.scan_of_allows first offset .empty hallows
  obtain ⟨lower, hbelow, -⟩ := matchers.scan_of_allows second (offset + first.length + 2) .empty hallows
  obtain ⟨hrecorded, hclaimed⟩ := plan_aroundBlank hshape first second offset
  have hplanned (text : String) (offset : Nat) {ranges : TagRanges}
      (hresult : (matchers.scan text offset .empty checkpoint).result = .ok ranges) :
      ranges = .collect (recorded (matchers.plan text offset .empty)) ∧
        (matchers.scan text offset .empty checkpoint).claims =
          ClaimSet.empty.claimAll (claimed (matchers.plan text offset .empty)) := by
    rw [scan_eq_ofPlan] at hresult ⊢
    exact Scanned.ranges_ofPlan hresult
  obtain ⟨hranges, hclaims⟩ := hplanned _ _ hwhole
  obtain ⟨hupper, hclaimsAbove⟩ := hplanned _ _ habove
  obtain ⟨hlower, hclaimsBelow⟩ := hplanned _ _ hbelow
  refine ⟨ranges, upper, lower, hwhole, habove, hbelow, ?_, ?_⟩
  · rw [hranges, hupper, hlower, hrecorded, TagRanges.toList_collect_append]
  · rw [show whole.claims = _ from hclaims, show above.claims = _ from hclaimsAbove,
      show below.claims = _ from hclaimsBelow, hclaimed, ClaimSet.claimAll_append,
      ClaimSet.claimAll_toList_claimAll]

/-- A tag above the empty line whose highlight would go on over the line below it, and another tag after
that one. -/
theorem scan_aroundBlank_heads :
    let matchers : Matchers := ⟨some ⟨"^(?:!)", [['!']]⟩, none, .code [] [⟨['#'], by decide⟩]⟩
    let whole := matchers.scan ("# !" ++ "\n\n" ++ "#  x\n# !") 5 .empty ({} : Unlimited)
    matchers.shape.LineByLine ∧ Checkpoint.Allows ({} : Unlimited) ∧
      whole.result.map TagRanges.toList = .ok [("!", [⟨7, 8⟩, ⟨17, 18⟩])] ∧
      whole.claims.toList = [⟨5, 8⟩, ⟨10, 18⟩] := by
  intro matchers whole
  have hshape : matchers.shape.LineByLine := .code _ (by decide)
  have hallows : Checkpoint.Allows ({} : Unlimited) := Checkpoint.allows_of_forall (fun _ => rfl) _
  obtain ⟨ranges, upper, lower, hwhole, habove, hbelow, hunion, hclaims⟩ :=
    scan_aroundBlank matchers hshape "# !" "#  x\n# !" 5 hallows
  let above := matchers.scan "# !" 5 .empty ({} : Unlimited)
  let below := matchers.scan "#  x\n# !" (5 + "# !".length + 2) .empty ({} : Unlimited)
  have hboth : (do
      let upper ← above.result
      let lower ← below.result
      pure (TagRanges.union [upper, lower]).toList) = .ok [("!", [⟨7, 8⟩, ⟨17, 18⟩])] := by
    simp only [above, below, Matchers.scan, TagRanges.collect, TagRanges.union,
      TagRanges.normalize_eq_insertionSort]
    decide +kernel
  refine ⟨hshape, hallows, ?_, ?_⟩
  · rw [show above.result = _ from habove, show below.result = _ from hbelow] at hboth
    rw [show whole.result = _ from hwhole, Except.map, hunion]
    exact hboth
  · refine (congrArg ClaimSet.toList hclaims).trans ?_
    dsimp only [matchers]
    decide +kernel

end Matchers

end CommentTags
