import CommentTags.Proofs.LetterCase.Text
import CommentTags.Proofs.Plan

/-!
# Lines of a text in lower-case letters

The lines of a comment are the same in a text and in the text in lower-case letters, and they show the same:
tags are looked for under case folding, and the mark inside a line, after which a tag may stand, has no
letters. Only the words under which highlights are recorded are in lower case.

## Main definitions

* `Highlight.lower`: a highlight whose word is in lower case;
* `ScanAction.lower`: what a scan of the text in lower-case letters does instead of an action.

## Main results

* `Matchers.taggedLines_lower`: what the lines of a comment show;
* `recordActions_lower`: what is recorded of it.
-/

namespace CommentTags

variable (text : Text)

/-- A line has the same content. -/
@[simp]
theorem CommentLine.ofSegment_lower (mayOpen : Nat → Bool) (start stop : Nat) :
    ofSegment text.lower mayOpen start stop = ofSegment text mayOpen start stop := by
  simp [ofSegment]

/-! ## Tags -/

namespace TagAlternation

theorem foldedAt_lower (stop : Nat) (name : List Char) (i : Nat) :
    foldedAt text.lower stop name i = foldedAt text stop name i := by
  induction name generalizing i with
  | nil => rfl
  | cons c rest ih =>
    have hfold : IgnoresCase (Unicode.foldCase · == c) := fun d => by
      simp only [Unicode.foldCase_toLower]
    rw [foldedAt, foldedAt, text.any_lower hfold, ih]

@[simp]
theorem matchAt?_lower (names : TagAlternation) (start stop : Nat) :
    names.matchAt? text.lower start stop = names.matchAt? text start stop := by
  simp only [matchAt?, foldedAt_lower]

end TagAlternation

namespace Matchers

variable (matchers : Matchers)

@[simp]
theorem tagAt?_lower (start stop : Nat) :
    matchers.tagAt? text.lower start stop = matchers.tagAt? text start stop := by
  simp [tagAt?]

@[simp]
theorem head?_lower (line : CommentLine) : matchers.head? text.lower line = matchers.head? text line := by
  simp [head?]

@[simp]
theorem goesOn_lower (mode : Continuation) (head : Head) (line : CommentLine) :
    matchers.goesOn text.lower mode head line = matchers.goesOn text mode head line := by
  simp [goesOn]

/-- The first tag after a mark without letters is the same. -/
theorem inlineTag?_lower {mark : Mark} (hmark : Letterless mark.chars) (start stop : Nat) :
    matchers.inlineTag? text.lower mark start stop = matchers.inlineTag? text mark start stop := by
  have hfind (start : Nat) : text.lower.find? mark.chars start stop = text.find? mark.chars start stop :=
    text.find?_lower hmark start stop
  fun_induction inlineTag? matchers text mark start stop with
  | case1 start hnone => exact inlineTag?_of_find?_eq_none ((hfind start).trans hnone)
  -- a tag follows the mark
  | case2 start i hsome next length hlength =>
    rw [dite_eq_ite] at hlength
    simp only [inlineTag?_of_find? ((hfind start).trans hsome), Text.followsBlank_lower, Text.blankAt_lower,
      tagAt?_lower, show i + mark.length = next from rfl, hlength]
  -- the next mark is looked for
  | case3 start i hsome next hnone ih =>
    rw [dite_eq_ite] at hnone
    simp only [inlineTag?_of_find? ((hfind start).trans hsome), Text.followsBlank_lower, Text.blankAt_lower,
      tagAt?_lower, show i + mark.length = next from rfl, hnone]
    exact ih

/-- The tag of a line is the same, if a mark inside it has no letters. -/
theorem lineTag?_lower {inlineMark : Option Mark} (hmark : ∀ mark ∈ inlineMark, Letterless mark.chars)
    (line : CommentLine) :
    matchers.lineTag? text.lower inlineMark line = matchers.lineTag? text inlineMark line := by
  have hinline : inlineMark.bind (matchers.inlineTag? text.lower · line.start line.stop) =
      inlineMark.bind (matchers.inlineTag? text · line.start line.stop) := by
    cases inlineMark with
    | none => rfl
    | some mark => exact matchers.inlineTag?_lower text (hmark mark rfl) line.start line.stop
  simp only [lineTag?, hinline, TagAlternation.matchAt?_lower]

/-- Lines show the same. -/
theorem taggedLines_lower (mode : Continuation) {inlineMark : Option Mark}
    (hmark : ∀ mark ∈ inlineMark, Letterless mark.chars) (head : Option Head) (lines : List CommentLine) :
    matchers.taggedLines text.lower mode inlineMark head lines =
      matchers.taggedLines text mode inlineMark head lines := by
  induction lines generalizing head with
  | nil => rfl
  | cons line rest ih => simp only [taggedLines, goesOn_lower, head?_lower, lineTag?_lower text _ hmark, ih]

end Matchers

/-! ## Highlights -/

/-- The highlight with its word in lower-case letters. -/
def Highlight.lower (highlight : Highlight) : Highlight :=
  { highlight with tag := highlight.tag.toLower }

/-- What a line of the text in lower-case letters shows. -/
theorem TaggedLine.highlight_lower (base : Nat) (line : TaggedLine) :
    line.highlight text.lower base = (line.highlight text base).lower := by
  simp only [highlight, Text.slice_lower, Highlight.lower]

namespace ScanAction

/-- The action with the word of its highlight in lower-case letters. -/
def lower : ScanAction → ScanAction
  | record highlight => record highlight.lower
  | action => action

end ScanAction

/-- What is recorded of lines of the text in lower-case letters. -/
theorem recordActions_lower (base : Nat) (shown : List (Option TaggedLine)) :
    recordActions text.lower base shown = (recordActions text base shown).map ScanAction.lower := by
  induction shown with
  | nil => rfl
  | cons line rest ih =>
    cases line with
    | none => exact ih
    | some line =>
      have hhead : (if line.isHead then [ScanAction.consult] else []).map ScanAction.lower =
          if line.isHead then [ScanAction.consult] else [] := by
        cases line.isHead <;> rfl
      rw [recordActions, recordActions, List.map_append, hhead, ih, line.highlight_lower]
      rfl

/-- What is done with a found comment of the text in lower-case letters. -/
theorem Found.actions_lower (matchers : Matchers) (base : Nat) {found : Found}
    (hmark : ∀ mark ∈ found.inlineMark, Letterless mark.chars) :
    found.actions matchers text.lower base = (found.actions matchers text base).map ScanAction.lower := by
  rw [actions, actions, matchers.taggedLines_lower text .indented hmark, recordActions_lower]
  rfl

end CommentTags
