import CommentTags.Proofs.Checked.Tags
import CommentTags.Proofs.Copy.Lines
import CommentTags.Proofs.NormalRanges

/-!
# The tags of a copy

Tags stand within one line, and so do the marks that a tag may follow. So the lines of a copy show what
the lines of the text show, at the places to which it is copied.

## Main definitions

* `Head.relocate` and `TaggedLine.relocate`: heads, and what lines show, at another place.

## Main results

* `Text.Copies.taggedLines_place`: the lines of a copy show what the lines of the text show;
* `Text.Copies.highlight_place`: the highlights are the same at their places in the documents.
-/

namespace CommentTags

/-- The head at another place. -/
def Head.relocate (place : Nat → Nat) (head : Head) : Head :=
  { head with tag := head.tag.relocate place }

@[simp]
theorem Head.indent_relocate (place : Nat → Nat) (head : Head) :
    (head.relocate place).indent = head.indent := rfl

/-- What is shown of a line at another place. -/
def TaggedLine.relocate (place : Nat → Nat) (line : TaggedLine) : TaggedLine :=
  { line with tag := line.tag.relocate place, shown := line.shown.relocate place }

/-- The span lies in one line of the text. -/
structure Span.InLine (text : Text) (span : Span) : Prop where
  start_le : span.start ≤ span.stop
  stop_le : span.stop ≤ text.size
  oneLine : text.FreeOfNewlines span.start span.stop

namespace Matchers

variable {matchers : Matchers} {text : Text}

/-- A tag lies in the line that it is found in. -/
theorem IsTag.inLine {tag : Span} {line : CommentLine} (h : matchers.IsTag text line.stop tag)
    (hline : line.Within text 0 text.size) (hstart : line.start ≤ tag.start) : tag.InLine text where
  start_le := h.bounds.1
  stop_le := Nat.le_trans h.bounds.2 hline.le_hi
  oneLine := hline.oneLine.mono hstart h.bounds.2

/-- The tags that lines are shown for lie in one line each. -/
theorem inLine_of_mem_taggedLines {mode : Continuation} {inlineMark : Option Mark} {lines : List CommentLine}
    (hlines : ∀ line ∈ lines, line.Within text 0 text.size) {t : TaggedLine}
    (ht : some t ∈ matchers.taggedLines text mode inlineMark none lines) : t.tag.InLine text := by
  obtain ⟨line, hline, ⟨h, horigin, htag, -⟩ | ⟨hown, -⟩⟩ := origin_of_mem_taggedLines ht
  · obtain hmem | ⟨other, hother, hfound⟩ := horigin
    · cases hmem
    · rw [htag]
      have hstart := (head?_eq_some hfound).2.2.2
      exact (isTag_of_head? hfound).inLine (hlines other hother) (Nat.le_of_eq hstart.symm)
  · have hstart : line.start ≤ t.tag.start := by
      obtain ⟨-, ⟨-, hstart⟩ | ⟨mark, -, hinline⟩⟩ := lineTag?_eq_some hown
      · exact Nat.le_of_eq hstart.symm
      · obtain ⟨i, length, hle, -, -, -, -, -, htag⟩ := inlineTag?_eq_some hinline
        rw [htag]
        show line.start ≤ i + mark.length + 1
        omega
    exact (isTag_of_lineTag? hown).inLine (hlines line hline) hstart

end Matchers

namespace Text.Copies

variable {text copy : Text} {ending : LineEnding} {place : Nat → Nat} (h : text.Copies copy ending place)
include h

/-! ## Names -/

/-- A name is found in a part of a line of the copy as in the text. -/
theorem foldedAt_place {name : List Char} {i stop : Nat} (hi : i ≤ stop) (hstop : stop ≤ text.size)
    (hfree : text.FreeOfNewlines i stop) :
    TagAlternation.foldedAt copy (place stop) name (place i) = TagAlternation.foldedAt text stop name i := by
  induction name generalizing i with
  | nil => rfl
  | cons c rest ih =>
    rw [TagAlternation.foldedAt, TagAlternation.foldedAt, decide_eq_decide.2 h.mono.lt_iff_lt]
    rcases Nat.lt_or_eq_of_le hi with hlt | rfl
    · have hsolid := hfree.solidAt (Nat.le_refl i) hlt hstop
      rw [h.getElem?_of_solidAt hsolid, ← h.place_succ hsolid, ih hlt (hfree.mono (by omega) (Nat.le_refl _))]
    · rw [decide_eq_false (Nat.lt_irrefl i)]
      rfl

variable {i stop : Nat} (hi : i ≤ stop) (hstop : stop ≤ text.size) (hfree : text.FreeOfNewlines i stop)
include hi hstop hfree

theorem matchAt?_place (names : TagAlternation) :
    names.matchAt? copy (place i) (place stop) = names.matchAt? text i stop := by
  rw [TagAlternation.matchAt?, TagAlternation.matchAt?]
  exact congrArg (fun p => (names.folded.find? p).map List.length)
    (funext fun name => h.foldedAt_place hi hstop hfree)

theorem tagAt?_place (matchers : Matchers) :
    matchers.tagAt? copy (place i) (place stop) = matchers.tagAt? text i stop := by
  rw [Matchers.tagAt?, Matchers.tagAt?]
  simp only [h.matchAt?_place hi hstop hfree]

omit hi

/-- A tag in a part of a line is as long in the copy. -/
theorem tagSpan_place {length : Nat} (hlength : i + length ≤ stop) :
    Span.mk (place i) (place i + length) = (Span.mk i (i + length)).relocate place := by
  have hplace := h.place_add (hfree.mono (Nat.le_refl i) hlength) (Nat.le_trans hlength hstop)
  rw [Span.relocate, hplace]

omit hstop hfree

/-! ## Lines -/

variable {matchers : Matchers} {line : CommentLine}

theorem isBlank_relocate : (line.relocate place).isBlank = line.isBlank :=
  decide_eq_decide.2 h.mono.le_iff_le

/-- The tag with one of the names at the start of a line is copied. -/
theorem leadingTag_place (hline : line.Within text 0 text.size) (names : Option TagAlternation) :
    (names.bind (·.matchAt? copy (place line.start) (place line.stop))).map
        (fun length => Span.mk (place line.start) (place line.start + length)) =
      ((names.bind (·.matchAt? text line.start line.stop)).map fun length =>
        Span.mk line.start (line.start + length)).map (Span.relocate place) := by
  cases names with
  | none => rfl
  | some names =>
    rw [Option.bind_some, Option.bind_some, h.matchAt?_place hline.start_le hline.le_hi hline.oneLine]
    cases hlength : names.matchAt? text line.start line.stop with
    | none => rfl
    | some length =>
      have hle := TagAlternation.add_le_of_matchAt? hlength hline.start_le
      exact congrArg some (h.tagSpan_place hline.le_hi hline.oneLine hle)

/-- A head is copied. -/
theorem head?_place (hline : line.Within text 0 text.size) :
    matchers.head? copy (line.relocate place) = (matchers.head? text line).map (Head.relocate place) := by
  rw [Matchers.head?, Matchers.head?, h.isBlank_relocate, CommentLine.opener_relocate,
    TagAlternation.bind_matchAt?_eq, TagAlternation.bind_matchAt?_eq]
  split
  · have hleading := congrArg (Option.map (Head.mk · line.indent))
      (h.leadingTag_place hline matchers.multiline)
    rw [Option.map_map, Option.map_map, Option.map_map] at hleading
    rw [Option.map_map]
    exact hleading
  · rfl

/-- The highlight of a head goes on over the same lines. -/
theorem goesOn_place (hline : line.Within text 0 text.size) (mode : Continuation) (head : Head) :
    matchers.goesOn copy mode (head.relocate place) (line.relocate place) =
      matchers.goesOn text mode head line := by
  rw [Matchers.goesOn, Matchers.goesOn, h.isBlank_relocate, Head.indent_relocate, CommentLine.indent_relocate,
    CommentLine.opener_relocate]
  have htag : matchers.tagAt? copy (line.relocate place).start (line.relocate place).stop =
      matchers.tagAt? text line.start line.stop :=
    h.tagAt?_place hline.start_le hline.le_hi hline.oneLine matchers
  rw [htag]

/-- After a mark further on in a line the same tag is found. -/
theorem tagAfter_place {mark : Mark} {k stop : Nat} (hk : k ≤ text.size)
    (hmark : place (k + mark.length) = place k + mark.length) (hle : k + mark.length ≤ stop)
    (hstop : stop ≤ text.size) (hfree : text.FreeOfNewlines (k + mark.length) stop) :
    (if copy.followsBlank (place k) && place k + mark.length < place stop &&
          copy.blankAt (place k + mark.length) then
        matchers.tagAt? copy (place k + mark.length + 1) (place stop)
      else none) =
    if text.followsBlank k && k + mark.length < stop && text.blankAt (k + mark.length) then
        matchers.tagAt? text (k + mark.length + 1) stop
      else none := by
  rw [← hmark, h.followsBlank_place hk, h.blankAt_place (Nat.le_trans hle hstop),
    decide_eq_decide.2 h.mono.lt_iff_lt]
  split
  · next hcond =>
    rw [Bool.and_eq_true, Bool.and_eq_true, decide_eq_true_eq] at hcond
    rw [← h.place_succ (hfree.solidAt (Nat.le_refl _) hcond.1.2 hstop)]
    exact h.tagAt?_place hcond.1.2 hstop (hfree.mono (Nat.le_succ _) (Nat.le_refl _)) matchers
  · rfl

/-- The first tag after a mark inside a line is copied, if the mark has no character of a line ending. -/
theorem inlineTag?_place {mark : Mark} (hspares : ending.Spares mark.chars) {start stop : Nat}
    (hle : start ≤ stop) (hstop : stop ≤ text.size) (hfree : text.FreeOfNewlines start stop) :
    matchers.inlineTag? copy mark (place start) (place stop) =
      (matchers.inlineTag? text mark start stop).map (Span.relocate place) := by
  have hfind (start : Nat) : copy.find? mark.chars (place start) (place stop) =
      (text.find? mark.chars start stop).map place :=
    h.find?_place hspares mark.nonempty (fun _ _ => h.mono.le_iff_le.symm) (h.mono.monotone (Nat.zero_le _))
      hstop
  -- the mark has no line feed, so the text after it is as far from it in the copy
  have hfound {start k : Nat} (hle : start ≤ stop) (hfree : text.FreeOfNewlines start stop)
      (hk : text.find? mark.chars start stop = some k) :
      start ≤ k ∧ k + mark.length ≤ stop ∧ place (k + mark.length) = place k + mark.length := by
    obtain ⟨⟨hks, hfit, -⟩, -⟩ := find?_eq_some_iff.1 hk
    exact ⟨hks, hfit, h.place_add (hfree.mono hks hfit) (Nat.le_trans hfit hstop)⟩
  fun_induction Matchers.inlineTag? matchers text mark start stop with
  | case1 start hnone =>
    have hthere := hfind start
    rw [hnone] at hthere
    rw [Matchers.inlineTag?_of_find?_eq_none hthere]
    rfl
  | case2 start k hk next length hlength =>
    obtain ⟨hks, hfit, hmark⟩ := hfound hle hfree hk
    have hthere := hfind start
    rw [hk] at hthere
    rw [dite_eq_ite] at hlength
    have hrest : text.FreeOfNewlines (k + mark.length) stop := hfree.mono (by omega) (Nat.le_refl _)
    rw [Matchers.inlineTag?_of_find? hthere, h.tagAfter_place (by omega) hmark hfit hstop hrest, hlength]
    split at hlength
    · next hcond =>
      rw [Bool.and_eq_true, Bool.and_eq_true, decide_eq_true_eq] at hcond
      have hbounds := (Matchers.isTag_of_tagAt? hlength hcond.1.2).bounds.2
      have hnext := h.place_succ (hfree.solidAt (i := next) (by omega) hcond.1.2 hstop)
      rw [hmark] at hnext
      rw [← hnext]
      exact congrArg some (h.tagSpan_place hstop (hfree.mono (by omega) (Nat.le_refl _)) hbounds)
    · cases hlength
  | case3 start k hk next hnone ih =>
    obtain ⟨hks, hfit, hmark⟩ := hfound hle hfree hk
    have hthere := hfind start
    rw [hk] at hthere
    rw [dite_eq_ite] at hnone
    have hrest : text.FreeOfNewlines (k + mark.length) stop := hfree.mono (by omega) (Nat.le_refl _)
    rw [Matchers.inlineTag?_of_find? hthere, h.tagAfter_place (by omega) hmark hfit hstop hrest, hnone, ← hmark]
    exact ih hfit hrest

/-- The tag that a line shows by itself is copied. -/
theorem lineTag?_place (hline : line.Within text 0 text.size) {inlineMark : Option Mark}
    (hspares : ∀ mark ∈ inlineMark, ending.Spares mark.chars) :
    matchers.lineTag? copy inlineMark (line.relocate place) =
      (matchers.lineTag? text inlineMark line).map (Span.relocate place) := by
  rw [Matchers.lineTag?, Matchers.lineTag?, h.isBlank_relocate, CommentLine.opener_relocate,
    TagAlternation.bind_matchAt?_eq, TagAlternation.bind_matchAt?_eq]
  split
  · rfl
  · have hinline : inlineMark.bind (matchers.inlineTag? copy · (place line.start) (place line.stop)) =
        (inlineMark.bind (matchers.inlineTag? text · line.start line.stop)).map (Span.relocate place) := by
      cases inlineMark with
      | none => rfl
      | some mark => exact h.inlineTag?_place (hspares mark rfl) hline.start_le hline.le_hi hline.oneLine
    rw [Option.map_or, ← hinline]
    refine congrArg (Option.or · _) ?_
    split
    · exact h.leadingTag_place hline matchers.line
    · rfl

/-- The lines of a copy show what the lines of the text show, at the places to which it is copied. -/
theorem taggedLines_place (matchers : Matchers) (mode : Continuation) {inlineMark : Option Mark}
    (hspares : ∀ mark ∈ inlineMark, ending.Spares mark.chars) (head : Option Head) {lines : List CommentLine}
    (hlines : ∀ line ∈ lines, line.Within text 0 text.size) :
    matchers.taggedLines copy mode inlineMark (head.map (Head.relocate place))
        (lines.map (CommentLine.relocate place)) =
      (matchers.taggedLines text mode inlineMark head lines).map (Option.map (TaggedLine.relocate place)) := by
  induction lines generalizing head with
  | nil => rfl
  | cons line rest ih =>
    obtain ⟨hline, hrest⟩ := List.forall_mem_cons.1 hlines
    have habove : (head.map (Head.relocate place)).filter (matchers.goesOn copy mode · (line.relocate place)) =
        (head.filter (matchers.goesOn text mode · line)).map (Head.relocate place) := by
      rw [Option.filter_map]
      exact congrArg _ (congrArg (head.filter ·) (funext fun head => h.goesOn_place hline mode head))
    rw [List.map_cons, Matchers.taggedLines, Matchers.taggedLines, habove, h.head?_place hline,
      h.lineTag?_place hline hspares]
    cases head.filter (matchers.goesOn text mode · line) with
    | some above => exact congrArg (_ :: ·) (ih (some above) hrest)
    | none =>
      cases matchers.head? text line with
      | some head => exact congrArg (_ :: ·) (ih (some head) hrest)
      | none =>
        refine congr (congrArg _ ?_) (ih none hrest)
        cases matchers.lineTag? text inlineMark line <;> rfl

/-- A part of a line has the same characters in the copy. -/
theorem slice_place {i e : Nat} (hie : i ≤ e) (he : e ≤ text.size) (hfree : text.FreeOfNewlines i e) :
    copy.slice (place i) (place e) = text.slice i e := by
  have hlength := h.place_eq_add hfree he hie (Nat.le_refl e)
  have hsize := h.place_le_size he
  have hextract : copy.extract (place i) (place e) = text.extract i e := by
    apply Array.ext_getElem?
    intro k
    rw [Array.getElem?_extract, Array.getElem?_extract, Nat.min_eq_left hsize, Nat.min_eq_left he, hlength,
      Nat.add_sub_cancel_left]
    split
    · next hk =>
      have hdistance := h.place_eq_add hfree he (Nat.le_add_right i k) (by omega)
      rw [Nat.add_sub_cancel_left] at hdistance
      rw [← hdistance, h.getElem?_of_solidAt (hfree.solidAt (Nat.le_add_right i k) (by omega) he)]
    · rfl
  rw [slice, slice, hextract]

/-- What a line shows is the same highlight at its place in the document of the copy. -/
theorem highlight_place {base base' : Nat} {spot : Nat → Nat} (hspot : ∀ i, spot (base + i) = base' + place i)
    {t : TaggedLine} (ht : t.tag.InLine text) :
    (t.relocate place).highlight copy base' = (t.highlight text base).relocate spot := by
  have hslice := h.slice_place ht.start_le ht.stop_le ht.oneLine
  simp only [TaggedLine.highlight, TaggedLine.relocate, Highlight.relocate, Span.relocate, Span.shift, hslice,
    Nat.add_comm _ base, Nat.add_comm _ base', hspot]

end Text.Copies

end CommentTags
