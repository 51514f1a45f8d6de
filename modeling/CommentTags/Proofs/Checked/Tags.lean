import CommentTags.Proofs.Checked.Lines

/-!
# Tags by bytes

What the lines of a comment show is found by byte offsets: the tag at the start of a line, the lines under a
head, and the tag after a mark further on in a line, for which the mark is looked for again and again.

## Main definitions

* `Checked.taggedLines`: what each of several lines shows;
* `Checked.placeAll`: where in the document all of this is;
* `TaggedLine.toBytes`: what is shown of a line with byte offsets in place of positions.

## Main results

* `Checked.Fits.taggedLines_eq` and `Checked.Fits.placeAll_eq`: nothing goes wrong, and the outcome is that
  of the scan.
-/

namespace CommentTags

/-- The span with byte offsets in place of positions. -/
def Span.toBytes (text : Text) (span : Span) : Span :=
  ⟨text.byteAt span.start, text.byteAt span.stop⟩

/-- The head with byte offsets in place of positions. -/
def Head.toBytes (text : Text) (head : Head) : Head :=
  { head with tag := head.tag.toBytes text }

@[simp]
theorem Head.indent_toBytes (text : Text) (head : Head) : (head.toBytes text).indent = head.indent := rfl

/-- What is shown of a line with byte offsets in place of positions. -/
def TaggedLine.toBytes (text : Text) (line : TaggedLine) : TaggedLine :=
  { line with tag := line.tag.toBytes text, shown := line.shown.toBytes text }

namespace TagAlternation

/-- The characters of a name are looked for up to the end of the part of the text. -/
theorem add_length_le_of_foldedAt {text : Text} {stop : Nat} {name : List Char} {i : Nat}
    (h : foldedAt text stop name i = true) (hi : i ≤ stop) : i + name.length ≤ stop := by
  induction name generalizing i with
  | nil => exact hi
  | cons c rest ih =>
    rw [foldedAt, Bool.and_eq_true, Bool.and_eq_true, decide_eq_true_eq] at h
    have := ih h.2 h.1.1
    rw [List.length_cons]
    omega

/-- A name that stands in a part of the text ends in it. -/
theorem add_le_of_matchAt? {names : TagAlternation} {text : Text} {start stop length : Nat}
    (h : names.matchAt? text start stop = some length) (hle : start ≤ stop) : start + length ≤ stop := by
  obtain ⟨name, hname, rfl⟩ := Option.map_eq_some_iff.1 h
  have hfound := List.find?_some hname
  exact add_length_le_of_foldedAt hfound hle

end TagAlternation

/-- The span lies in the text. -/
structure Span.InText (text : Text) (span : Span) : Prop where
  start_le : span.start ≤ span.stop
  stop_le : span.stop ≤ text.size

/-- The tag and the text to show lie in the text. -/
structure TaggedLine.InText (text : Text) (line : TaggedLine) : Prop where
  tag : line.tag.InText text
  shown : line.shown.InText text

namespace Matchers

variable {matchers : Matchers} {text : Text}

/-- A tag ends where its name has to end. -/
theorem IsTag.bounds {stop : Nat} {tag : Span} (h : matchers.IsTag text stop tag) :
    tag.start ≤ tag.stop ∧ tag.stop ≤ stop := by
  obtain ⟨names, length, -, hlength, hstop⟩ := h.named
  have hle := TagAlternation.add_le_of_matchAt? hlength h.start_le
  rw [hstop]
  exact ⟨Nat.le_add_right _ _, hle⟩

/-- What lines of the text show lies in the text. -/
theorem inText_of_mem_taggedLines {mode : Continuation} {inlineMark : Option Mark} {head : Option Head}
    {lines : List CommentLine} (hhead : ∀ h ∈ head, h.tag.InText text)
    (hlines : ∀ line ∈ lines, line.Within text 0 text.size) {t : TaggedLine}
    (ht : some t ∈ matchers.taggedLines text mode inlineMark head lines) : t.InText text := by
  -- a tag that ends in one of the lines lies in the text
  have hin {line : CommentLine} {tag : Span} (hline : line ∈ lines)
      (htag : matchers.IsTag text line.stop tag) : tag.InText text :=
    ⟨htag.bounds.1, Nat.le_trans htag.bounds.2 (hlines line hline).le_hi⟩
  obtain ⟨line, hline, ⟨h, horigin, htag, hshown⟩ | ⟨hown, hshown⟩⟩ := origin_of_mem_taggedLines ht
  · refine ⟨?_, ?_⟩
    · rw [htag]
      rcases horigin with hmem | ⟨other, hother, hfound⟩
      · exact hhead h hmem
      · exact hin hother (isTag_of_head? hfound)
    · rw [hshown]
      exact ⟨(hlines line hline).start_le, (hlines line hline).le_hi⟩
  · have htag := isTag_of_lineTag? hown
    refine ⟨hin hline htag, ?_⟩
    rw [hshown]
    exact ⟨htag.start_le, (hlines line hline).le_hi⟩

end Matchers

namespace Checked

variable (matchers : Matchers) (text : Text)

/-- The tag of `length` bytes at `start`. -/
def tagSpan (start length : Nat) : Except IndexFault Span := do
  let stop ← add start length
  let _ ← slice text start stop
  return ⟨start, stop⟩

/-- The tag with one of the names at the start of the line. -/
def leadingTag? (names : Option TagAlternation) (line : CommentLine) : Except IndexFault (Option Span) :=
  match names with
  | none => return none
  | some names => do
    match (← slice text line.start line.stop).nameLength? names with
    | none => return none
    | some length => return some (← tagSpan text line.start length)

/-- The line as a head, if it is one. -/
def head? (line : CommentLine) : Except IndexFault (Option Head) :=
  if line.opener && !line.isBlank then do
    return (← leadingTag? text matchers.multiline line).map (⟨·, line.indent⟩)
  else
    return none

/-- The highlight of `head` goes on over the line. -/
def goesOn (mode : Continuation) (head : Head) (line : CommentLine) : Except IndexFault Bool :=
  if !line.isBlank && (mode == .untilBlank || head.indent < line.indent) then
    if line.opener then do
      return ((← slice text line.start line.stop).tagLength? matchers).isNone
    else
      return true
  else
    return false

/-- The head above the line, if its highlight goes on over the line. -/
def headAbove? (mode : Continuation) (head : Option Head) (line : CommentLine) :
    Except IndexFault (Option Head) :=
  match head with
  | none => return none
  | some h => return if ← goesOn matchers text mode h line then some h else none

/-- The first tag between two byte offsets that follows an occurrence of `mark` and one blank; a blank stands
before the mark. -/
def inlineTag? (mark : Mark) (start stop : Nat) : Except IndexFault (Option Span) := do
  match (← slice text start stop).find? mark.chars with
  | none => return none
  | some found =>
    let markStart ← add start found
    let next ← add markStart (utf8Length mark.chars)
    let before ← slice text 0 markStart
    let after ← slice text next stop
    let tag? : Option (Slice text × Nat) :=
      if before.endsWithBlank then do
        let rest ← after.stripBlank?
        return (rest, ← rest.tagLength? matchers)
      else
        none
    match tag? with
    | some (rest, length) => return some (← tagSpan text (← sub stop rest.length) length)
    | none => if start < next ∧ next ≤ stop then inlineTag? mark next stop else throw .stuck
termination_by stop - start

/-- The tag that a line shows when it is neither a head nor under one. -/
def lineTag? (inlineMark : Option Mark) (line : CommentLine) : Except IndexFault (Option Span) :=
  if line.isBlank then return none
  else do
    let leading ← leadingTag? text (if line.opener then matchers.line else none) line
    match leading, inlineMark with
    | none, some mark => inlineTag? matchers text mark line.start line.stop
    | leading, _ => return leading

/-- What each of the lines shows when the highlight of `head` may go on over the first. -/
def taggedLines (mode : Continuation) (inlineMark : Option Mark) (head : Option Head) :
    List CommentLine → Except IndexFault (List (Option TaggedLine))
  | [] => return []
  | line :: rest => do
    match ← headAbove? matchers text mode head line with
    | some h =>
      let others ← taggedLines mode inlineMark (some h) rest
      return some ⟨h.tag, ⟨line.start, line.stop⟩, false⟩ :: others
    | none =>
      match ← head? matchers text line with
      | some h =>
        let others ← taggedLines mode inlineMark (some h) rest
        return some ⟨h.tag, ⟨line.start, line.stop⟩, true⟩ :: others
      | none =>
        let tag ← lineTag? matchers text inlineMark line
        let others ← taggedLines mode inlineMark none rest
        return tag.map (fun tag => ⟨tag, ⟨tag.start, line.stop⟩, false⟩) :: others

/-- Where in a text that starts at `base` the tag and the text to show are; both offsets in the document are
machine words. -/
def place (base : Nat) (line : TaggedLine) : Except IndexFault TaggedLine := do
  let tag ← slice text line.tag.start line.tag.stop
  let _ ← charOffset text base line.shown.start
  let _ ← charOffset text base line.shown.stop
  return { line with
    tag := ⟨tag.start, tag.stop⟩
    shown := ⟨text.charAt line.shown.start, text.charAt line.shown.stop⟩ }

/-- Where in a text that starts at `base` all that lines show is. -/
def placeAll (base : Nat) (shown : List (Option TaggedLine)) : Except IndexFault (List (Option TaggedLine)) :=
  shown.mapM fun line? => line?.mapM (place text base)

/-! ## Nothing goes wrong -/

variable {matchers text} {base i j : Nat} {line : CommentLine}

/-- Byte offsets do not make a line blank. -/
theorem isBlank_toBytes (hline : line.Within text 0 text.size) :
    (line.toBytes text).isBlank = line.isBlank := by
  rw [CommentLine.isBlank, CommentLine.isBlank, decide_eq_decide]
  exact Text.byteAt_le_byteAt_iff hline.le_hi

/-- A tag in the text is a slice. -/
theorem Fits.tagSpan_eq (hfits : Fits text base) (hij : i ≤ j) (hj : j ≤ text.size) (stop : Nat) :
    tagSpan text (text.byteAt i) ((⟨i, stop⟩ : Slice text).upTo j) =
      .ok ((⟨i, j⟩ : Span).toBytes text) := by
  rw [tagSpan, hfits.add_upTo hij hj, ok_bind, slice_byteAt hij hj, ok_bind]
  rfl

/-- The slice of a line is its content. -/
theorem slice_toBytes (hline : line.Within text 0 text.size) :
    slice text (line.toBytes text).start (line.toBytes text).stop = .ok ⟨line.start, line.stop⟩ :=
  slice_byteAt hline.start_le hline.le_hi

/-- The tag at the start of a line is found. -/
theorem Fits.leadingTag?_eq (hfits : Fits text base) (hline : line.Within text 0 text.size)
    (names : Option TagAlternation) :
    leadingTag? text names (line.toBytes text) =
      .ok ((names.bind (·.matchAt? text line.start line.stop)).map fun length =>
        (⟨line.start, line.start + length⟩ : Span).toBytes text) := by
  cases names with
  | none => rfl
  | some names =>
    rw [leadingTag?, slice_toBytes hline, ok_bind, Option.bind_some, Slice.nameLength?]
    cases hmatch : names.matchAt? text line.start line.stop with
    | none => rfl
    | some length =>
      have hstop := TagAlternation.add_le_of_matchAt? hmatch hline.start_le
      have hsize := Nat.le_trans hstop hline.le_hi
      have htag : tagSpan text (line.toBytes text).start
          ((⟨line.start, line.stop⟩ : Slice text).upTo (line.start + length)) =
            .ok ((⟨line.start, line.start + length⟩ : Span).toBytes text) :=
        hfits.tagSpan_eq (Nat.le_add_right _ _) hsize line.stop
      rw [Option.map_some, Option.map_some]
      dsimp only
      rw [htag]
      rfl

/-- Heads are found. -/
theorem Fits.head?_eq (hfits : Fits text base) (hline : line.Within text 0 text.size) :
    head? matchers text (line.toBytes text) =
      .ok ((matchers.head? text line).map (Head.toBytes text)) := by
  rw [head?, Matchers.head?, isBlank_toBytes hline, CommentLine.opener_toBytes]
  split
  · rw [hfits.leadingTag?_eq hline, ok_bind]
    cases matchers.multiline with
    | none => rfl
    | some names =>
      simp only [Option.bind_some, Option.bind_eq_bind]
      cases names.matchAt? text line.start line.stop <;> rfl
  · rfl

/-- The tag at the start of a slice. -/
theorem tagLength?_eq (matchers : Matchers) (i j : Nat) :
    (⟨i, j⟩ : Slice text).tagLength? matchers =
      (matchers.tagAt? text i j).map fun length => (⟨i, j⟩ : Slice text).upTo (i + length) := by
  rw [Slice.tagLength?, Matchers.tagAt?, Option.map_or, Option.map_bind, Option.map_bind]
  rfl

/-- Whether a highlight goes on is found out. -/
theorem goesOn_eq (hline : line.Within text 0 text.size) (mode : Continuation) (head : Head) :
    goesOn matchers text mode (head.toBytes text) (line.toBytes text) =
      .ok (matchers.goesOn text mode head line) := by
  rw [goesOn, Matchers.goesOn, isBlank_toBytes hline, CommentLine.opener_toBytes,
    CommentLine.indent_toBytes, Head.indent_toBytes]
  split
  · next hdeeper =>
    rw [hdeeper, Bool.true_and]
    split
    · next hopener =>
      rw [hopener, Bool.true_and, slice_toBytes hline, ok_bind, tagLength?_eq, Option.isNone_map,
        Option.not_isSome]
      rfl
    · next hopener =>
      rw [Bool.not_eq_true] at hopener
      rw [hopener, Bool.false_and]
      rfl
  · next hdeeper =>
    rw [Bool.not_eq_true] at hdeeper
    rw [hdeeper, Bool.false_and]
    rfl

/-- The head above a line is found. -/
theorem headAbove?_eq (hline : line.Within text 0 text.size) (mode : Continuation) (head : Option Head) :
    headAbove? matchers text mode (head.map (Head.toBytes text)) (line.toBytes text) =
      .ok ((head.filter (matchers.goesOn text mode · line)).map (Head.toBytes text)) := by
  cases head with
  | none => rfl
  | some h =>
    rw [Option.map_some, headAbove?, goesOn_eq hline, ok_bind, Option.filter_some]
    cases matchers.goesOn text mode h line <;> rfl

/-- What follows an occurrence of a mark: a tag after one blank, if a blank stands before the mark. -/
theorem tagAfter?_eq (matchers : Matchers) (i next j : Nat) :
    (if (⟨0, i⟩ : Slice text).endsWithBlank then do
      let rest ← (⟨next, j⟩ : Slice text).stripBlank?
      return (rest, ← rest.tagLength? matchers)
    else none) =
      (if text.followsBlank i && next < j && text.blankAt next then matchers.tagAt? text (next + 1) j
        else none).map fun length =>
          (⟨next + 1, j⟩, (⟨next + 1, j⟩ : Slice text).upTo (next + 1 + length)) := by
  rw [Slice.endsWithBlank, Slice.stripBlank?, Bool.and_assoc]
  show (if text.followsBlank i = true then _ else _) = _
  cases text.followsBlank i with
  | false => rfl
  | true =>
    rw [if_pos rfl, Bool.true_and]
    split
    · simp only [Option.bind_eq_bind, Option.bind_some, tagLength?_eq]
      cases matchers.tagAt? text (next + 1) j <;> rfl
    · rfl

/-- Of an occurrence of the mark the search finds out what follows it. If it is no tag, the search goes on
behind the mark. -/
theorem Fits.inlineTag?_of_find? (hfits : Fits text base) {mark : Mark} {k : Nat} (hj : j ≤ text.size)
    (hk : text.find? mark.chars i j = some k) :
    inlineTag? matchers text mark (text.byteAt i) (text.byteAt j) =
      match
        if text.followsBlank k && k + mark.length < j && text.blankAt (k + mark.length) then
          matchers.tagAt? text (k + mark.length + 1) j
        else none with
      | some length =>
        .ok (some ((⟨k + mark.length + 1, k + mark.length + 1 + length⟩ : Span).toBytes text))
      | none => inlineTag? matchers text mark (text.byteAt (k + mark.length)) (text.byteAt j) := by
  obtain ⟨⟨hik, hkj, hocc⟩, -⟩ := Text.find?_eq_some_iff.1 hk
  replace hkj : k + mark.length ≤ j := hkj
  have hmark := mark.length_pos
  have hksize : k ≤ text.size := by omega
  have hnext : add (text.byteAt k) (utf8Length mark.chars) = .ok (text.byteAt (k + mark.length)) :=
    hfits.add_utf8Length hocc hksize
  have hbefore : slice text 0 (text.byteAt k) = .ok ⟨0, k⟩ := by
    have hslice := slice_byteAt (Nat.zero_le k) hksize
    rwa [Text.byteAt_zero] at hslice
  have hadvance : text.byteAt i < text.byteAt (k + mark.length) ∧
      text.byteAt (k + mark.length) ≤ text.byteAt j :=
    ⟨Text.byteAt_lt_byteAt (by omega) (by omega), Text.byteAt_le_byteAt hkj⟩
  rw [inlineTag?, slice_byteAt (by omega) hj, ok_bind, Slice.find?, hk, Option.map_some]
  dsimp only
  rw [hfits.add_upTo hik hksize, ok_bind, hnext, ok_bind, hbefore, ok_bind, slice_byteAt hkj hj, ok_bind,
    tagAfter?_eq]
  cases hlength : (if text.followsBlank k && k + mark.length < j && text.blankAt (k + mark.length) then
      matchers.tagAt? text (k + mark.length + 1) j
    else none) with
  | none => exact if_pos hadvance
  | some length =>
    have hcond : k + mark.length + 1 ≤ j ∧ k + mark.length + 1 + length ≤ j := by
      split at hlength
      · next hcond =>
        rw [Bool.and_eq_true, Bool.and_eq_true, decide_eq_true_eq] at hcond
        exact ⟨hcond.1.2, (Matchers.isTag_of_tagAt? hlength hcond.1.2).bounds.2⟩
      · cases hlength
    rw [Option.map_some]
    dsimp only
    rw [sub_length hcond.1, ok_bind,
      hfits.tagSpan_eq (Nat.le_add_right _ _) (Nat.le_trans hcond.2 hj)]
    rfl

/-- The first tag after a mark inside a line is found. -/
theorem Fits.inlineTag?_eq (hfits : Fits text base) (mark : Mark) (hij : i ≤ j) (hj : j ≤ text.size) :
    inlineTag? matchers text mark (text.byteAt i) (text.byteAt j) =
      .ok ((matchers.inlineTag? text mark i j).map (Span.toBytes text)) := by
  fun_induction Matchers.inlineTag? matchers text mark i j with
  | case1 i hnone =>
    rw [inlineTag?, slice_byteAt hij hj, ok_bind, Slice.find?, hnone]
    rfl
  | case2 i k hk next length hlength =>
    rw [dite_eq_ite] at hlength
    rw [hfits.inlineTag?_of_find? hj hk, show k + mark.length = next from rfl, hlength]
    rfl
  | case3 i k hk next hnone ih =>
    obtain ⟨⟨-, hkj, -⟩, -⟩ := Text.find?_eq_some_iff.1 hk
    rw [dite_eq_ite] at hnone
    rw [hfits.inlineTag?_of_find? hj hk, show k + mark.length = next from rfl, hnone]
    exact ih hkj

/-- What a line shows that is neither a head nor under one is found. -/
theorem Fits.lineTag?_eq (hfits : Fits text base) (hline : line.Within text 0 text.size)
    (inlineMark : Option Mark) :
    lineTag? matchers text inlineMark (line.toBytes text) =
      .ok ((matchers.lineTag? text inlineMark line).map (Span.toBytes text)) := by
  rw [lineTag?, Matchers.lineTag?, isBlank_toBytes hline, CommentLine.opener_toBytes]
  split
  · rfl
  · have hleading : (if line.opener then do
        let length ← (← matchers.line).matchAt? text line.start line.stop
        return Span.mk line.start (line.start + length)
      else none) =
        ((if line.opener then matchers.line else none).bind (·.matchAt? text line.start line.stop)).map
          fun length => ⟨line.start, line.start + length⟩ := by
      split
      · exact TagAlternation.bind_matchAt?_eq _ _ _ _ _
      · rfl
    rw [hleading, hfits.leadingTag?_eq hline, ok_bind]
    cases (if line.opener then matchers.line else none).bind (·.matchAt? text line.start line.stop) with
    | some length => rfl
    | none =>
      cases inlineMark with
      | none => rfl
      | some mark => exact hfits.inlineTag?_eq mark hline.start_le hline.le_hi

/-- What lines show is found. -/
theorem Fits.taggedLines_eq (hfits : Fits text base) (mode : Continuation) (inlineMark : Option Mark)
    (head : Option Head) {lines : List CommentLine} (hlines : ∀ line ∈ lines, line.Within text 0 text.size) :
    taggedLines matchers text mode inlineMark (head.map (Head.toBytes text))
        (lines.map (CommentLine.toBytes text)) =
      .ok ((matchers.taggedLines text mode inlineMark head lines).map
        (Option.map (TaggedLine.toBytes text))) := by
  induction lines generalizing head with
  | nil => rfl
  | cons line rest ih =>
    obtain ⟨hline, hrest⟩ := List.forall_mem_cons.1 hlines
    rw [List.map_cons, taggedLines, Matchers.taggedLines, headAbove?_eq hline, ok_bind]
    cases head.filter (matchers.goesOn text mode · line) with
    | some h =>
      rw [Option.map_some]
      dsimp only
      have hothers := ih (some h) hrest
      rw [Option.map_some] at hothers
      rw [hothers, ok_bind]
      rfl
    | none =>
      rw [Option.map_none]
      dsimp only
      rw [hfits.head?_eq hline, ok_bind]
      cases matchers.head? text line with
      | some h =>
        rw [Option.map_some]
        dsimp only
        have hothers := ih (some h) hrest
        rw [Option.map_some] at hothers
        rw [hothers, ok_bind]
        rfl
      | none =>
        rw [Option.map_none]
        dsimp only
        have hothers := ih none hrest
        rw [Option.map_none] at hothers
        rw [hfits.lineTag?_eq hline, ok_bind, hothers, ok_bind]
        cases matchers.lineTag? text inlineMark line <;> rfl

/-- What lies in the text has a place in the document. -/
theorem Fits.place_eq (hfits : Fits text base) {t : TaggedLine} (ht : t.InText text) :
    place text base (t.toBytes text) = .ok t := by
  have hstart := Nat.le_trans ht.shown.start_le ht.shown.stop_le
  have htag : slice text (t.toBytes text).tag.start (t.toBytes text).tag.stop =
      .ok ⟨t.tag.start, t.tag.stop⟩ :=
    slice_byteAt ht.tag.start_le ht.tag.stop_le
  have hfirst : charOffset text base (t.toBytes text).shown.start = .ok (base + t.shown.start) :=
    hfits.charOffset_byteAt hstart
  have hlast : charOffset text base (t.toBytes text).shown.stop = .ok (base + t.shown.stop) :=
    hfits.charOffset_byteAt ht.shown.stop_le
  have hback₁ : text.charAt (t.toBytes text).shown.start = t.shown.start := Text.charAt_byteAt hstart
  have hback₂ : text.charAt (t.toBytes text).shown.stop = t.shown.stop := Text.charAt_byteAt ht.shown.stop_le
  rw [place, htag, ok_bind, hfirst, ok_bind, hlast, ok_bind, hback₁, hback₂]
  rfl

/-- What lines show is brought to its place. -/
theorem Fits.placeAll_eq (hfits : Fits text base) {shown : List (Option TaggedLine)}
    (hshown : ∀ t, some t ∈ shown → t.InText text) :
    placeAll text base (shown.map (Option.map (TaggedLine.toBytes text))) = .ok shown := by
  have hone : ∀ line? ∈ shown,
      (line?.map (TaggedLine.toBytes text)).mapM (place text base) = .ok (id line?) := fun line? hline => by
    cases line? with
    | none => rfl
    | some t =>
      rw [Option.map_some, Option.mapM_some, hfits.place_eq (hshown t hline)]
      rfl
  have hall := mapM_of_ok hone
  rw [List.map_id] at hall
  rw [placeAll, List.mapM_map]
  exact hall

end Checked

end CommentTags
