import CommentTags.Proofs.Scan

/-!
# What a line shows, without going through the lines before it

The lines of a comment are read one after the other, and a head is carried along as long as its highlight goes
on. This module says what a line shows in terms of all lines at once: it is under a head if the highlight of the
head goes on over every line from there to it, and a line that is under no head shows a tag of its own.

The module introduces:

* `CommentLine.IsHead`, `CommentLine.Continues` and `CommentLine.Leads`: how a line stands to the tags;
* `Matchers.IsUnder`: a line is under the head that another line is;
* `Matchers.LineShows`: what a line shows.

A head is no line that a highlight goes on over, so that a line is under one head at most (`IsUnder.unique`).
Carrying a head along therefore finds the head that a line is under (`lineShows_of_getElem?_taggedLines`), and a
scan records exactly what `LineShows` says, one line after the other (`recordAll_eq_lineShows`).
-/

namespace CommentTags

namespace CommentLine

/-- The line may open a tag and its content starts with a multiline tag. -/
structure IsHead (matchers : Matchers) (text : Text) (line : CommentLine) (head : Head) : Prop where
  opener : line.opener = true
  content : line.start < line.stop
  named : ∃ names length, matchers.multiline = some names ∧
    names.matchAt? text line.start line.stop = some length ∧
    head = ⟨⟨line.start, line.start + length⟩, line.indent⟩

/-- The highlight of `head` goes on over the line: the line has content, is indented deeper than the head where
that counts, and does not open with a tag of either tier. -/
structure Continues (matchers : Matchers) (text : Text) (mode : Continuation) (head : Head)
    (line : CommentLine) : Prop where
  content : line.start < line.stop
  deeper : mode = .indented → head.indent < line.indent
  noTag : line.opener = true → matchers.tagAt? text line.start line.stop = none

/-- The line may open a tag and its content starts with the line tag `tag`. -/
structure Leads (matchers : Matchers) (text : Text) (line : CommentLine) (tag : Span) : Prop where
  opener : line.opener = true
  content : line.start < line.stop
  named : ∃ names length, matchers.line = some names ∧
    names.matchAt? text line.start line.stop = some length ∧ tag = ⟨line.start, line.start + length⟩

variable {matchers : Matchers} {text : Text} {mode : Continuation} {line : CommentLine}

theorem isHead_iff {head : Head} :
    IsHead matchers text line head ↔ matchers.head? text line = some head := by
  constructor
  · rintro ⟨hopener, hcontent, names, length, hnames, hlength, rfl⟩
    simp [Matchers.head?, hopener, isBlank_eq_false_iff.2 hcontent, hnames, hlength]
  · intro h
    obtain ⟨hopener, hcontent, -, -⟩ := Matchers.head?_eq_some h
    refine ⟨hopener, hcontent, ?_⟩
    simp only [Matchers.head?, hopener, isBlank_eq_false_iff.2 hcontent, Bool.not_false, Bool.and_self, if_true,
      Option.bind_eq_bind, Option.bind_eq_some_iff] at h
    obtain ⟨names, hnames, length, hlength, h⟩ := h
    exact ⟨names, length, hnames, hlength, (Option.some.inj h).symm⟩

theorem continues_iff {head : Head} :
    Continues matchers text mode head line ↔ matchers.goesOn text mode head line = true := by
  rw [Matchers.goesOn_iff, not_and, Bool.not_eq_true, Option.isSome_eq_false_iff, Option.isNone_iff_eq_none]
  constructor
  · rintro ⟨hcontent, hdeeper, hnoTag⟩
    refine ⟨hcontent, ?_, hnoTag⟩
    cases mode with
    | indented => exact .inr (hdeeper rfl)
    | untilBlank => exact .inl rfl
  · rintro ⟨hcontent, hdeeper, hnoTag⟩
    refine ⟨hcontent, ?_, hnoTag⟩
    rintro rfl
    exact hdeeper.resolve_left (by simp)

/-- No highlight goes on over a head, which opens with a tag. -/
theorem IsHead.not_continues {head other : Head} (h : IsHead matchers text line head) :
    ¬ Continues matchers text mode other line := by
  intro hcontinues
  obtain ⟨names, length, hnames, hlength, -⟩ := h.named
  have hnone := hcontinues.noTag h.opener
  simp [Matchers.tagAt?, hnames, hlength] at hnone

theorem Leads.unique {tag tag' : Span} (h : Leads matchers text line tag)
    (h' : Leads matchers text line tag') : tag = tag' := by
  obtain ⟨names, length, hnames, hlength, rfl⟩ := h.named
  obtain ⟨names', length', hnames', hlength', rfl⟩ := h'.named
  rw [hnames, Option.some.injEq] at hnames'
  subst hnames'
  rw [hlength, Option.some.injEq] at hlength'
  rw [hlength']

end CommentLine

namespace Matchers

open CommentLine

variable {matchers : Matchers} {text : Text} {mode : Continuation} {inlineMark : Option Mark}
  {lines : List CommentLine}

/-- Line `j` is under the head that line `i` is: the highlight goes on over every line after `i` up to `j`. -/
structure IsUnder (matchers : Matchers) (text : Text) (mode : Continuation) (lines : List CommentLine)
    (i j : Nat) (head : Head) : Prop where
  le : i ≤ j
  isHead : ∃ line, lines[i]? = some line ∧ IsHead matchers text line head
  continues : ∀ m line, i < m → m ≤ j → lines[m]? = some line → Continues matchers text mode head line

/-- What line `j`, which is `line`, shows: all its content under the tag of a head, or else from a line tag at
the start of its content on, or else from a tag after a mark further on, or else nothing. -/
inductive LineShows (matchers : Matchers) (text : Text) (mode : Continuation) (inlineMark : Option Mark)
    (lines : List CommentLine) (j : Nat) (line : CommentLine) : Option TaggedLine → Prop where
  | underHead {i : Nat} {head : Head} : IsUnder matchers text mode lines i j head →
      LineShows matchers text mode inlineMark lines j line
        (some ⟨head.tag, ⟨line.start, line.stop⟩, i == j⟩)
  | leadingTag {tag : Span} : (∀ i head, ¬ IsUnder matchers text mode lines i j head) →
      Leads matchers text line tag →
      LineShows matchers text mode inlineMark lines j line (some ⟨tag, ⟨line.start, line.stop⟩, false⟩)
  | inlineTag {mark : Mark} {tag : Span} : (∀ i head, ¬ IsUnder matchers text mode lines i j head) →
      (∀ tag, ¬ Leads matchers text line tag) → inlineMark = some mark →
      matchers.inlineTag? text mark line.start line.stop = some tag →
      LineShows matchers text mode inlineMark lines j line (some ⟨tag, ⟨tag.start, line.stop⟩, false⟩)
  | nothing : (∀ i head, ¬ IsUnder matchers text mode lines i j head) →
      (∀ tag, ¬ Leads matchers text line tag) →
      (∀ mark, inlineMark = some mark → matchers.inlineTag? text mark line.start line.stop = none) →
      LineShows matchers text mode inlineMark lines j line none

/-! ## Under a head -/

/-- A line is under a head iff it is one itself, or the highlight goes on over it from the line before. -/
theorem isUnder_iff {i j : Nat} {head : Head} {line : CommentLine} (hline : lines[j]? = some line) :
    IsUnder matchers text mode lines i j head ↔
      i = j ∧ IsHead matchers text line head ∨
        i < j ∧ IsUnder matchers text mode lines i (j - 1) head ∧
          Continues matchers text mode head line := by
  constructor
  · rintro ⟨hle, ⟨first, hfirst, hhead⟩, hcontinues⟩
    rcases Nat.eq_or_lt_of_le hle with rfl | hlt
    · left
      rw [hline, Option.some.injEq] at hfirst
      exact ⟨rfl, hfirst ▸ hhead⟩
    · right
      refine ⟨hlt, ⟨by omega, ⟨first, hfirst, hhead⟩, ?_⟩, hcontinues j line hlt (Nat.le_refl j) hline⟩
      intro m other him hmj
      exact hcontinues m other him (by omega)
  · rintro (⟨rfl, hhead⟩ | ⟨hlt, ⟨-, hfirst, hcontinues⟩, hlast⟩)
    · exact ⟨Nat.le_refl i, ⟨line, hline, hhead⟩, fun m other him hmi => by omega⟩
    · refine ⟨Nat.le_of_lt hlt, hfirst, fun m other him hmj hother => ?_⟩
      rcases Nat.eq_or_lt_of_le hmj with rfl | hlt'
      · rw [hline, Option.some.injEq] at hother
        exact hother ▸ hlast
      · exact hcontinues m other him (by omega) hother

/-- Of two heads that a line is under the second is not further on: the highlight of the first would have to go
on over it. -/
theorem IsUnder.not_lt {i i' j : Nat} {head head' : Head} (h : IsUnder matchers text mode lines i j head)
    (h' : IsUnder matchers text mode lines i' j head') : ¬ i < i' := by
  intro hlt
  obtain ⟨line, hline, hhead⟩ := h'.isHead
  exact hhead.not_continues (h.continues i' line hlt h'.le hline)

/-- A line is under one head at most. -/
theorem IsUnder.unique {i i' j : Nat} {head head' : Head} (h : IsUnder matchers text mode lines i j head)
    (h' : IsUnder matchers text mode lines i' j head') : i = i' ∧ head = head' := by
  obtain rfl : i = i' := Nat.le_antisymm (Nat.not_lt.1 (h'.not_lt h)) (Nat.not_lt.1 (h.not_lt h'))
  obtain ⟨line, hline, hhead⟩ := h.isHead
  obtain ⟨line', hline', hhead'⟩ := h'.isHead
  rw [hline, Option.some.injEq] at hline'
  subst hline'
  rw [isHead_iff] at hhead hhead'
  rw [hhead, Option.some.injEq] at hhead'
  exact ⟨rfl, hhead'⟩

/-! ## A tag of its own -/

/-- Where nothing is left to look at there is no tag further on. -/
theorem inlineTag?_of_le {mark : Mark} {start stop : Nat} (h : stop ≤ start) :
    matchers.inlineTag? text mark start stop = none := by
  refine inlineTag?_of_find?_eq_none (Text.find?_eq_none_iff.2 fun i hi hstop => ?_)
  have hpos : 0 < mark.chars.length := mark.length_pos
  omega

/-- The tag at the start of the content of a line, if there is one, is its line tag. -/
theorem lineTag?_of_leads {line : CommentLine} {tag : Span} (h : Leads matchers text line tag) :
    matchers.lineTag? text inlineMark line = some tag := by
  obtain ⟨hopener, hcontent, names, length, hnames, hlength, rfl⟩ := h
  simp [lineTag?, isBlank_eq_false_iff.2 hcontent, hopener, hnames, hlength]

/-- Without such a tag a line has the tag after a mark further on, if there is one. -/
theorem lineTag?_of_not_leads {line : CommentLine} (h : ∀ tag, ¬ Leads matchers text line tag) :
    matchers.lineTag? text inlineMark line =
      inlineMark.bind (matchers.inlineTag? text · line.start line.stop) := by
  by_cases hcontent : line.start < line.stop
  · have hleading : (if line.opener then do
        let length ← (← matchers.line).matchAt? text line.start line.stop
        return Span.mk line.start (line.start + length)
      else none) = none := by
      rw [Option.eq_none_iff_forall_ne_some]
      intro tag htag
      split at htag
      · next hopener =>
        simp only [Option.bind_eq_bind, Option.bind_eq_some_iff] at htag
        obtain ⟨names, hnames, length, hlength, htag⟩ := htag
        exact h tag ⟨hopener, hcontent, names, length, hnames, hlength, (Option.some.inj htag).symm⟩
      · cases htag
    rw [lineTag?, isBlank_eq_false_iff.2 hcontent, if_neg Bool.false_ne_true]
    dsimp only
    rw [hleading, Option.none_or]
  -- a blank line has no tag at all
  · have hblank : line.isBlank = true := by
      rw [← Bool.not_eq_false, isBlank_eq_false_iff]
      exact hcontent
    rw [lineTag?, if_pos hblank]
    cases inlineMark with
    | none => rfl
    | some mark => exact (inlineTag?_of_le (Nat.not_lt.1 hcontent)).symm

/-- A line under no head shows its line tag. -/
theorem lineShows_of_lineTag? {j : Nat} {line : CommentLine}
    (h : ∀ i head, ¬ IsUnder matchers text mode lines i j head) :
    LineShows matchers text mode inlineMark lines j line
      ((matchers.lineTag? text inlineMark line).map fun tag => ⟨tag, ⟨tag.start, line.stop⟩, false⟩) := by
  by_cases hleads : ∃ tag, Leads matchers text line tag
  · obtain ⟨tag, htag⟩ := hleads
    rw [lineTag?_of_leads htag, Option.map_some]
    have hshows : LineShows matchers text mode inlineMark lines j line
        (some ⟨tag, ⟨line.start, line.stop⟩, false⟩) := .leadingTag h htag
    obtain ⟨-, -, names, length, -, -, rfl⟩ := htag
    exact hshows
  · rw [not_exists] at hleads
    rw [lineTag?_of_not_leads hleads]
    cases hmark : inlineMark with
    | none => exact .nothing h hleads fun mark hmark => by cases hmark
    | some mark =>
      rw [Option.bind_some]
      cases htag : matchers.inlineTag? text mark line.start line.stop with
      | none => exact .nothing h hleads fun mark' hmark' => by rwa [← Option.some.inj hmark']
      | some tag => exact .inlineTag h hleads rfl htag

/-! ## All lines -/

/-- What a line shows is determined. -/
theorem LineShows.unique {j : Nat} {line : CommentLine} {t t' : Option TaggedLine}
    (h : LineShows matchers text mode inlineMark lines j line t)
    (h' : LineShows matchers text mode inlineMark lines j line t') : t = t' := by
  cases h with
  | underHead hunder =>
    cases h' with
    | underHead hunder' =>
      obtain ⟨rfl, rfl⟩ := hunder.unique hunder'
      rfl
    | leadingTag hno => exact absurd hunder (hno _ _)
    | inlineTag hno => exact absurd hunder (hno _ _)
    | nothing hno => exact absurd hunder (hno _ _)
  | leadingTag hno hleads =>
    cases h' with
    | underHead hunder => exact absurd hunder (hno _ _)
    | leadingTag _ hleads' => rw [hleads.unique hleads']
    | inlineTag _ hnot => exact absurd hleads (hnot _)
    | nothing _ hnot => exact absurd hleads (hnot _)
  | inlineTag hno hnot hmark htag =>
    cases h' with
    | underHead hunder => exact absurd hunder (hno _ _)
    | leadingTag _ hleads => exact absurd hleads (hnot _)
    | inlineTag _ _ hmark' htag' =>
      rw [hmark, Option.some.injEq] at hmark'
      subst hmark'
      rw [htag, Option.some.injEq] at htag'
      rw [htag']
    | nothing _ _ hnone =>
      rw [hnone _ hmark] at htag
      cases htag
  | nothing hno hnot hnone =>
    cases h' with
    | underHead hunder => exact absurd hunder (hno _ _)
    | leadingTag _ hleads => exact absurd hleads (hnot _)
    | inlineTag _ _ hmark htag =>
      rw [hnone _ hmark] at htag
      cases htag
    | nothing => rfl

/-- `head` is the head that the line before line `n` is under. -/
def CarriedTo (matchers : Matchers) (text : Text) (mode : Continuation) (lines : List CommentLine) (n : Nat)
    (head : Option Head) : Prop :=
  ∀ h, head = some h ↔ 0 < n ∧ ∃ i, IsUnder matchers text mode lines i (n - 1) h

theorem carriedTo_zero : CarriedTo matchers text mode lines 0 none := by
  intro h
  simp

/-- The head that a line is under is carried on to the next line. -/
theorem IsUnder.carriedTo {i n : Nat} {head : Head} (h : IsUnder matchers text mode lines i n head) :
    CarriedTo matchers text mode lines (n + 1) (some head) := by
  intro head'
  rw [Option.some.injEq, Nat.add_sub_cancel]
  constructor
  · rintro rfl
    exact ⟨Nat.succ_pos n, i, h⟩
  · rintro ⟨-, i', h'⟩
    exact (h.unique h').2

/-- From the head that is carried to them on, lines show what they show among all lines. -/
theorem lineShows_of_getElem?_taggedLines {rest : List CommentLine} {n : Nat} {head : Option Head}
    (hrest : lines.drop n = rest) (hhead : CarriedTo matchers text mode lines n head) {k : Nat}
    {line : CommentLine} {t : Option TaggedLine} (hline : rest[k]? = some line)
    (ht : (matchers.taggedLines text mode inlineMark head rest)[k]? = some t) :
    LineShows matchers text mode inlineMark lines (n + k) line t := by
  induction rest generalizing n head k with
  | nil => simp at hline
  | cons first rest ih =>
    have hfirst : lines[n]? = some first := by rw [← List.head?_drop, hrest, List.head?_cons]
    have htail : lines.drop (n + 1) = rest := by rw [← List.tail_drop, hrest, List.tail_cons]
    -- it is enough to say what the first line shows and which head is carried on from it
    have hstep {shown : Option TaggedLine} {next : Option Head}
        (hshows : LineShows matchers text mode inlineMark lines n first shown)
        (hnext : CarriedTo matchers text mode lines (n + 1) next)
        (ht : (shown :: matchers.taggedLines text mode inlineMark next rest)[k]? = some t) :
        LineShows matchers text mode inlineMark lines (n + k) line t := by
      cases k with
      | zero =>
        rw [List.getElem?_cons_zero, Option.some.injEq] at hline ht
        rwa [← hline, ← ht]
      | succ k =>
        rw [List.getElem?_cons_succ] at hline ht
        rw [← Nat.add_assoc, Nat.add_right_comm]
        exact ih htail hnext hline ht
    rw [taggedLines] at ht
    split at ht
    -- the highlight of the head that is carried here goes on
    · next h hgoes =>
      obtain ⟨hcarried, hgoes⟩ := Option.filter_eq_some_iff.1 hgoes
      obtain ⟨hpos, i, hunder⟩ := (hhead h).1 hcarried
      have hle := hunder.le
      have hunder' := (isUnder_iff hfirst).2 (.inr ⟨by omega, hunder, continues_iff.2 hgoes⟩)
      have hne : (i == n) = false := by simp; omega
      have hshows : LineShows matchers text mode inlineMark lines n first
          (some ⟨h.tag, ⟨first.start, first.stop⟩, i == n⟩) := .underHead hunder'
      rw [hne] at hshows
      exact hstep hshows hunder'.carriedTo ht
    · next hstops =>
      split at ht
      -- the line is a head
      · next h hfound =>
        have hunder : IsUnder matchers text mode lines n n h :=
          (isUnder_iff hfirst).2 (.inl ⟨rfl, isHead_iff.2 hfound⟩)
        have hshows : LineShows matchers text mode inlineMark lines n first
            (some ⟨h.tag, ⟨first.start, first.stop⟩, n == n⟩) := .underHead hunder
        rw [beq_self_eq_true] at hshows
        exact hstep hshows hunder.carriedTo ht
      -- the line is under no head, and none is carried on from it
      · next hnone =>
        have hno : ∀ i head, ¬ IsUnder matchers text mode lines i n head := by
          intro i h hunder
          rcases (isUnder_iff hfirst).1 hunder with ⟨-, hhead'⟩ | ⟨hlt, hunder, hcontinues⟩
          · rw [isHead_iff.1 hhead'] at hnone
            cases hnone
          · have hcarried := (hhead h).2 ⟨by omega, i, hunder⟩
            rw [hcarried, Option.filter_some, if_pos (continues_iff.1 hcontinues)] at hstops
            cases hstops
        refine hstep (lineShows_of_lineTag? hno) ?_ ht
        intro h
        simp [hno]

/-- One entry for each line. -/
theorem length_taggedLines (head : Option Head) (lines : List CommentLine) :
    (matchers.taggedLines text mode inlineMark head lines).length = lines.length :=
  (taggedLines_shows mode inlineMark head lines).length_eq.symm

/-- Each line shows what `LineShows` says, and nothing else. -/
theorem getElem?_taggedLines_eq_some_iff {j : Nat} {line : CommentLine} (hline : lines[j]? = some line)
    {t : Option TaggedLine} :
    (matchers.taggedLines text mode inlineMark none lines)[j]? = some t ↔
      LineShows matchers text mode inlineMark lines j line t := by
  have hshows {t : Option TaggedLine}
      (ht : (matchers.taggedLines text mode inlineMark none lines)[j]? = some t) :
      LineShows matchers text mode inlineMark lines j line t := by
    have := lineShows_of_getElem?_taggedLines List.drop_zero carriedTo_zero hline ht
    rwa [Nat.zero_add] at this
  refine ⟨hshows, fun h => ?_⟩
  have hlt : j < (matchers.taggedLines text mode inlineMark none lines).length := by
    rw [length_taggedLines]
    exact (List.getElem?_eq_some_iff.1 hline).1
  have hsome := List.getElem?_eq_getElem hlt
  rw [hsome, (hshows hsome).unique h]

/-- What all lines show is determined. -/
theorem eq_taggedLines {shown : List (Option TaggedLine)} (hlength : shown.length = lines.length)
    (hshown : ∀ j line, lines[j]? = some line →
      ∀ t, shown[j]? = some t ↔ LineShows matchers text mode inlineMark lines j line t) :
    shown = matchers.taggedLines text mode inlineMark none lines := by
  refine List.ext_getElem (hlength.trans (length_taggedLines none lines).symm) fun j hj hj' => ?_
  have hline := List.getElem?_eq_getElem (hlength ▸ hj)
  exact ((hshown j _ hline _).1 (List.getElem?_eq_getElem hj)).unique
    ((getElem?_taggedLines_eq_some_iff hline).1 (List.getElem?_eq_getElem hj'))

/-- While work is allowed, the lines are recorded one after the other, each as it shows by `LineShows`, where a
line is under one head at most; no claim is made. -/
theorem recordAll_eq_lineShows {σ : Type} [Checkpoint σ] (matchers : Matchers) (text : Text) (base : Nat)
    (mode : Continuation) (inlineMark : Option Mark) (lines : List CommentLine) {s : ScanState σ}
    (hallows : Checkpoint.Allows s.checkpoint) :
    ∃ t shown,
      ScanM.recordAll text base (matchers.taggedLines text mode inlineMark none lines) s = .ok () t ∧
      t.claims = s.claims ∧
      t.found = (highlightsOf text base shown).reverse ++ s.found ∧
      shown.length = lines.length ∧
      (∀ j line, lines[j]? = some line →
        (∀ t, shown[j]? = some t ↔ LineShows matchers text mode inlineMark lines j line t) ∧
        ∀ i i' head head', IsUnder matchers text mode lines i j head →
          IsUnder matchers text mode lines i' j head' → i = i') := by
  obtain ⟨t, hrecord, -⟩ :=
    ScanM.recordAll_of_allows text base (matchers.taggedLines text mode inlineMark none lines) hallows
  obtain ⟨hclaims, hfound⟩ := ScanM.recordAll_ok hrecord
  refine ⟨t, _, hrecord, hclaims, hfound, length_taggedLines none lines, fun j line hline => ⟨?_, ?_⟩⟩
  · exact fun t => getElem?_taggedLines_eq_some_iff hline
  · exact fun i i' head head' h h' => (h.unique h').1

/-- A head, a line under it, a line tag and a tag after a mark: work is allowed, and what is recorded is what the
four lines show. -/
theorem recordAll_eq_lineShows_each_kind :
    let text := Text.ofString "* a\n b\n! c\nd // ! e"
    let matchers : Matchers := ⟨some ⟨"^(?:\\*)", [['*']]⟩, some ⟨"^(?:!)", [['!']]⟩, .plainText⟩
    let mark : Mark := ⟨['/', '/'], by decide⟩
    let lines : List CommentLine := [⟨0, 3, 0, true⟩, ⟨5, 6, 1, true⟩, ⟨7, 10, 0, true⟩, ⟨11, 19, 0, false⟩]
    let s : ScanState Unlimited := ⟨.empty, [], {}⟩
    let shown := [some ⟨⟨0, 1⟩, ⟨0, 3⟩, true⟩, some ⟨⟨0, 1⟩, ⟨5, 6⟩, false⟩, some ⟨⟨7, 8⟩, ⟨7, 10⟩, false⟩,
      some ⟨⟨16, 17⟩, ⟨16, 19⟩, false⟩]
    Checkpoint.Allows s.checkpoint ∧
      (∃ t, ScanM.recordAll text 0 (matchers.taggedLines text .indented (some mark) none lines) s = .ok () t ∧
        t.found = (highlightsOf text 0 shown).reverse) ∧
      ∀ j line t, lines[j]? = some line → shown[j]? = some t →
        LineShows matchers text .indented (some mark) lines j line t := by
  intro text matchers mark lines s shown
  have hallows : Checkpoint.Allows s.checkpoint := Checkpoint.allows_of_forall (fun _ => rfl) _
  have heval : matchers.taggedLines text .indented (some mark) none lines = shown := by
    dsimp only [text, matchers, mark, lines, shown]
    decide +kernel
  obtain ⟨t, shown', hrecord, -, hfound, hlength, hshows⟩ :=
    recordAll_eq_lineShows matchers text 0 .indented (some mark) lines hallows
  have hsame : shown' = shown :=
    (eq_taggedLines hlength fun j line hline => (hshows j line hline).1).trans heval
  subst hsame
  rw [List.append_nil] at hfound
  exact ⟨hallows, ⟨t, hrecord, hfound⟩, fun j line t hline => ((hshows j line hline).1 t).1⟩

end Matchers

end CommentTags
