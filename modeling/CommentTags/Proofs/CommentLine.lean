import CommentTags.Proofs.Claims
import CommentTags.Proofs.Text
import CommentTags.Scan.Pass
import Mathlib.Data.List.Forall2

/-!
# What the lines of a comment show

A comment is read as a list of lines. This module follows a line from the part of the text it is read
from to the highlight that is recorded for it.

The module introduces:

* `CommentLine.Within`: the content of a line lies in a part of the text, within one line, and does not
  end with white space;
* `CommentLine.ApartFrom`: no claim takes text out of a line;
* `Matchers.IsTag`: the name of a tag stands in the text;
* `Matchers.Shows`: the three reasons for which a line shows something;
* `highlightsOf`: what is recorded of the lines that show something, in order.

A line shows text that starts in its content and goes on to its end (`taggedLines_shown`). So lines that
come one after the other have highlights that come one after the other (`highlightsOf_pairwise`). A line
that opens a tag shows all its content, whatever comes before it (`exists_shown_of_tagAt?`). The tag that a
line is shown for is its own or that of a head (`origin_of_mem_taggedLines`).
-/

namespace CommentTags

namespace CommentLine

variable {text : Text}

/-- The content of the line lies between `lo` and `hi`, within one line, and does not end with white
space. -/
structure Within (text : Text) (lo hi : Nat) (line : CommentLine) : Prop where
  lo_le : lo ≤ line.start
  start_le : line.start ≤ line.stop
  le_hi : line.stop ≤ hi
  oneLine : text.FreeOfNewlines line.start line.stop
  trimmed : line.start < line.stop →
    ∃ c, text[line.stop - 1]? = some c ∧ Unicode.isWhiteSpace c = false

theorem Within.mono {lo hi lo' hi' : Nat} {line : CommentLine} (h : line.Within text lo hi)
    (hlo : lo' ≤ lo) (hhi : hi ≤ hi') : line.Within text lo' hi' where
  lo_le := Nat.le_trans hlo h.lo_le
  start_le := h.start_le
  le_hi := Nat.le_trans h.le_hi hhi
  oneLine := h.oneLine
  trimmed := h.trimmed

/-- No claim takes text out of the line, which is read from a text that starts at `base`. -/
def ApartFrom (claims : ClaimSet) (base : Nat) (line : CommentLine) : Prop :=
  ∀ c ∈ claims.toList, c.Disjoint ⟨base + line.start, base + line.stop⟩

/-- The content of a line is part of the segment that the line is read from. -/
theorem within_ofSegment {mayOpen : Nat → Bool} {start stop : Nat} (h : start ≤ stop)
    (hstop : stop ≤ text.size) (hfree : text.FreeOfNewlines start stop) :
    (ofSegment text mayOpen start stop).Within text start stop := by
  have hlo : start ≤ text.skipBlanks start stop := Text.le_skipBlanks h
  have hhi : text.skipBlanks start stop ≤ stop := Text.skipBlanks_le h
  have hend : text.skipBlanks start stop ≤ text.trimEnd (text.skipBlanks start stop) stop ∧
      text.trimEnd (text.skipBlanks start stop) stop ≤ stop := Text.dropEndWhile_bounds hhi
  exact {
    lo_le := hlo
    start_le := hend.1
    le_hi := hend.2
    oneLine := hfree.mono hlo hend.2
    trimmed := Text.not_isWhiteSpace_of_lt_trimEnd hstop }

/-- Lines that are read from segments lie where the segments do, one after the other. -/
theorem within_of_segments {start stop : Nat} {segs : List (Nat × Nat)} {lines : List CommentLine}
    (hlines : List.Forall₂ (fun seg line => line.Within text seg.1 seg.2) segs lines)
    (hin : ∀ seg ∈ segs, start ≤ seg.1 ∧ seg.2 ≤ stop) (hsorted : segs.Pairwise fun a b => a.2 < b.1) :
    (∀ line ∈ lines, line.Within text start stop) ∧ lines.Pairwise fun a b => a.stop ≤ b.start := by
  induction hlines generalizing start with
  | nil => exact ⟨fun line hline => absurd hline (by simp), List.Pairwise.nil⟩
  | @cons seg line segs lines hline _ ih =>
    rw [List.pairwise_cons] at hsorted
    rw [List.forall_mem_cons] at hin
    -- the lines that follow lie beyond this segment
    obtain ⟨hbeyond, hpairwise⟩ := @ih (seg.2 + 1)
      (fun seg' hseg' => ⟨hsorted.1 seg' hseg', (hin.2 seg' hseg').2⟩) hsorted.2
    constructor
    · rw [List.forall_mem_cons]
      refine ⟨hline.mono hin.1.1 hin.1.2, ?_⟩
      intro line' hline'
      have hstart : start ≤ seg.2 + 1 := by
        have := hin.1.1
        have := hline.lo_le
        have := hline.start_le
        have := hline.le_hi
        omega
      exact (hbeyond line' hline').mono hstart (Nat.le_refl _)
    · refine List.Pairwise.cons ?_ hpairwise
      intro line' hline'
      have hstop := hline.le_hi
      have hstart := (hbeyond line' hline').lo_le
      omega

/-- A line has content iff it is not blank. -/
theorem isBlank_eq_false_iff {line : CommentLine} : line.isBlank = false ↔ line.start < line.stop := by
  rw [isBlank, decide_eq_false_iff_not, Nat.not_le]

end CommentLine

/-- What is shown of a line with content starts in the content and goes on to its end. -/
def ShownIn (line : CommentLine) (t : TaggedLine) : Prop :=
  line.start < line.stop ∧ line.start ≤ t.shown.start ∧ t.shown.stop = line.stop

/-- Whatever is shown of each of several lines stands in the relation `R` to the line. -/
abbrev EachShown (R : CommentLine → TaggedLine → Prop) :
    List CommentLine → List (Option TaggedLine) → Prop :=
  List.Forall₂ fun line shown => ∀ t ∈ shown, R line t

/-- What is made of the name at a position, if there are names to look for. -/
theorem TagAlternation.bind_matchAt?_eq {α : Type} (names : Option TagAlternation) (text : Text)
    (start stop : Nat) (f : Nat → α) :
    (do let length ← (← names).matchAt? text start stop; return f length) =
      (names.bind (·.matchAt? text start stop)).map f := by
  cases names with
  | none => rfl
  | some names =>
    simp only [Option.bind_eq_bind, Option.bind_some]
    cases names.matchAt? text start stop <;> rfl

namespace Matchers

variable {matchers : Matchers} {text : Text}

/-- Without a further mark there is no tag further on in a line. -/
theorem inlineTag?_of_find?_eq_none {mark : Mark} {start stop : Nat}
    (h : text.find? mark.chars start stop = none) : matchers.inlineTag? text mark start stop = none := by
  rw [inlineTag?]
  split
  · rfl
  · next i hi =>
    rw [h] at hi
    cases hi

/-- A tag stands after the first mark further on in a line, or after a later one. -/
theorem inlineTag?_of_find? {mark : Mark} {start stop k : Nat}
    (h : text.find? mark.chars start stop = some k) :
    matchers.inlineTag? text mark start stop =
      match if text.followsBlank k && k + mark.length < stop && text.blankAt (k + mark.length) then
          matchers.tagAt? text (k + mark.length + 1) stop
        else none with
      | some length => some ⟨k + mark.length + 1, k + mark.length + 1 + length⟩
      | none => matchers.inlineTag? text mark (k + mark.length) stop := by
  rw [inlineTag?]
  split
  · next hi =>
    rw [h] at hi
    cases hi
  · next i hi =>
    rw [h, Option.some.injEq] at hi
    subst hi
    rfl

/-- A tag that is found further on in a line stands after a mark between two blanks. -/
theorem inlineTag?_eq_some {mark : Mark} {start stop : Nat} {tag : Span}
    (h : matchers.inlineTag? text mark start stop = some tag) :
    ∃ i length, start ≤ i ∧ text.occursAt mark.chars i = true ∧ text.followsBlank i = true ∧
      i + mark.length < stop ∧ text.blankAt (i + mark.length) = true ∧
      matchers.tagAt? text (i + mark.length + 1) stop = some length ∧
      tag = ⟨i + mark.length + 1, i + mark.length + 1 + length⟩ := by
  fun_induction inlineTag? matchers text mark start stop with
  | case1 start hnone => cases h
  | case2 start i hi next length hlength =>
    obtain ⟨⟨hle, -, hocc⟩, -⟩ := Text.find?_eq_some_iff.1 hi
    split at hlength
    · next hcond =>
      simp only [Bool.and_eq_true, decide_eq_true_eq] at hcond
      cases h
      exact ⟨i, length, hle, hocc, hcond.1.1, hcond.1.2, hcond.2, hlength, rfl⟩
    · cases hlength
  -- no tag stands after this mark, and the search goes on after it
  | case3 start i hi next hnone ih =>
    obtain ⟨⟨hle, -, -⟩, -⟩ := Text.find?_eq_some_iff.1 hi
    obtain ⟨j, length, hj, hrest⟩ := ih h
    exact ⟨j, length, by omega, hrest⟩

/-- A line tag stands at the start of the content, if the line may open one, or after a mark inside it. -/
theorem lineTag?_eq_some {inlineMark : Option Mark} {line : CommentLine} {tag : Span}
    (h : matchers.lineTag? text inlineMark line = some tag) :
    line.start < line.stop ∧ (line.opener = true ∧ tag.start = line.start ∨
      ∃ mark, inlineMark = some mark ∧
        matchers.inlineTag? text mark line.start line.stop = some tag) := by
  rw [lineTag?] at h
  split at h
  · cases h
  · next hblank =>
    rw [Bool.not_eq_true, CommentLine.isBlank_eq_false_iff] at hblank
    refine ⟨hblank, ?_⟩
    rw [Option.or_eq_some_iff] at h
    rcases h with h | ⟨-, h⟩
    -- at the start of the content
    · left
      split at h
      · next hopener =>
        simp only [Option.bind_eq_bind, Option.bind_eq_some_iff] at h
        obtain ⟨names, -, length, -, h⟩ := h
        cases h
        exact ⟨hopener, rfl⟩
      · cases h
    -- after a mark inside the line
    · right
      obtain ⟨mark, hmark, h⟩ := Option.bind_eq_some_iff.1 h
      exact ⟨mark, hmark, h⟩

/-- A head is a line with content. -/
theorem head?_eq_some {line : CommentLine} {head : Head} (h : matchers.head? text line = some head) :
    line.opener = true ∧ line.start < line.stop ∧ head.indent = line.indent ∧
      head.tag.start = line.start := by
  rw [head?] at h
  split at h
  · next hcond =>
    rw [Bool.and_eq_true, Bool.not_eq_true', CommentLine.isBlank_eq_false_iff] at hcond
    simp only [Option.bind_eq_bind, Option.bind_eq_some_iff] at h
    obtain ⟨names, -, length, -, h⟩ := h
    cases h
    exact ⟨hcond.1, hcond.2, rfl, rfl⟩
  · cases h

/-- A name of either tier stands in the text where the tag is, and ends by `stop`. -/
structure IsTag (matchers : Matchers) (text : Text) (stop : Nat) (tag : Span) : Prop where
  start_le : tag.start ≤ stop
  named : ∃ names length, (matchers.multiline = some names ∨ matchers.line = some names) ∧
    names.matchAt? text tag.start stop = some length ∧ tag.stop = tag.start + length

theorem isTag_of_tagAt? {start stop length : Nat} (h : matchers.tagAt? text start stop = some length)
    (hle : start ≤ stop) : matchers.IsTag text stop ⟨start, start + length⟩ := by
  refine ⟨hle, ?_⟩
  rw [tagAt?, Option.or_eq_some_iff] at h
  rcases h with h | ⟨-, h⟩
  · obtain ⟨names, hnames, h⟩ := Option.bind_eq_some_iff.1 h
    exact ⟨names, length, .inl hnames, h, rfl⟩
  · obtain ⟨names, hnames, h⟩ := Option.bind_eq_some_iff.1 h
    exact ⟨names, length, .inr hnames, h, rfl⟩

/-- A head has a tag. -/
theorem isTag_of_head? {line : CommentLine} {head : Head} (h : matchers.head? text line = some head) :
    matchers.IsTag text line.stop head.tag := by
  have hlt := (head?_eq_some h).2.1
  rw [head?] at h
  split at h
  · simp only [Option.bind_eq_bind, Option.bind_eq_some_iff] at h
    obtain ⟨names, hnames, length, hlength, h⟩ := h
    cases h
    exact ⟨Nat.le_of_lt hlt, names, length, .inl hnames, hlength, rfl⟩
  · cases h

/-- A line tag is a tag. -/
theorem isTag_of_lineTag? {inlineMark : Option Mark} {line : CommentLine} {tag : Span}
    (h : matchers.lineTag? text inlineMark line = some tag) : matchers.IsTag text line.stop tag := by
  have hlt := (lineTag?_eq_some h).1
  rw [lineTag?, if_neg (Bool.eq_false_iff.1 (CommentLine.isBlank_eq_false_iff.2 hlt)),
    Option.or_eq_some_iff] at h
  rcases h with h | ⟨-, h⟩
  -- at the start of the content
  · split at h
    · simp only [Option.bind_eq_bind, Option.bind_eq_some_iff] at h
      obtain ⟨names, hnames, length, hlength, h⟩ := h
      cases h
      exact ⟨Nat.le_of_lt hlt, names, length, .inr hnames, hlength, rfl⟩
    · cases h
  -- after a mark inside the line
  · obtain ⟨mark, -, h⟩ := Option.bind_eq_some_iff.1 h
    obtain ⟨i, length, -, -, -, hmark, -, hlength, rfl⟩ := inlineTag?_eq_some h
    exact isTag_of_tagAt? hlength hmark

/-- A line that opens a tag, but is no head, has a line tag at its start. -/
theorem lineTag?_of_head?_eq_none {inlineMark : Option Mark} {line : CommentLine}
    (h : matchers.head? text line = none) (hopener : line.opener = true) (hlt : line.start < line.stop)
    (htag : (matchers.tagAt? text line.start line.stop).isSome = true) :
    ∃ tag, matchers.lineTag? text inlineMark line = some tag ∧ tag.start = line.start := by
  have hblank := CommentLine.isBlank_eq_false_iff.2 hlt
  rw [head?, hopener, hblank] at h
  simp only [Bool.not_false, Bool.and_self, if_true, Option.bind_eq_bind] at h
  -- a multi-line tag would make the line a head
  have hmultiline : matchers.multiline.bind (·.matchAt? text line.start line.stop) = none := by
    rw [Option.bind_eq_none_iff] at h ⊢
    intro names hnames
    have hnone := h names hnames
    rw [Option.bind_eq_none_iff] at hnone
    exact Option.eq_none_iff_forall_ne_some.2 fun length hlength => by cases hnone length hlength
  rw [tagAt?, hmultiline, Option.none_or] at htag
  obtain ⟨length, hlength⟩ := Option.isSome_iff_exists.1 htag
  obtain ⟨names, hnames, hlength⟩ := Option.bind_eq_some_iff.1 hlength
  refine ⟨⟨line.start, line.start + length⟩, ?_, rfl⟩
  rw [lineTag?, hblank, hopener, hnames]
  simp [hlength]

/-- A line that a highlight goes on over has content and does not open a tag; unless the highlight goes on
up to a blank line, it is indented deeper than the head. -/
theorem goesOn_iff {mode : Continuation} {head : Head} {line : CommentLine} :
    matchers.goesOn text mode head line = true ↔
      line.start < line.stop ∧ (mode = .untilBlank ∨ head.indent < line.indent) ∧
        ¬ (line.opener = true ∧ (matchers.tagAt? text line.start line.stop).isSome = true) := by
  rw [goesOn, Bool.and_eq_true, Bool.and_eq_true, Bool.not_eq_true', CommentLine.isBlank_eq_false_iff,
    Bool.or_eq_true, beq_iff_eq, decide_eq_true_eq, Bool.not_eq_true', ← Bool.not_eq_true,
    Bool.and_eq_true, and_assoc]

/-- Why a line shows something: the highlight of a head goes on over it, it is a head itself, or it has a
tag of its own. -/
inductive Shows (matchers : Matchers) (text : Text) (mode : Continuation) (inlineMark : Option Mark)
    (line : CommentLine) : TaggedLine → Prop where
  | continued {head : Head} : matchers.goesOn text mode head line = true →
      Shows matchers text mode inlineMark line ⟨head.tag, ⟨line.start, line.stop⟩, false⟩
  | head {head : Head} : matchers.head? text line = some head →
      Shows matchers text mode inlineMark line ⟨head.tag, ⟨line.start, line.stop⟩, true⟩
  | ownTag {tag : Span} : matchers.lineTag? text inlineMark line = some tag →
      Shows matchers text mode inlineMark line ⟨tag, ⟨tag.start, line.stop⟩, false⟩

/-- Each line that shows something has one of the three reasons. -/
theorem taggedLines_shows (mode : Continuation) (inlineMark : Option Mark) (head : Option Head)
    (lines : List CommentLine) :
    EachShown (matchers.Shows text mode inlineMark) lines
      (matchers.taggedLines text mode inlineMark head lines) := by
  induction lines generalizing head with
  | nil => exact List.Forall₂.nil
  | cons line rest ih =>
    rw [taggedLines]
    split
    -- the highlight of the last head goes on
    · next h hgoes =>
      obtain ⟨-, hgoes⟩ := Option.filter_eq_some_iff.1 hgoes
      refine List.Forall₂.cons (fun t ht => ?_) (ih _)
      cases ht
      exact .continued hgoes
    · split
      · next h hhead =>
        refine List.Forall₂.cons (fun t ht => ?_) (ih _)
        cases ht
        exact .head hhead
      -- the line is no head, but may have a tag of its own
      · refine List.Forall₂.cons (fun t ht => ?_) (ih _)
        obtain ⟨tag, htag, rfl⟩ := Option.map_eq_some_iff.1 ht
        exact .ownTag htag

/-- What a line shows starts in its content and goes on to its end. -/
theorem Shows.shownIn {mode : Continuation} {inlineMark : Option Mark} {line : CommentLine}
    {t : TaggedLine} (h : matchers.Shows text mode inlineMark line t) : ShownIn line t := by
  cases h with
  | continued hgoes => exact ⟨(goesOn_iff.1 hgoes).1, Nat.le_refl _, rfl⟩
  | head hhead => exact ⟨(head?_eq_some hhead).2.1, Nat.le_refl _, rfl⟩
  | ownTag htag =>
    obtain ⟨hlt, ⟨-, hstart⟩ | ⟨mark, -, hinline⟩⟩ := lineTag?_eq_some htag
    · exact ⟨hlt, Nat.le_of_eq hstart.symm, rfl⟩
    · obtain ⟨i, length, hi, -, -, -, -, -, rfl⟩ := inlineTag?_eq_some hinline
      refine ⟨hlt, ?_, rfl⟩
      show line.start ≤ i + mark.length + 1
      omega

theorem taggedLines_shown (mode : Continuation) (inlineMark : Option Mark) (head : Option Head)
    (lines : List CommentLine) :
    EachShown ShownIn lines (matchers.taggedLines text mode inlineMark head lines) :=
  (taggedLines_shows mode inlineMark head lines).imp fun _ _ h t ht => (h t ht).shownIn

/-- A line is shown whole for the tag of a head, which is the one above all lines or one of them, or from a
tag of its own on. -/
theorem origin_of_mem_taggedLines {mode : Continuation} {inlineMark : Option Mark} {head : Option Head}
    {lines : List CommentLine} {t : TaggedLine}
    (ht : some t ∈ matchers.taggedLines text mode inlineMark head lines) :
    ∃ line ∈ lines,
      (∃ h, (h ∈ head ∨ ∃ other ∈ lines, matchers.head? text other = some h) ∧
        t.tag = h.tag ∧ t.shown = ⟨line.start, line.stop⟩) ∨
      (matchers.lineTag? text inlineMark line = some t.tag ∧ t.shown = ⟨t.tag.start, line.stop⟩) := by
  induction lines generalizing head with
  | nil => cases ht
  | cons first rest ih =>
    -- a line further on has a head that was there before, or that the first line is
    have hfurther {head' : Option Head} (ht : some t ∈ matchers.taggedLines text mode inlineMark head' rest)
        (hhead : ∀ h ∈ head', h ∈ head ∨ matchers.head? text first = some h) :
        ∃ line ∈ first :: rest,
          (∃ h, (h ∈ head ∨ ∃ other ∈ first :: rest, matchers.head? text other = some h) ∧
            t.tag = h.tag ∧ t.shown = ⟨line.start, line.stop⟩) ∨
          (matchers.lineTag? text inlineMark line = some t.tag ∧ t.shown = ⟨t.tag.start, line.stop⟩) := by
      obtain ⟨line, hline, ⟨h, horigin, htag⟩ | hown⟩ := ih ht
      · refine ⟨line, List.mem_cons_of_mem _ hline, .inl ⟨h, ?_, htag⟩⟩
        rcases horigin with hmem | ⟨other, hother, hfound⟩
        · exact (hhead h hmem).imp id fun hfound => ⟨first, List.mem_cons_self, hfound⟩
        · exact .inr ⟨other, List.mem_cons_of_mem _ hother, hfound⟩
      · exact ⟨line, List.mem_cons_of_mem _ hline, .inr hown⟩
    rw [taggedLines] at ht
    split at ht
    · next h hgoes =>
      have hmem := (Option.filter_eq_some_iff.1 hgoes).1
      rcases List.mem_cons.1 ht with heq | ht
      · cases heq
        exact ⟨first, List.mem_cons_self, .inl ⟨h, .inl hmem, rfl, rfl⟩⟩
      · exact hfurther ht fun h' hh' => .inl (Option.mem_some.1 hh' ▸ hmem)
    · split at ht
      · next h hfound =>
        rcases List.mem_cons.1 ht with heq | ht
        · cases heq
          exact ⟨first, List.mem_cons_self, .inl ⟨h, .inr ⟨first, List.mem_cons_self, hfound⟩, rfl, rfl⟩⟩
        · exact hfurther ht fun h' hh' => .inr (Option.mem_some.1 hh' ▸ hfound)
      · rcases List.mem_cons.1 ht with heq | ht
        · obtain ⟨tag, htag, rfl⟩ := Option.map_eq_some_iff.1 heq.symm
          exact ⟨first, List.mem_cons_self, .inr ⟨htag, rfl⟩⟩
        · exact hfurther ht fun h' hh' => absurd hh' (Option.not_mem_none h')

/-- A line that opens a tag is shown whole, whatever stands on the lines before it. -/
theorem exists_shown_of_tagAt? (mode : Continuation) (inlineMark : Option Mark) (head : Option Head)
    {lines : List CommentLine} {line : CommentLine} (hline : line ∈ lines) (hopener : line.opener = true)
    (hlt : line.start < line.stop) (htag : (matchers.tagAt? text line.start line.stop).isSome = true) :
    ∃ t, some t ∈ matchers.taggedLines text mode inlineMark head lines ∧
      t.shown = ⟨line.start, line.stop⟩ := by
  induction lines generalizing head with
  | nil => cases hline
  | cons first rest ih =>
    by_cases heq : first = line
    · subst heq
      -- no highlight goes on over a line that opens a tag
      have hnot : head.filter (matchers.goesOn text mode · first) = none := by
        rw [Option.filter_eq_none_iff]
        intro h _ hgoes
        exact (goesOn_iff.1 hgoes).2.2 ⟨hopener, htag⟩
      rw [taggedLines, hnot]
      cases hhead : matchers.head? text first with
      | some h => exact ⟨_, List.mem_cons_self, rfl⟩
      -- the tag is a line tag
      | none =>
        obtain ⟨tag, htag, hstart⟩ := lineTag?_of_head?_eq_none hhead hopener hlt htag
        refine ⟨⟨tag, ⟨tag.start, first.stop⟩, false⟩, ?_, by rw [hstart]⟩
        rw [htag]
        exact List.mem_cons_self
    -- whatever the first line shows, it is only the head that changes
    · have hrest : line ∈ rest := (List.mem_cons.1 hline).resolve_left (Ne.symm heq)
      rw [taggedLines]
      split
      · obtain ⟨t, ht, hshown⟩ := ih _ hrest
        exact ⟨t, List.mem_cons_of_mem _ ht, hshown⟩
      · split
        · obtain ⟨t, ht, hshown⟩ := ih _ hrest
          exact ⟨t, List.mem_cons_of_mem _ ht, hshown⟩
        · obtain ⟨t, ht, hshown⟩ := ih _ hrest
          exact ⟨t, List.mem_cons_of_mem _ ht, hshown⟩

end Matchers

/-- The highlight of what a line shows, at the place of the text in its document. -/
def TaggedLine.highlight (text : Text) (base : Nat) (line : TaggedLine) : Highlight :=
  ⟨text.slice line.tag.start line.tag.stop, line.shown.shift base⟩

/-- The highlights of the lines that show something. -/
def highlightsOf (text : Text) (base : Nat) (shown : List (Option TaggedLine)) : List Highlight :=
  shown.filterMap (·.map (TaggedLine.highlight text base))

section Highlights

variable {text : Text} {base : Nat}

@[simp]
theorem highlightsOf_cons_some {line : TaggedLine} {rest : List (Option TaggedLine)} :
    highlightsOf text base (some line :: rest) =
      line.highlight text base :: highlightsOf text base rest := rfl

theorem mem_highlightsOf_of_mem {shown : List (Option TaggedLine)} {t : TaggedLine}
    (h : some t ∈ shown) : t.highlight text base ∈ highlightsOf text base shown :=
  List.mem_filterMap.2 ⟨some t, h, rfl⟩

/-- Every highlight is what some line shows. -/
theorem exists_of_mem_highlightsOf {R : CommentLine → TaggedLine → Prop} {lines : List CommentLine}
    {shown : List (Option TaggedLine)} (hshown : EachShown R lines shown) {h : Highlight}
    (hh : h ∈ highlightsOf text base shown) :
    ∃ line ∈ lines, ∃ t, R line t ∧ h = t.highlight text base := by
  induction hshown with
  | nil => cases hh
  | @cons line t lines shown hline _ ih =>
    cases t with
    | none =>
      obtain ⟨line', hmem, hrest⟩ := ih hh
      exact ⟨line', List.mem_cons_of_mem _ hmem, hrest⟩
    | some t =>
      rw [highlightsOf_cons_some] at hh
      rcases List.mem_cons.1 hh with rfl | hh
      · exact ⟨line, List.mem_cons_self, t, hline t rfl, rfl⟩
      · obtain ⟨line', hmem, hrest⟩ := ih hh
        exact ⟨line', List.mem_cons_of_mem _ hmem, hrest⟩

/-- Every highlight comes from a line with content, in which it starts and whose end it reaches. -/
theorem mem_highlightsOf {lines : List CommentLine} {shown : List (Option TaggedLine)}
    (hshown : EachShown ShownIn lines shown) {h : Highlight} (hh : h ∈ highlightsOf text base shown) :
    ∃ line ∈ lines, line.start < line.stop ∧ base + line.start ≤ h.span.start ∧
      h.span.stop = base + line.stop := by
  obtain ⟨line, hline, t, ⟨hlt, hstart, hstop⟩, rfl⟩ := exists_of_mem_highlightsOf hshown hh
  refine ⟨line, hline, hlt, ?_, ?_⟩
  · show base + line.start ≤ t.shown.start + base
    omega
  · show t.shown.stop + base = base + line.stop
    omega

/-- Lines that come one after the other have highlights that come one after the other. -/
theorem highlightsOf_pairwise {lines : List CommentLine} {shown : List (Option TaggedLine)}
    (hshown : EachShown ShownIn lines shown)
    (hlines : lines.Pairwise fun a b => a.stop ≤ b.start) :
    (highlightsOf text base shown).Pairwise fun a b => a.span.stop ≤ b.span.start := by
  induction hshown with
  | nil => exact List.Pairwise.nil
  | @cons line t lines shown hline hrest ih =>
    rw [List.pairwise_cons] at hlines
    cases t with
    | none => exact ih hlines.2
    | some t =>
      rw [highlightsOf_cons_some]
      refine List.Pairwise.cons ?_ (ih hlines.2)
      intro h hh
      -- a later highlight starts in a later line
      obtain ⟨line', hmem, -, hstart, -⟩ := mem_highlightsOf hrest hh
      have hle := hlines.1 line' hmem
      have hstop : (t.highlight text base).span.stop = t.shown.stop + base := rfl
      rw [hstop, (hline t rfl).2.2]
      omega

end Highlights

end CommentTags
