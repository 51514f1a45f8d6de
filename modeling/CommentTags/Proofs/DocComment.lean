import CommentTags.Proofs.Checked.Lines
import CommentTags.Proofs.Rescan

/-!
# A doc comment of one line, read as a doc comment and as a block comment

Where doc comments are not looked for, a text such as `/** TODO */` is a block comment. It is claimed as a
whole either way. What is shown may differ: the repetitions of the asterisk before the closing mark belong to
the mark of a block comment, and to the text of a doc comment.

## Main definitions

* `ClaimSet.TakesIn`: a claim takes in the whole text;
* `IsDocLine`: a text is a doc comment of one line;
* `Text.starsFrom`: where its closing mark starts when the asterisk is repeated;
* `Matchers.shownUpTo`: what is shown of it when it is read up to some place.

## Main results

* `Matchers.scan_of_isComment`: what a scan of a text that is a single comment answers;
* `Matchers.scan_docComments`: with doc comments and without, the claims are the same, and the ranges are
  exactly if the closing mark is not repeated or no tag opens the comment.
-/

namespace CommentTags

variable {text : Text} {base : Nat} {claims : ClaimSet}

/-! ## A text that is a single comment -/

/-- A claim takes in the whole text. -/
def ClaimSet.TakesIn (claims : ClaimSet) (text : Text) (base : Nat) : Prop :=
  ∃ c ∈ claims.toList, c.start ≤ base ∧ base + text.size ≤ c.stop

/-- No comment is left where the whole text is claimed. -/
theorem Enclosure.allClaimed_of_takesIn {kind : Enclosure} (h : claims.TakesIn text base) :
    kind.AllClaimed text base claims := by
  intro start stop hcomment
  obtain ⟨c, hc, hstart, hstop⟩ := h
  have hbounds := hcomment.bounds
  refine ⟨c, hc, Span.overlaps_iff.2 ⟨?_, ?_⟩⟩
  · omega
  · omega

/-- No run is left where the whole text is claimed. -/
theorem LineRun.allTaken_of_takesIn {marks : List Mark} (h : claims.TakesIn text base) :
    AllTaken marks text base claims := by
  intro i mark hopener
  obtain ⟨c, hc, hstart, hstop⟩ := h
  have hfits := mark.add_length_le_of_occursAt (occursAt_of_markAt? (isOpener_iff.1 hopener).2)
  have hpos := mark.length_pos
  refine .inl (ClaimSet.contains_iff.2 ⟨c, hc, Span.contains_iff.2 ⟨?_, ?_⟩⟩)
  · omega
  · omega

/-- Where the whole text is claimed there is nothing left for any pass. -/
theorem idle_of_takesIn {enclosures : List Enclosure} {lineMarks : List Mark} (h : claims.TakesIn text base)
    {pass : Pass text} (hpass : pass ∈ codePasses enclosures lineMarks text base) : pass.Idle claims := by
  rw [codePasses, List.mem_append, List.mem_map, List.mem_singleton] at hpass
  rcases hpass with ⟨kind, -, rfl⟩ | rfl
  · exact (Enclosure.allClaimed_of_takesIn h).idle
  · exact (LineRun.allTaken_of_takesIn h).idle

/-- When the first comment that is found leaves nothing for the passes, all others are skipped. -/
theorem exists_visitsOf_eq_cons {pass : Pass text} {passes : List (Pass text)} {found : Found}
    (hnext : pass.next claims 0 = some found)
    (hidle : ∀ other ∈ pass :: passes, other.Idle (claims.claim found.claim)) :
    ∃ skipped, visitsOf (pass :: passes) claims = found :: skipped ∧
      ∀ other ∈ skipped, other.IsSkipped := by
  rw [List.forall_mem_cons] at hidle
  -- what the first pass finds afterwards it skips, and so the other passes start from the one claim
  have hfirst : ∀ other ∈ pass.visits (claims.claim found.claim) found.resume, other.IsSkipped :=
    fun other => hidle.1.isSkipped_of_mem_visits
  have hclaims : claims.claimAll ((pass.visits claims 0).map Found.claim) = claims.claim found.claim := by
    rw [Pass.visits_of_some hnext, List.map_cons, ClaimSet.claimAll_cons]
    exact Found.claimAll_of_isSkipped hfirst
  refine ⟨pass.visits (claims.claim found.claim) found.resume ++ visitsOf passes (claims.claim found.claim),
    ?_, ?_⟩
  · rw [visitsOf, hclaims, Pass.visits_of_some hnext, List.cons_append]
  · intro other hother
    rcases List.mem_append.1 hother with hother | hother
    · exact hfirst other hother
    · exact isSkipped_of_mem_visitsOf hidle.2 hother

namespace Enclosure

variable {kind : Enclosure}

/-- What is found of a text that is a comment. -/
def wholeComment (kind : Enclosure) (text : Text) (base : Nat) : Found where
  claim := ⟨base, base + text.size⟩
  lines := kind.lines text kind.opening.length (text.size - kind.closing.length)
  inlineMark := none
  resume := text.size

/-- A text that is a comment is found to be one. -/
theorem find?_of_isComment (h : kind.IsComment text 0 text.size) :
    kind.find? text 0 =
      some ⟨0, kind.opening.length, text.size - kind.closing.length, text.size⟩ := by
  have hfree : text.freeAt 0 0 = true := rfl
  cases hfind : kind.find? text 0 with
  | none => exact (not_isComment_of_find?_eq_none hfind h (Nat.le_refl 0) hfree).elim
  | some comment =>
    obtain ⟨hcomment, -, hbody, -, hstop, hmin⟩ := find?_eq_some hfind
    obtain ⟨start, bodyStart, bodyStop, stop⟩ := comment
    dsimp only at hcomment hbody hstop hmin
    -- the comment that is found is the first that opens, and it closes in one place only
    have hstart : start = 0 := by
      refine Nat.eq_zero_of_not_pos fun hpos => ?_
      have hnot := hmin 0 (Nat.le_refl 0) hpos hfree
      rw [h.opensAt] at hnot
      cases hnot
    subst hstart
    have hsize := hcomment.stop_unique h
    rw [Option.some.injEq, EnclosedComment.mk.injEq]
    refine ⟨rfl, ?_, ?_, hsize⟩
    · omega
    · omega

/-- Where nothing is claimed yet, the comment is claimed and read. -/
theorem next_of_isComment (h : kind.IsComment text 0 text.size) (base : Nat) :
    kind.next text base .empty 0 = some (kind.wholeComment text base) := by
  have hoverlaps : ClaimSet.empty.overlaps (base + 0) (base + text.size) = false := by
    have hbounds := h.bounds
    exact (ClaimSet.overlaps_eq_false_iff (by omega)).2 fun c hc => absurd hc List.not_mem_nil
  rw [next, find?_of_isComment h, Option.bind_eq_bind, Option.bind_some]
  dsimp only
  rw [hoverlaps, if_neg Bool.false_ne_true]
  rfl

/-- The comment takes in the whole text. -/
theorem takesIn_wholeComment (h : kind.IsComment text 0 text.size) (base : Nat) :
    (ClaimSet.empty.claim (kind.wholeComment text base).claim).TakesIn text base := by
  have hbounds := h.bounds
  refine ⟨_, ClaimSet.mem_toList_claim.2 (.inr ⟨rfl, ?_⟩), Nat.le_refl _, Nat.le_refl _⟩
  show base < base + text.size
  omega

/-- The pass that looks for the comment finds it first, and nothing is left for it and the others. -/
theorem visitsOf_of_isComment (h : kind.IsComment text 0 text.size) (others : List Enclosure)
    (lineMarks : List Mark) (base : Nat) :
    ∃ skipped, visitsOf (codePasses (kind :: others) lineMarks text base) .empty =
        kind.wholeComment text base :: skipped ∧
      ∀ found ∈ skipped, found.IsSkipped := by
  have hidle : ∀ pass ∈ codePasses (kind :: others) lineMarks text base, pass.Idle _ :=
    fun pass => idle_of_takesIn (takesIn_wholeComment h base)
  exact @exists_visitsOf_eq_cons text .empty (kind.pass text base) _ _ (next_of_isComment h base) hidle

end Enclosure

/-- In a text that is a comment of the kind looked for first, the comment is claimed and what its lines show is
answered. -/
theorem Matchers.scan_of_isComment {σ : Type} [Checkpoint σ] {matchers : Matchers} {kind : Enclosure}
    {others : List Enclosure} {lineMarks : List Mark}
    (hshape : matchers.shape = .code (kind :: others) lineMarks)
    {text : String} (h : kind.IsComment (Text.ofString text) 0 (Text.ofString text).size)
    (hlive : matchers.isInert = false) (base : Nat) {checkpoint : σ} (hallows : Checkpoint.Allows checkpoint) :
    (matchers.scan text base .empty checkpoint).claims =
        ClaimSet.empty.claim ⟨base, base + (Text.ofString text).size⟩ ∧
      (matchers.scan text base .empty checkpoint).result =
        .ok (.collect ((kind.wholeComment (Text.ofString text) base).highlights matchers
          (Text.ofString text) base)) := by
  have htext : text.isEmpty = false := by
    rw [← Bool.not_eq_true, String.isEmpty_iff]
    rintro rfl
    have hbounds := h.bounds
    exact absurd hbounds (by simp [Text.ofString])
  obtain ⟨ranges, hresult, -⟩ := matchers.scan_of_allows text base .empty hallows
  obtain ⟨hclaims, hranges⟩ := scan_code_ok hshape (by rw [hlive, htext]; rfl) hresult
  obtain ⟨skipped, hvisits, hskipped⟩ := Enclosure.visitsOf_of_isComment h others lineMarks base
  rw [Found.claimAll_claimed, hvisits, List.map_cons, ClaimSet.claimAll_cons,
    Found.claimAll_of_isSkipped hskipped] at hclaims
  refine ⟨hclaims, ?_⟩
  have hnothing : skipped.flatMap (Found.highlights matchers (Text.ofString text) base) = [] := by
    rw [List.flatMap_eq_nil_iff]
    exact fun found hfound => (hskipped found hfound).highlights_eq_nil matchers _ _
  rw [hresult, hranges, hvisits, List.flatMap_cons, hnothing, List.append_nil]

/-! ## A single line -/

namespace TagAlternation

/-- A name that stands in a part of the text stands in every longer part. -/
theorem foldedAt_mono {stop stop' : Nat} (hle : stop ≤ stop') {name : List Char} {i : Nat}
    (h : foldedAt text stop name i = true) : foldedAt text stop' name i = true := by
  induction name generalizing i with
  | nil => rfl
  | cons c rest ih =>
    rw [foldedAt, Bool.and_eq_true, Bool.and_eq_true, decide_eq_true_eq] at h ⊢
    exact ⟨⟨Nat.lt_of_lt_of_le h.1.1 hle, h.1.2⟩, ih h.2⟩

theorem isSome_matchAt?_mono {names : TagAlternation} {start stop stop' : Nat} (hle : stop ≤ stop')
    (h : (names.matchAt? text start stop).isSome = true) : (names.matchAt? text start stop').isSome = true := by
  rw [matchAt?, Option.isSome_map, List.find?_isSome] at h ⊢
  obtain ⟨name, hname, hfolded⟩ := h
  exact ⟨name, hname, foldedAt_mono hle hfolded⟩

end TagAlternation

namespace Matchers

variable {matchers : Matchers}

theorem isSome_tagAt?_mono {start stop stop' : Nat} (hle : stop ≤ stop')
    (h : (matchers.tagAt? text start stop).isSome = true) :
    (matchers.tagAt? text start stop').isSome = true := by
  rw [tagAt?, Option.isSome_or, Bool.or_eq_true, Option.isSome_bind, Option.isSome_bind,
    Option.any_eq_true, Option.any_eq_true] at h ⊢
  rcases h with ⟨names, hnames, h⟩ | ⟨names, hnames, h⟩
  · exact .inl ⟨names, hnames, TagAlternation.isSome_matchAt?_mono hle h⟩
  · exact .inr ⟨names, hnames, TagAlternation.isSome_matchAt?_mono hle h⟩

/-- A line that may open a tag and has content is a head if a multiline tag stands at its start. -/
theorem head?_of_opener {line : CommentLine} (hopener : line.opener = true)
    (hcontent : line.start < line.stop) :
    matchers.head? text line = (matchers.multiline.bind (·.matchAt? text line.start line.stop)).map
      fun length => ⟨⟨line.start, line.start + length⟩, line.indent⟩ := by
  rw [head?, hopener, CommentLine.isBlank_eq_false_iff.2 hcontent, Bool.not_false, Bool.and_self, if_pos rfl]
  exact TagAlternation.bind_matchAt?_eq _ _ _ _ _

/-- Such a line has a line tag if one stands at its start; without a mark there is no tag further on. -/
theorem lineTag?_of_opener {line : CommentLine} (hopener : line.opener = true)
    (hcontent : line.start < line.stop) :
    matchers.lineTag? text none line = (matchers.line.bind (·.matchAt? text line.start line.stop)).map
      fun length => ⟨line.start, line.start + length⟩ := by
  rw [lineTag?, hopener, CommentLine.isBlank_eq_false_iff.2 hcontent, if_neg Bool.false_ne_true,
    Option.bind_none, Option.or_none, if_pos rfl]
  exact TagAlternation.bind_matchAt?_eq _ _ _ _ _

/-- What a comment of a single line shows: its content, if a tag of either tier stands at the start. -/
theorem mem_highlightsOf_singleton {mode : Continuation} {line : CommentLine} {hl : Highlight} :
    hl ∈ highlightsOf text base (matchers.taggedLines text mode none none [line]) ↔
      line.opener = true ∧ line.start < line.stop ∧
        ∃ length, matchers.tagAt? text line.start line.stop = some length ∧
          hl = ⟨text.slice line.start (line.start + length), Span.shift ⟨line.start, line.stop⟩ base⟩ := by
  rw [taggedLines, Option.filter_none, taggedLines]
  dsimp only
  by_cases hopens : line.opener = true ∧ line.start < line.stop
  · obtain ⟨hopener, hcontent⟩ := hopens
    rw [head?_of_opener hopener hcontent, lineTag?_of_opener hopener hcontent, tagAt?]
    cases matchers.multiline.bind (·.matchAt? text line.start line.stop) with
    | some length => simp [taggedLines, highlightsOf, TaggedLine.highlight, hopener, hcontent, eq_comm]
    | none =>
      cases matchers.line.bind (·.matchAt? text line.start line.stop) with
      | some length => simp [highlightsOf, TaggedLine.highlight, hopener, hcontent, eq_comm]
      | none => simp [highlightsOf]
  -- a line that may not open a tag, or has no content, shows nothing
  · have hhead : matchers.head? text line = none := by
      rw [Option.eq_none_iff_forall_ne_some]
      intro head hhead
      obtain ⟨hopener, hcontent, -⟩ := head?_eq_some hhead
      exact hopens ⟨hopener, hcontent⟩
    have htag : matchers.lineTag? text none line = none := by
      rw [Option.eq_none_iff_forall_ne_some]
      intro tag htag
      obtain ⟨hcontent, ⟨hopener, -⟩ | ⟨mark, hmark, -⟩⟩ := lineTag?_eq_some htag
      · exact hopens ⟨hopener, hcontent⟩
      · cases hmark
    rw [hhead, htag]
    constructor
    · exact fun hmem => absurd hmem List.not_mem_nil
    · exact fun hshown => absurd ⟨hshown.1, hshown.2.1⟩ hopens

end Matchers

/-! ## Doc comments of one line -/

namespace Text

/-- Nothing is dropped if the last character does not satisfy the predicate. -/
theorem dropEndWhile_eq_self {p : Char → Bool} {stop : Nat} (h : text[stop - 1]?.any p = false)
    (start : Nat) : text.dropEndWhile p start stop = stop := by
  cases stop with
  | zero => rfl
  | succ stop =>
    rw [Nat.add_sub_cancel] at h
    rw [dropEndWhile, h, Bool.and_false, if_neg Bool.false_ne_true]

/-- What is dropped satisfies the predicate. -/
theorem any_of_dropEndWhile_le {p : Char → Bool} {start stop j : Nat}
    (hle : text.dropEndWhile p start stop ≤ j) (hlt : j < stop) : text[j]?.any p = true := by
  induction stop with
  | zero => exact absurd hlt (Nat.not_lt_zero j)
  | succ stop ih =>
    rw [dropEndWhile] at hle
    split at hle
    · next hcond =>
      rw [Bool.and_eq_true] at hcond
      rcases Nat.lt_or_eq_of_le (Nat.le_of_lt_succ hlt) with hlt | rfl
      · exact ih hle hlt
      · exact hcond.2
    · omega

/-- The first of the asterisks before `stop`, those of an opening mark `/**` apart. -/
def starsFrom (text : Text) (stop : Nat) : Nat :=
  text.dropEndWhile (· == '*') 3 stop

theorem getElem?_of_starsFrom_le {stop j : Nat} (hle : text.starsFrom stop ≤ j) (hlt : j < stop) :
    text[j]? = some '*' := by
  obtain ⟨c, hc, hstar⟩ := (Option.any_eq_true _ _).1 (any_of_dropEndWhile_le hle hlt)
  rw [hc, beq_iff_eq.1 hstar]

theorem starsFrom_eq_self {stop : Nat} (h : text[stop - 1]? ≠ some '*') : text.starsFrom stop = stop := by
  refine dropEndWhile_eq_self ?_ 3
  rw [Option.any_eq_false]
  intro c hc
  rw [beq_eq_false_iff_ne]
  rintro rfl
  exact h hc

end Text

namespace Enclosure

/-- The block comments that may be doc comments. -/
def ofDocPair : Enclosure :=
  .block ⟨['/', '*'], by decide⟩ ⟨['*', '/'], by decide⟩

/-- The enclosed comments of that pair, with doc comments or without. -/
def ofDocPairs (docComments : Bool) : List Enclosure :=
  (if docComments then [doc] else []) ++ [ofDocPair]

/-- The only line of a doc comment. -/
theorem lines_doc_of_freeOfNewlines {start stop : Nat} (h : text.FreeOfNewlines start stop) :
    doc.lines text start stop = [CommentLine.ofSegment text afterOneBlank start stop] := by
  rw [lines]
  dsimp only
  rw [Text.segments_of_freeOfNewlines h]
  rfl

/-- The only line of a block comment, without the repetitions of its marks. -/
theorem lines_block_of_freeOfNewlines {opening closing : Mark} {start stop first last : Nat}
    (hfirst : text.skipChar opening.last start stop = first)
    (hlast : text.dropEndWhile (· == closing.first) first stop = last) (hlt : first < last)
    (h : text.FreeOfNewlines first last) :
    (block opening closing).lines text start stop = [CommentLine.ofSegment text afterOneBlank first last] := by
  rw [lines]
  dsimp only
  rw [hfirst, hlast, if_pos hlt, Text.segments_of_freeOfNewlines h]
  rfl

end Enclosure

/-- The text is a doc comment of one line: `/**`, a blank, and no line feed or closing mark before the one at
`stop`. -/
structure IsDocLine (text : Text) (stop : Nat) : Prop where
  opening : text.occursAt ['/', '*', '*'] 0 = true
  blank : text.blankAt 3 = true
  oneLine : text.FreeOfNewlines 3 stop
  notClosed : ∀ j, 3 ≤ j → j < stop → text.occursAt ['*', '/'] j = false
  closing : text.occursAt ['*', '/'] stop = true
  content : 3 < stop
  size : text.size = stop + 2

namespace IsDocLine

variable {stop : Nat} (h : IsDocLine text stop)

include h

/-- The second asterisk of the opening mark. -/
theorem getElem?_two : text[2]? = some '*' :=
  Text.getElem?_of_occursAt h.opening (Nat.zero_le 2) (by decide)

theorem getElem?_three_ne {c : Char} (hc : isBlank c = false) : text[3]? ≠ some c := by
  intro heq
  have hblank := h.blank
  rw [Text.blankAt, heq, Option.any_some, hc] at hblank
  cases hblank

/-- The blank tells the opening mark of a doc comment. -/
theorem isComment_doc : Enclosure.doc.IsComment text 0 text.size where
  anchored := rfl
  opens := h.opening
  space _ := by
    obtain ⟨c, hc, hblank⟩ := (Option.any_eq_true _ _).1 h.blank
    rw [isBlank, Bool.or_eq_true, beq_iff_eq, beq_iff_eq] at hblank
    rcases hblank with rfl | rfl
    · exact ⟨' ', by decide, hc⟩
    · exact ⟨'\t', by decide, hc⟩
  closes := by
    have hcontent := h.content
    exact ⟨stop, hcontent, h.size, h.closing, fun j hj => h.notClosed j (Nat.le_of_succ_le hj)⟩

/-- No closing mark overlaps the opening mark. -/
theorem isComment_block : Enclosure.ofDocPair.IsComment text 0 text.size where
  anchored := rfl
  opens := Text.occursAt_of_prefix (⟨['*'], rfl⟩ : ['/', '*'] <+: _) h.opening
  space := by rintro ⟨⟩
  closes := by
    have hcontent := h.content
    refine ⟨stop, Nat.le_trans (by decide) hcontent, h.size, h.closing, fun j hj hlt => ?_⟩
    rcases Nat.eq_or_lt_of_le hj with rfl | hj
    · rw [← Bool.not_eq_true]
      intro hocc
      exact h.getElem?_three_ne (by decide) (Text.getElem?_of_occursAt hocc (by decide) (by decide))
    · exact h.notClosed j hj hlt

/-- A blank at least stands between the asterisks of the two marks. -/
theorem starsFrom_bounds : 3 < text.starsFrom stop ∧ text.starsFrom stop ≤ stop := by
  obtain ⟨hle, hstop⟩ := Text.dropEndWhile_bounds (Nat.le_of_lt h.content)
  refine ⟨Nat.lt_of_le_of_ne hle fun heq => ?_, hstop⟩
  exact h.getElem?_three_ne (by decide) (Text.getElem?_of_starsFrom_le (Nat.le_of_eq heq.symm) h.content)

/-- Read as a block comment, the text is a line between the repeated marks. -/
theorem lines_block : Enclosure.ofDocPair.lines text 2 stop =
    [CommentLine.ofSegment text afterOneBlank 3 (text.starsFrom stop)] := by
  have hcontent := h.content
  obtain ⟨hlt, hle⟩ := h.starsFrom_bounds
  -- the second asterisk of `/**` is a repetition of the last character of `/*`
  have hstart : text.skipChar '*' 2 stop = 3 := by
    refine (Text.skipChar_eq_iff (by omega)).2
      ⟨by decide, Nat.le_of_lt hcontent, fun j hj hj' => ?_, fun _ => ?_⟩
    · obtain rfl : j = 2 := by omega
      exact h.getElem?_two
    · exact h.getElem?_three_ne (by decide)
  exact Enclosure.lines_block_of_freeOfNewlines hstart rfl hlt (h.oneLine.mono (Nat.le_refl 3) hle)

/-- Either way the content starts in the same place. -/
theorem skipBlanks_starsFrom : text.skipBlanks 3 (text.starsFrom stop) = text.skipBlanks 3 stop := by
  have hcontent := h.content
  obtain ⟨hlt, hle⟩ := h.starsFrom_bounds
  obtain ⟨hstart, hstop, hblanks, hfirst⟩ := (Text.skipBlanks_eq_iff (Nat.le_of_lt hlt)).1 rfl
  refine ((Text.skipBlanks_eq_iff (Nat.le_of_lt hcontent)).2
    ⟨hstart, Nat.le_trans hstop hle, hblanks, fun hbefore => ?_⟩).symm
  rcases Nat.lt_or_eq_of_le hstop with hlt | heq
  · exact hfirst hlt
  -- an asterisk that belongs to the mark is no blank
  · rw [Text.blankAt, Text.getElem?_of_starsFrom_le (Nat.le_of_eq heq.symm) hbefore]
    rfl

/-- Where more than a blank follows the opening mark, the content follows exactly one iff the second character
is none. -/
theorem skipBlanks_eq_four_iff (hlong : 4 < stop) : text.skipBlanks 3 stop = 4 ↔ text.blankAt 4 = false := by
  rw [Text.skipBlanks_eq_iff (by omega)]
  constructor
  · rintro ⟨-, -, -, hfirst⟩
    exact hfirst hlong
  · intro hfirst
    refine ⟨by decide, Nat.le_of_lt hlong, fun j hj hlt => ?_, fun _ => hfirst⟩
    obtain rfl : j = 3 := by omega
    exact h.blank

/-- Before a repeated closing mark there is more than a blank. -/
theorem four_lt_of_star (hstar : text[stop - 1]? = some '*') : 4 < stop := by
  have hcontent := h.content
  refine Nat.lt_of_le_of_ne hcontent fun heq => ?_
  rw [← heq] at hstar
  exact h.getElem?_three_ne (by decide) hstar

/-- A block comment does not take in a repeated closing mark. -/
theorem starsFrom_lt_of_star (hstar : text[stop - 1]? = some '*') : text.starsFrom stop < stop := by
  obtain ⟨hlt, hle⟩ := h.starsFrom_bounds
  refine Nat.lt_of_le_of_ne hle fun heq => ?_
  have hnot : text[text.starsFrom stop - 1]?.any (· == '*') = false :=
    Text.not_any_of_lt_dropEndWhile hlt
  rw [heq, hstar] at hnot
  cases hnot

end IsDocLine

namespace Matchers

variable (matchers : Matchers)

/-- What is shown of a doc comment of one line whose text is read up to `last`. -/
def shownUpTo (text : Text) (base last : Nat) : List Highlight :=
  highlightsOf text base
    (matchers.taggedLines text .indented none none [CommentLine.ofSegment text afterOneBlank 3 last])

variable {matchers}

/-- The content is shown if it follows one blank and starts with a tag. -/
theorem mem_shownUpTo {last : Nat} {hl : Highlight} :
    hl ∈ matchers.shownUpTo text base last ↔
      text.skipBlanks 3 last = 4 ∧ 4 < text.trimEnd 4 last ∧
        ∃ length, matchers.tagAt? text 4 (text.trimEnd 4 last) = some length ∧
          hl = ⟨text.slice 4 (4 + length), Span.shift ⟨4, text.trimEnd 4 last⟩ base⟩ := by
  have hopener : (CommentLine.ofSegment text afterOneBlank 3 last).opener = true ↔
      text.skipBlanks 3 last = 4 := by
    show (text.skipBlanks 3 last - 3 == 1) = true ↔ _
    rw [beq_iff_eq]
    omega
  rw [shownUpTo, mem_highlightsOf_singleton, hopener, and_congr_right_iff]
  intro hfour
  rw [CommentLine.ofSegment, hfour]

end Matchers

namespace IsDocLine

variable {stop : Nat} (h : IsDocLine text stop) {matchers : Matchers}

include h

/-- With a repeated closing mark and a tag after one blank, what is shown of a doc comment ends with the mark,
and what is shown of a block comment does not. -/
theorem exists_mem_shownUpTo (base : Nat) (hstar : text[stop - 1]? = some '*')
    (hblank : text.blankAt 4 = false) (htag : (matchers.tagAt? text 4 stop).isSome = true) :
    (∃ hl ∈ matchers.shownUpTo text base stop, hl.span = ⟨base + 4, base + stop⟩) ∧
      ∀ hl ∈ matchers.shownUpTo text base (text.starsFrom stop), hl.span.stop < base + stop := by
  have hlong := h.four_lt_of_star hstar
  have hlast : text.trimEnd 4 stop = stop := by
    refine Text.dropEndWhile_eq_self ?_ 4
    rw [hstar]
    decide
  constructor
  · obtain ⟨length, hlength⟩ := Option.isSome_iff_exists.1 htag
    refine ⟨_, Matchers.mem_shownUpTo.2 ⟨(h.skipBlanks_eq_four_iff hlong).2 hblank, ?_, length, ?_, rfl⟩, ?_⟩
    · rwa [hlast]
    · rwa [hlast]
    · show (⟨4 + base, text.trimEnd 4 stop + base⟩ : Span) = _
      rw [hlast, Nat.add_comm 4, Nat.add_comm stop]
  · intro hl hmem
    obtain ⟨-, hcontent, length, -, rfl⟩ := Matchers.mem_shownUpTo.1 hmem
    have hlt := h.starsFrom_lt_of_star hstar
    obtain ⟨hle, -⟩ := h.starsFrom_bounds
    have htrim := (@Text.dropEndWhile_bounds text Unicode.isWhiteSpace 4 _ hle).2
    show text.trimEnd 4 _ + base < base + stop
    rw [Text.trimEnd]
    omega

/-- Without a repeated closing mark, or without a tag after one blank, the same is shown of a doc comment and of
a block comment. -/
theorem shownUpTo_eq (base : Nat) (hagree : text[stop - 1]? = some '*' → text.blankAt 4 = false →
      (matchers.tagAt? text 4 stop).isSome = false) :
    matchers.shownUpTo text base stop = matchers.shownUpTo text base (text.starsFrom stop) := by
  by_cases hstar : text[stop - 1]? = some '*'
  · have hlong := h.four_lt_of_star hstar
    have hnone {last : Nat} (hle : 4 ≤ last) (hlast : last ≤ stop)
        (hsame : text.skipBlanks 3 last = text.skipBlanks 3 stop) : matchers.shownUpTo text base last = [] := by
      rw [List.eq_nil_iff_forall_not_mem]
      intro hl hmem
      obtain ⟨hfour, -, length, hlength, -⟩ := Matchers.mem_shownUpTo.1 hmem
      rw [hsame, h.skipBlanks_eq_four_iff hlong] at hfour
      have htrim : text.trimEnd 4 last ≤ last := (Text.dropEndWhile_bounds hle).2
      have hsome := Matchers.isSome_tagAt?_mono (Nat.le_trans htrim hlast)
        (Option.isSome_iff_exists.2 ⟨length, hlength⟩)
      rw [hagree hstar hfour] at hsome
      cases hsome
    obtain ⟨hlt, hle⟩ := h.starsFrom_bounds
    rw [hnone (Nat.le_of_lt hlong) (Nat.le_refl stop) rfl, hnone hlt hle h.skipBlanks_starsFrom]
  · rw [Text.starsFrom_eq_self hstar]

/-- What the text shows is what its only line shows. -/
theorem highlights_wholeComment {kind : Enclosure} {last : Nat} (hclosing : kind.closing.length = 2)
    (hlines : kind.lines text kind.opening.length stop = [CommentLine.ofSegment text afterOneBlank 3 last])
    (matchers : Matchers) (base : Nat) :
    (kind.wholeComment text base).highlights matchers text base = matchers.shownUpTo text base last := by
  rw [Found.highlights, Enclosure.wholeComment, hclosing, h.size, Nat.add_sub_cancel, hlines]
  rfl

/-- The ranges of the two readings are the same iff the closing mark is not repeated or no tag follows one
blank. -/
theorem collect_eq_iff (matchers : Matchers) (base : Nat) :
    TagRanges.collect (matchers.shownUpTo text base stop) =
        .collect (matchers.shownUpTo text base (text.starsFrom stop)) ↔
      ¬ (text[stop - 1]? = some '*' ∧ text.blankAt 4 = false ∧
        (matchers.tagAt? text 4 stop).isSome = true) := by
  constructor
  · rintro heq ⟨hstar, hblank, htag⟩
    -- a range of the doc comment ends with the closing mark, where none of the block comment ends
    obtain ⟨⟨hl, hmem, hspan⟩, hbelow⟩ := h.exists_mem_shownUpTo base hstar hblank htag
    have hlong := h.four_lt_of_star hstar
    have hflat : (⟨Unicode.lowercase hl.tag, hl.span⟩ : Highlight) ∈
        (TagRanges.collect (matchers.shownUpTo text base stop)).flat := by
      refine TagRanges.mem_flat_collect.2 ⟨hl, hmem, ?_, rfl, rfl⟩
      rw [hspan]
      exact Nat.add_lt_add_left hlong base
    rw [heq] at hflat
    obtain ⟨hl', hmem', -, -, hspan'⟩ := TagRanges.mem_flat_collect.1 hflat
    have hlt := hbelow hl' hmem'
    rw [hspan', hspan] at hlt
    exact Nat.lt_irrefl _ hlt
  · intro hagree
    rw [h.shownUpTo_eq base fun hstar hblank => ?_]
    rw [← Bool.not_eq_true]
    exact fun htag => hagree ⟨hstar, hblank, htag⟩

end IsDocLine

/-! ## Scans with and without doc comments -/

/-- The characters of the body follow those of the opening mark. -/
theorem getElem?_ofString_body {body : String} {i : Nat} (hi : i < body.toList.length) :
    (Text.ofString ("/**" ++ body ++ "*/"))[i + 3]? = body.toList[i]? := by
  rw [← @List.getElem?_append_left _ _ ['*', '/'] _ hi]
  simp [Text.ofString, String.toList_append]

/-- A text of this form is a doc comment of one line. -/
theorem isDocLine_ofString {body : String} (hblank : body.toList.head?.any isBlank = true)
    (hline : '\n' ∉ body.toList) (hclosing : ¬ ['*', '/'] <:+: body.toList) :
    IsDocLine (Text.ofString ("/**" ++ body ++ "*/")) (body.toList.length + 3) := by
  generalize htext : Text.ofString ("/**" ++ body ++ "*/") = text
  have hchars (i : Nat) : text[i]? = ('/' :: '*' :: '*' :: (body.toList ++ ['*', '/']))[i]? := by
    rw [← htext]
    simp [Text.ofString, String.toList_append]
  have hbody {i : Nat} (hi : i < body.toList.length) : text[i + 3]? = body.toList[i]? := by
    rw [← htext, getElem?_ofString_body hi]
  have hmark (i : Nat) : text[body.toList.length + 3 + i]? = ['*', '/'][i]? := by
    rw [hchars, Nat.add_right_comm]
    exact (List.getElem?_append_right (Nat.le_add_right _ _)).trans (by rw [Nat.add_sub_cancel_left])
  have hlen : 0 < body.toList.length := by
    rw [List.length_pos_iff]
    rintro hnil
    rw [hnil] at hblank
    cases hblank
  refine ⟨?_, ?_, ?_, ?_, ?_, ?_, ?_⟩
  · simp [Text.occursAt, hchars]
  · rw [Text.blankAt, hbody hlen, ← List.head?_eq_getElem?]
    exact hblank
  · intro j hj hlt hnewline
    obtain ⟨i, rfl⟩ := Nat.exists_eq_add_of_le' hj
    rw [hbody (Nat.lt_of_add_lt_add_right hlt)] at hnewline
    exact hline (List.mem_of_getElem? hnewline)
  · intro j hj hlt
    obtain ⟨i, rfl⟩ := Nat.exists_eq_add_of_le' hj
    have hi := Nat.lt_of_add_lt_add_right hlt
    rw [← Bool.not_eq_true, Text.occursAt_iff]
    intro hocc
    have hstar := hocc 0 '*' rfl
    have hslash := hocc 1 '/' rfl
    rw [Nat.add_right_comm] at hstar hslash
    rcases Nat.lt_or_eq_of_le (hi : i + 1 ≤ body.toList.length) with hnext | hlast
    · rw [hbody hi] at hstar
      rw [hbody hnext] at hslash
      refine hclosing (List.infix_iff_getElem?.2 ⟨i, ?_, fun k hk => ?_⟩)
      · show 2 + i ≤ _
        omega
      · obtain rfl | rfl : k = 0 ∨ k = 1 := Nat.le_one_iff_eq_zero_or_eq_one.1 (Nat.le_of_lt_succ hk)
        · rwa [Nat.zero_add]
        · rwa [Nat.add_comm]
    -- what follows the last character is the asterisk of the closing mark
    · have hstar' := hmark 0
      rw [← hlast, Nat.add_zero, hslash] at hstar'
      cases hstar'
  · rw [Text.occursAt_iff]
    intro k c hc
    rw [hmark, hc]
  · omega
  · rw [← htext]
    simp [Text.ofString, String.toList_append]

namespace Matchers

variable {σ : Type} [Checkpoint σ]

/-- Where the pattern of doc comments is accepted, to look for them as well changes nothing else that is built. -/
theorem ofKinds_doc {compiler : PatternCompiler} (hdoc : compiler.Accepts Enclosure.docPattern false)
    (tags : TagTable) (kinds : List Enclosure) (lineMarks : List Mark) (escapes : EscapeCache) :
    ((ofKinds compiler tags (.doc :: kinds) lineMarks).build escapes).1 =
      ((ofKinds compiler tags kinds lineMarks).build escapes).1.map fun matchers =>
        { matchers with shape := .code (.doc :: kinds) lineMarks } := by
  have hfirst : (compileKind compiler .doc).build escapes = (.ok (), escapes) := by
    show (liftM (compiler.compile Enclosure.docPattern false) : PatternBuilder Unit).build escapes = _
    rw [PatternBuilder.build_liftM, PatternCompiler.compile_of_accepts hdoc]
  have hforM : ((Enclosure.doc :: kinds).forM (compileKind compiler)).build escapes =
      (kinds.forM (compileKind compiler)).build escapes := by
    show (compileKind compiler .doc >>= fun _ => kinds.forM (compileKind compiler)).build escapes = _
    rw [PatternBuilder.build_bind, hfirst]
  -- what follows is the same, step by step
  rw [ofKinds, ofKinds, PatternBuilder.build_bind, PatternBuilder.build_bind, hforM]
  rcases (kinds.forM (compileKind compiler)).build escapes with ⟨e | _, escapes⟩
  · rfl
  dsimp only
  rw [PatternBuilder.build_bind, PatternBuilder.build_bind, PatternBuilder.build_liftM]
  cases TagAlternation.build compiler tags.multilineTags with
  | error e => rfl
  | ok multiline =>
    dsimp only
    rw [PatternBuilder.build_bind, PatternBuilder.build_bind, PatternBuilder.build_liftM]
    cases TagAlternation.build compiler tags.lineTags with
    | error e => rfl
    | ok line =>
      dsimp only
      rw [PatternBuilder.build_bind, PatternBuilder.build_bind]
      rcases (compileLines compiler lineMarks).build escapes with ⟨e | _, escapes⟩ <;> rfl

/-- Where `/*` and `*/` are the only pair, the tiers of tags are the same with doc comments and without, and so
are the errors. -/
theorem ofMarks_docPair {compiler : PatternCompiler} (hdoc : compiler.Accepts Enclosure.docPattern false)
    (tags : TagTable) (lineMarks : List String) (escapes : EscapeCache) :
    (∃ e, ∀ docComments, ((ofMarks compiler tags ⟨lineMarks, [CommentMarks.docPair]⟩
        { docComments }).build escapes).1 = .error e) ∨
      ∃ multiline line, ∀ docComments,
        ((ofMarks compiler tags ⟨lineMarks, [CommentMarks.docPair]⟩ { docComments }).build escapes).1 =
          .ok ⟨multiline, line,
            .code (Enclosure.ofDocPairs docComments) (lineMarks.filterMap Mark.ofString?)⟩ := by
  have hwith := ofKinds_doc hdoc tags (Enclosure.ofDocPairs false) (lineMarks.filterMap Mark.ofString?) escapes
  cases hwithout : ((ofKinds compiler tags (Enclosure.ofDocPairs false)
      (lineMarks.filterMap Mark.ofString?)).build escapes).1 with
  | error e =>
    rw [hwithout] at hwith
    refine .inl ⟨e, fun docComments => ?_⟩
    cases docComments with
    | true => exact hwith
    | false => exact hwithout
  | ok matchers =>
    obtain ⟨-, -, hshape⟩ := ofKinds_eq_ok hwithout
    obtain ⟨multiline, line, shape⟩ := matchers
    obtain rfl : shape = _ := hshape
    rw [hwithout] at hwith
    refine .inr ⟨multiline, line, fun docComments => ?_⟩
    cases docComments with
    | true => exact hwith
    | false => exact hwithout

/-- Whether or not doc comments are looked for, a doc comment of one line is claimed as a whole. What is shown
of it is the same, too, unless an asterisk stands before the closing mark and a tag follows after exactly one
blank: then the asterisk is shown with a doc comment only. The compiler accepts the pattern of doc comments, as
it does not depend on any marks. -/
theorem scan_docComments {compiler : PatternCompiler} (hdoc : compiler.Accepts Enclosure.docPattern false)
    (escapes : EscapeCache) (tags : TagTable) (lineMarks : List String) {body : String}
    (hblank : body.toList.head?.any isBlank = true) (hline : '\n' ∉ body.toList)
    (hclosing : ¬ ['*', '/'] <:+: body.toList) (offset : Nat) {checkpoint : σ}
    (hallows : Checkpoint.Allows checkpoint) :
    let marks : CommentMarks := ⟨lineMarks, [CommentMarks.docPair]⟩
    let comment := "/**" ++ body ++ "*/"
    let text := Text.ofString comment
    (∃ e, ∀ docComments, ((ofMarks compiler tags marks { docComments }).build escapes).1 = .error e) ∨
      ∃ doc block, ((ofMarks compiler tags marks { docComments := true }).build escapes).1 = .ok doc ∧
        ((ofMarks compiler tags marks { docComments := false }).build escapes).1 = .ok block ∧
        (doc.scan comment offset .empty checkpoint).claims =
          (block.scan comment offset .empty checkpoint).claims ∧
        ∃ ranges ranges', (doc.scan comment offset .empty checkpoint).result = .ok ranges ∧
          (block.scan comment offset .empty checkpoint).result = .ok ranges' ∧
          (ranges = ranges' ↔ ¬ (body.toList.getLast? = some '*' ∧ text.blankAt 4 = false ∧
            (doc.tagAt? text 4 (text.size - 2)).isSome = true)) := by
  intro marks comment text
  have hcomment : IsDocLine text (body.toList.length + 3) := isDocLine_ofString hblank hline hclosing
  have hlast : text[body.toList.length + 3 - 1]? = body.toList.getLast? := by
    have hlen : 0 < body.toList.length := by
      have hcontent := hcomment.content
      omega
    rw [Nat.sub_add_comm hlen, getElem?_ofString_body (Nat.sub_one_lt_of_lt hlen), List.getLast?_eq_getElem?]
  rcases ofMarks_docPair hdoc tags lineMarks escapes with herror | ⟨multiline, line, hok⟩
  · exact .inl herror
  · refine .inr ⟨_, _, hok true, hok false, ?_⟩
    by_cases htiers : (multiline.isNone && line.isNone) = true
    -- without tags nothing is looked for
    · have hinert (docComments : Bool) : isInert ⟨multiline, line, .code (Enclosure.ofDocPairs docComments)
          (lineMarks.filterMap Mark.ofString?)⟩ = true := by
        rw [isInert, htiers, Bool.true_or]
      rw [Bool.and_eq_true, Option.isNone_iff_eq_none, Option.isNone_iff_eq_none] at htiers
      obtain ⟨rfl, rfl⟩ := htiers
      rw [scan, hinert, Bool.true_or, if_pos rfl, scan, hinert, Bool.true_or, if_pos rfl]
      refine ⟨rfl, _, _, rfl, rfl, iff_of_true rfl ?_⟩
      rintro ⟨-, -, htag⟩
      cases htag
    · have hlive (docComments : Bool) : isInert ⟨multiline, line, .code (Enclosure.ofDocPairs docComments)
          (lineMarks.filterMap Mark.ofString?)⟩ = false := by
        rw [Bool.not_eq_true] at htiers
        rw [isInert, htiers]
        cases docComments <;> rfl
      obtain ⟨hclaims, hranges⟩ := scan_of_isComment rfl hcomment.isComment_doc (hlive true) offset hallows
      obtain ⟨hclaims', hranges'⟩ := scan_of_isComment rfl hcomment.isComment_block (hlive false) offset hallows
      refine ⟨hclaims.trans hclaims'.symm, _, _, hranges, hranges', ?_⟩
      rw [hcomment.highlights_wholeComment rfl (Enclosure.lines_doc_of_freeOfNewlines hcomment.oneLine),
        hcomment.highlights_wholeComment rfl hcomment.lines_block, ← hlast, hcomment.size, Nat.add_sub_cancel]
      exact hcomment.collect_eq_iff _ offset

/-- Of a comment whose closing mark is not repeated, both readings show the tag and what follows it. -/
theorem scan_docComments_shown :
    let tags : TagTable := ⟨[⟨"!", "!", "!", false, {}⟩]⟩
    let marks : CommentMarks := ⟨["//"], [CommentMarks.docPair]⟩
    let comment := "/**" ++ " ! x " ++ "*/"
    PatternCompiler.lenient.Accepts Enclosure.docPattern false ∧
      ∃ doc block, ((ofMarks .lenient tags marks { docComments := true }).build .empty).1 = .ok doc ∧
        ((ofMarks .lenient tags marks { docComments := false }).build .empty).1 = .ok block ∧
        (doc.scan comment 7 .empty Unlimited.mk).claims = (block.scan comment 7 .empty Unlimited.mk).claims ∧
        (doc.scan comment 7 .empty Unlimited.mk).result.map TagRanges.flat = .ok [⟨"!", ⟨11, 14⟩⟩] ∧
        (block.scan comment 7 .empty Unlimited.mk).result.map TagRanges.flat = .ok [⟨"!", ⟨11, 14⟩⟩] := by
  intro tags marks comment
  have hdoc : PatternCompiler.lenient.Accepts Enclosure.docPattern false := rfl
  have hmain := scan_docComments hdoc .empty tags ["//"] (by decide : " ! x ".toList.head?.any isBlank = true)
    (by decide) (by decide) 7 (Checkpoint.allows_of_forall (fun _ : Unlimited => rfl) Unlimited.mk)
  obtain ⟨e, herror⟩ | ⟨doc, block, hbuilt, hbuilt', hclaims, ranges, ranges', hranges, hranges', hiff⟩ := hmain
  · cases herror true
  · have hsame : ranges = ranges' := hiff.2 fun ⟨hstar, _⟩ => absurd hstar (by decide)
    have hshown : (block.scan comment 7 .empty Unlimited.mk).result.map TagRanges.flat =
        .ok [⟨"!", ⟨11, 14⟩⟩] := by
      cases hbuilt'
      dsimp only [comment]
      decide +kernel
    refine ⟨hdoc, doc, block, hbuilt, hbuilt', hclaims, ?_, hshown⟩
    rw [hranges, hsame, ← hranges']
    exact hshown

/-- Of a tagged comment with a repeated closing mark, doc comments show an asterisk, and block comments none. -/
theorem not_scan_docComments_eq :
    let tags : TagTable := ⟨[⟨"!", "!", "!", false, {}⟩]⟩
    let marks : CommentMarks := ⟨[], [CommentMarks.docPair]⟩
    let comment := "/**" ++ " ! *" ++ "*/"
    " ! *".toList.head?.any isBlank = true ∧ '\n' ∉ " ! *".toList ∧ ¬ ['*', '/'] <:+: " ! *".toList ∧
      ∃ doc block, ((ofMarks .lenient tags marks { docComments := true }).build .empty).1 = .ok doc ∧
        ((ofMarks .lenient tags marks { docComments := false }).build .empty).1 = .ok block ∧
        (doc.scan comment 0 .empty Unlimited.mk).result.map TagRanges.flat = .ok [⟨"!", ⟨4, 7⟩⟩] ∧
        (block.scan comment 0 .empty Unlimited.mk).result.map TagRanges.flat = .ok [⟨"!", ⟨4, 5⟩⟩] := by
  intro tags marks comment
  refine ⟨by decide, by decide, by decide, _, _, rfl, rfl, ?_, ?_⟩
  · dsimp only [comment, tags, marks]
    decide +kernel
  · dsimp only [comment, tags, marks]
    decide +kernel

end Matchers

end CommentTags
