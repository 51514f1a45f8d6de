import CommentTags.Proofs.CommentLine
import Mathlib.Order.Bounds.Basic
import Mathlib.Order.Nat

/-!
# Tags after a mark further on in a line

A line of comment text may show a tag that follows a further mark, with one blank before the tag and a blank
before the mark. The search for such a tag looks for the mark again and again, each time behind its last
occurrence, so it never looks at an occurrence that overlaps the one before. All the same it misses no tag: of
the blank that stands before the mark nothing can lie in another occurrence of a mark without blanks.

## Main definitions

* `Matchers.StartsWithTag`: the name of a tag of either tier stands at a position;
* `Matchers.TagFollows`: at a position there is a mark after a blank, and a tag after it.

## Main results

* `Matchers.TagFollows.add_length_le`: no position that counts lies in an occurrence of the mark before it;
* `Matchers.inlineTag?_finds_first`: the search finds the tag after the least position that counts.
-/

namespace CommentTags

namespace Matchers

/-- The name of a tag, of either tier, stands in the text at `start` and ends by `stop`. -/
def StartsWithTag (matchers : Matchers) (text : Text) (start stop : Nat) : Prop :=
  ∃ names, (matchers.multiline = some names ∨ matchers.line = some names) ∧
    ∃ name ∈ names.folded, TagAlternation.foldedAt text stop name start = true

/-- At `p` there is the mark, all of it between `start` and `stop`. A blank stands before it and another one after
it, and then a tag. -/
structure TagFollows (matchers : Matchers) (text : Text) (mark : Mark) (start stop p : Nat) : Prop where
  start_le : start ≤ p
  occurs : text.occursAt mark.chars p = true
  blank_before : text.followsBlank p = true
  blank_inside : p + mark.length < stop
  blank_after : text.blankAt (p + mark.length) = true
  tag : matchers.StartsWithTag text (p + mark.length + 1) stop

variable {matchers : Matchers} {text : Text} {mark : Mark} {start stop p k : Nat}

/-- Some tag is read iff the name of one stands there. -/
theorem isSome_tagAt?_iff :
    (matchers.tagAt? text start stop).isSome = true ↔ matchers.StartsWithTag text start stop := by
  have hnames (names : TagAlternation) : (names.matchAt? text start stop).isSome = true ↔
      ∃ name ∈ names.folded, TagAlternation.foldedAt text stop name start = true := by
    rw [TagAlternation.matchAt?, Option.isSome_map, List.find?_isSome]
  rw [tagAt?, Option.isSome_or, Bool.or_eq_true, StartsWithTag]
  simp only [Option.isSome_bind, Option.any_eq_true, hnames, or_and_right, exists_or]

/-- A blank stands before a position only if no mark without blanks reaches over it from further left. So a
position that counts does not lie in an occurrence of the mark that starts before it. -/
theorem TagFollows.add_length_le (h : matchers.TagFollows text mark start stop p)
    (hmark : ∀ c ∈ mark.chars, isBlank c = false) (hocc : text.occursAt mark.chars k = true) (hlt : k < p) :
    k + mark.length ≤ p := by
  refine Nat.le_of_not_lt fun hinside => ?_
  rw [Mark.length] at hinside
  have hblank := h.blank_before
  rw [Text.followsBlank, Bool.and_eq_true] at hblank
  -- the blank before the position would be a character of the mark
  have hplace : p - 1 - k < mark.chars.length := by omega
  have hchar : text[p - 1]? = mark.chars[p - 1 - k]? :=
    Text.getElem?_of_occursAt hocc (by omega) (by omega)
  rw [Text.blankAt, hchar, List.getElem?_eq_getElem hplace, Option.any_some,
    hmark _ (List.getElem_mem hplace)] at hblank
  exact Bool.false_ne_true hblank.2

/-- Where the mark does not occur no position counts. -/
theorem not_tagFollows_of_find?_eq_none (hnone : text.find? mark.chars start stop = none) :
    ¬ matchers.TagFollows text mark start stop p := by
  intro h
  have hnot := Text.find?_eq_none_iff.1 hnone p h.start_le (Nat.le_of_lt h.blank_inside)
  rw [h.occurs] at hnot
  exact Bool.false_ne_true hnot.symm

/-- A position counts iff it is the first occurrence of the mark and a tag follows there, or counts for the
search behind that occurrence. -/
theorem tagFollows_iff_of_find? (hmark : ∀ c ∈ mark.chars, isBlank c = false)
    (hfind : text.find? mark.chars start stop = some k) :
    matchers.TagFollows text mark start stop p ↔
      p = k ∧ matchers.TagFollows text mark start stop k ∨
        matchers.TagFollows text mark (k + mark.length) stop p := by
  obtain ⟨⟨hle, -, hocc⟩, hmin⟩ := Text.find?_eq_some_iff.1 hfind
  constructor
  · intro h
    rcases Nat.lt_trichotomy p k with hlt | rfl | hlt
    -- before the first occurrence there is no mark
    · have hnot := hmin p h.start_le hlt
      rw [h.occurs] at hnot
      cases hnot
    · exact .inl ⟨rfl, h⟩
    · exact .inr { h with start_le := h.add_length_le hmark hocc hlt }
  · rintro (⟨rfl, h⟩ | h)
    · exact h
    · exact { h with start_le := Nat.le_trans (Nat.le_trans hle (Nat.le_add_right _ _)) h.start_le }

/-- Whether a tag follows the first occurrence of the mark is what the search finds out there. -/
theorem tagFollows_self_iff_of_find? (hfind : text.find? mark.chars start stop = some k) :
    matchers.TagFollows text mark start stop k ↔
      (if text.followsBlank k && k + mark.length < stop && text.blankAt (k + mark.length) then
        matchers.tagAt? text (k + mark.length + 1) stop
      else none).isSome = true := by
  obtain ⟨⟨hle, -, hocc⟩, -⟩ := Text.find?_eq_some_iff.1 hfind
  have hcond : (text.followsBlank k && k + mark.length < stop && text.blankAt (k + mark.length)) = true ↔
      text.followsBlank k = true ∧ k + mark.length < stop ∧ text.blankAt (k + mark.length) = true := by
    rw [Bool.and_eq_true, Bool.and_eq_true, decide_eq_true_eq, and_assoc]
  constructor
  · intro h
    rw [if_pos (hcond.2 ⟨h.blank_before, h.blank_inside, h.blank_after⟩), isSome_tagAt?_iff]
    exact h.tag
  · intro h
    split at h
    · next hall =>
      obtain ⟨hbefore, hinside, hafter⟩ := hcond.1 hall
      exact ⟨hle, hocc, hbefore, hinside, hafter, isSome_tagAt?_iff.1 h⟩
    · cases h

/-- If a tag follows the first occurrence of the mark, this is the least position that counts. -/
theorem TagFollows.isLeast_of_find? (h : matchers.TagFollows text mark start stop k)
    (hmark : ∀ c ∈ mark.chars, isBlank c = false) (hfind : text.find? mark.chars start stop = some k) :
    IsLeast {p | matchers.TagFollows text mark start stop p} k := by
  refine ⟨h, fun p hp => ?_⟩
  rcases (tagFollows_iff_of_find? hmark hfind).1 hp with ⟨rfl, -⟩ | hbehind
  · exact Nat.le_refl _
  · exact Nat.le_trans (Nat.le_add_right _ _) hbehind.start_le

/-- The search answers the tag after the least position that counts. -/
theorem inlineTag?_eq_some_iff (hmark : ∀ c ∈ mark.chars, isBlank c = false) {tag : Span} :
    matchers.inlineTag? text mark start stop = some tag ↔
      ∃ p length, IsLeast {p | matchers.TagFollows text mark start stop p} p ∧
        matchers.tagAt? text (p + mark.length + 1) stop = some length ∧
        tag = ⟨p + mark.length + 1, p + mark.length + 1 + length⟩ := by
  -- induction along the search, which goes on behind each occurrence that does not count
  fun_induction inlineTag? matchers text mark start stop with
  | case1 start hnone =>
    simp only [reduceCtorEq, false_iff, not_exists, not_and]
    intro p length hleast
    exact absurd hleast.1 (not_tagFollows_of_find?_eq_none hnone)
  | case2 start k hfind next length hlength =>
    rw [dite_eq_ite] at hlength
    have hcounts : matchers.TagFollows text mark start stop k :=
      (tagFollows_self_iff_of_find? hfind).2 (Option.isSome_of_eq_some hlength)
    have hleast := hcounts.isLeast_of_find? hmark hfind
    have htag : matchers.tagAt? text (k + mark.length + 1) stop = some length := by
      split at hlength
      · exact hlength
      · cases hlength
    constructor
    · intro h
      cases h
      exact ⟨k, length, hleast, htag, rfl⟩
    · rintro ⟨p, length', hp, hlength', rfl⟩
      obtain rfl := hp.unique hleast
      rw [htag] at hlength'
      cases hlength'
      rfl
  | case3 start k hfind next hnone ih =>
    rw [dite_eq_ite] at hnone
    have hcounts : ¬ matchers.TagFollows text mark start stop k := by
      rw [tagFollows_self_iff_of_find? hfind, show k + mark.length = next from rfl, hnone]
      exact Bool.false_ne_true
    have hset : {p | matchers.TagFollows text mark start stop p} =
        {p | matchers.TagFollows text mark next stop p} := by
      ext p
      show matchers.TagFollows text mark start stop p ↔ matchers.TagFollows text mark next stop p
      rw [tagFollows_iff_of_find? hmark hfind]
      simp only [hcounts, and_false, false_or, next]
    rw [ih, hset]

/-- In a line of comment text the search for a tag after a mark without blanks misses none: it finds one iff there
is a position in the line with the mark between two blanks and a tag right behind, and it answers the tag at the
least such position, the name of a multiline tag before that of a line tag. -/
theorem inlineTag?_finds_first (matchers : Matchers) (text : Text) {mark : Mark}
    (hmark : ∀ c ∈ mark.chars, isBlank c = false) (line : CommentLine) :
    ((matchers.inlineTag? text mark line.start line.stop).isSome = true ↔
        ∃ p, matchers.TagFollows text mark line.start line.stop p) ∧
      ∀ tag : Span, matchers.inlineTag? text mark line.start line.stop = some tag ↔
        ∃ p length, IsLeast {p | matchers.TagFollows text mark line.start line.stop p} p ∧
          matchers.tagAt? text (p + mark.length + 1) line.stop = some length ∧
          tag = ⟨p + mark.length + 1, p + mark.length + 1 + length⟩ := by
  refine ⟨?_, fun tag => inlineTag?_eq_some_iff hmark⟩
  rw [Option.isSome_iff_exists]
  constructor
  · rintro ⟨tag, htag⟩
    obtain ⟨p, -, hleast, -⟩ := (inlineTag?_eq_some_iff hmark).1 htag
    exact ⟨p, hleast.1⟩
  · rintro ⟨p, hp⟩
    -- positions are natural numbers, so there is a least one
    classical
    have hleast := Nat.isLeast_find ⟨p, hp⟩
    obtain ⟨length, hlength⟩ := Option.isSome_iff_exists.1 (isSome_tagAt?_iff.2 hleast.1.tag)
    exact ⟨_, (inlineTag?_eq_some_iff hmark).2 ⟨_, length, hleast, hlength, rfl⟩⟩

/-- The mark overlaps itself: the search passes over its occurrence at 4 inside the longer word, and finds the tag
after the one at 8. -/
theorem inlineTag?_finds_first_overlapping :
    let matchers : Matchers := ⟨none, some ⟨"^(?:!)", [['!']]⟩, .code [] []⟩
    let text := Text.ofString "x ababa aba !y"
    let mark : Mark := ⟨['a', 'b', 'a'], by decide⟩
    let line : CommentLine := ⟨0, 14, 1, true⟩
    (∀ c ∈ mark.chars, isBlank c = false) ∧ text.occursAt mark.chars 4 = true ∧
      (∃ p, matchers.TagFollows text mark line.start line.stop p) ∧
      matchers.inlineTag? text mark line.start line.stop = some ⟨12, 13⟩ := by
  intro matchers text mark line
  have hmark : ∀ c ∈ mark.chars, isBlank c = false := by simp [mark, isBlank]
  have hfound : matchers.inlineTag? text mark line.start line.stop = some ⟨12, 13⟩ := by decide +kernel
  refine ⟨hmark, by decide, (inlineTag?_finds_first matchers text hmark line).1.1 ?_, hfound⟩
  rw [hfound]
  rfl

end Matchers

end CommentTags
