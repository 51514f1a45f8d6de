import CommentTags.Proofs.Mark
import CommentTags.Scan.LineRun

/-!
# The opening marks of line comments

A line comment opens with the first configured mark that stands at an anchored position, extended by all
repetitions of its last character. This module describes the mark by the text alone and compares the marks
that the same text opens with at two places.

## Main definitions

* `LineRun.IsOpener`: a line comment may open at a position, with a given mark;
* `LineRun.CarriesAt`: a line starts with a mark, apart from blanks.

## Main results

* `LineRun.isOpener_iff`: openers are what the matcher finds at anchored positions;
* `LineRun.continuation?_eq_some_iff`: a compact mark is found at the start of a line iff the line carries
  it;
* `LineRun.exists_prefix_of_occursAt`: where the mark of an opener stands again, the matcher finds a mark
  that starts with it.
-/

namespace CommentTags.LineRun

variable {marks : List Mark} {text : Text}

/-- A line comment may open at `i`: the position is anchored, and `mark` is the first of the `marks` that
stands there, with all repetitions of its last character. -/
structure IsOpener (marks : List Mark) (text : Text) (i : Nat) (mark : Mark) : Prop where
  anchored : text.anchored i = true
  matched : ∃ first before after, marks = before ++ first :: after ∧
    (∀ m ∈ before, text.occursAt m.chars i = false) ∧
    ∃ count, mark.chars = first.chars ++ List.replicate count first.last ∧
      text.occursAt mark.chars i = true ∧ text[i + mark.length]? ≠ some first.last

/-- The line that starts at `lineStart` carries `mark` at `i`, after nothing but blanks. -/
structure CarriesAt (text : Text) (mark : Mark) (lineStart i : Nat) : Prop where
  le : lineStart ≤ i
  blanks : ∀ j, lineStart ≤ j → j < i → text.blankAt j = true
  occurs : text.occursAt mark.chars i = true

/-! ## Repetitions -/

/-- The same character stands in a row iff it stands at each place. -/
theorem occursAt_replicate {c : Char} {count i : Nat} :
    text.occursAt (List.replicate count c) i = true ↔
      ∀ p, i ≤ p → p < i + count → text[p]? = some c := by
  rw [Text.occursAt_iff]
  constructor
  · intro h p h₁ h₂
    have hp := h (p - i) c (by rw [List.getElem?_replicate, if_pos (by omega)])
    rw [← hp]
    congr 1
    omega
  · intro h k d hk
    rw [List.getElem?_replicate] at hk
    split at hk
    · cases hk
      exact h (i + k) (by omega) (by omega)
    · cases hk

/-- A mark that stands at `i` is extended to all repetitions of its last character. -/
theorem extend_spec {mark : Mark} {i : Nat} (h : text.occursAt mark.chars i = true) :
    ∃ count, (extend text i mark).chars = mark.chars ++ List.replicate count mark.last ∧
      text.occursAt (extend text i mark).chars i = true ∧
      text[i + (extend text i mark).length]? ≠ some mark.last := by
  have hfit : i + mark.length ≤ text.size := mark.add_length_le_of_occursAt h
  obtain ⟨hle, hsize, hall, hend⟩ := (Text.skipChar_eq_iff (c := mark.last) hfit).1 rfl
  have hlen : (extend text i mark).length =
      mark.length + (text.skipChar mark.last (i + mark.length) text.size - (i + mark.length)) := by
    simp only [extend, Mark.length, List.length_append, List.length_replicate]
  refine ⟨_, rfl, ?_, ?_⟩
  · rw [extend, Text.occursAt_append, occursAt_replicate]
    refine ⟨h, fun p h₁ h₂ => hall p h₁ ?_⟩
    simp only [Mark.length] at hle h₁ h₂ ⊢
    omega
  · rw [hlen]
    -- what follows the extended mark stands where skipping its last character has stopped
    have heq : i + (mark.length +
        (text.skipChar mark.last (i + mark.length) text.size - (i + mark.length))) =
        text.skipChar mark.last (i + mark.length) text.size := by omega
    rw [heq]
    rcases Nat.eq_or_lt_of_le hsize with heq | hlt
    -- nothing follows at the end of the text
    · rw [heq, Array.getElem?_eq_none (Nat.le_refl _)]
      intro hnone
      cases hnone
    · exact hend hlt

/-- Where a mark stands with some repetitions, it is extended to at least those. -/
theorem prefix_extend {mark : Mark} {i count : Nat}
    (h : text.occursAt (mark.chars ++ List.replicate count mark.last) i = true) :
    mark.chars ++ List.replicate count mark.last <+: (extend text i mark).chars := by
  obtain ⟨hmark, hrep⟩ := Text.occursAt_append.1 h
  obtain ⟨count', hchars, hocc, hend⟩ := extend_spec hmark
  refine Text.prefix_of_occursAt h hocc ?_
  rw [hchars]
  simp only [List.length_append, List.length_replicate]
  -- otherwise a repetition stands right after the extended mark
  refine Nat.le_of_not_lt fun hlt => hend ?_
  refine occursAt_replicate.1 hrep _ ?_ ?_
  · rw [Mark.length, hchars, List.length_append, List.length_replicate]
    omega
  · rw [Mark.length, hchars, List.length_append, List.length_replicate]
    omega

/-- A mark with its repetitions is compact if the mark is. -/
theorem compact_extend {mark : Mark} (h : mark.Compact) (text : Text) (i : Nat) :
    (extend text i mark).Compact := by
  intro c hc
  rw [extend, List.mem_append, List.mem_replicate] at hc
  rcases hc with hc | ⟨-, rfl⟩
  · exact h c hc
  · exact h mark.last (List.getLast_mem mark.nonempty)

/-! ## The mark at a position -/

/-- The mark at a position is the first of the marks that stands there, extended. -/
theorem markAt?_eq_some_iff {i : Nat} {mark : Mark} :
    markAt? marks text i = some mark ↔
      ∃ first before after, marks = before ++ first :: after ∧
        (∀ m ∈ before, text.occursAt m.chars i = false) ∧
        text.occursAt first.chars i = true ∧ extend text i first = mark := by
  rw [markAt?, Option.map_eq_some_iff]
  simp only [List.find?_eq_some_iff_append, Bool.not_eq_true']
  constructor
  · rintro ⟨first, ⟨hocc, before, after, hmarks, hbefore⟩, hextend⟩
    exact ⟨first, before, after, hmarks, hbefore, hocc, hextend⟩
  · rintro ⟨first, before, after, hmarks, hbefore, hocc, hextend⟩
    exact ⟨first, ⟨hocc, before, after, hmarks, hbefore⟩, hextend⟩

/-- The mark that is found at a position stands there. -/
theorem occursAt_of_markAt? {i : Nat} {mark : Mark} (h : markAt? marks text i = some mark) :
    text.occursAt mark.chars i = true := by
  obtain ⟨first, before, after, -, -, hocc, rfl⟩ := markAt?_eq_some_iff.1 h
  obtain ⟨-, -, hextended, -⟩ := extend_spec hocc
  exact hextended

theorem compact_of_markAt? (hmarks : ∀ m ∈ marks, m.Compact) {i : Nat} {mark : Mark}
    (h : markAt? marks text i = some mark) : mark.Compact := by
  obtain ⟨first, before, after, rfl, -, -, rfl⟩ := markAt?_eq_some_iff.1 h
  exact compact_extend (hmarks first (by simp)) text i

/-- The openers are what the matcher finds at anchored positions. -/
theorem isOpener_iff {i : Nat} {mark : Mark} :
    IsOpener marks text i mark ↔ text.anchored i = true ∧ markAt? marks text i = some mark := by
  constructor
  · rintro ⟨hanchored, first, before, after, hmarks, hbefore, count, hchars, hocc, hend⟩
    refine ⟨hanchored, markAt?_eq_some_iff.2 ⟨first, before, after, hmarks, hbefore, ?_, ?_⟩⟩
    · rw [hchars] at hocc
      exact (Text.occursAt_append.1 hocc).1
    · rw [hchars] at hocc
      obtain ⟨count', hchars', hocc', -⟩ := extend_spec (Text.occursAt_append.1 hocc).1
      have hpre := prefix_extend hocc
      -- a further repetition in the extended mark would stand right after `mark`
      have hlen : (extend text i first).chars.length ≤ mark.chars.length := by
        refine Nat.le_of_not_lt fun hlt => hend ?_
        rw [hchars'] at hocc' hlt
        rw [hchars] at hlt
        simp only [List.length_append, List.length_replicate] at hlt
        refine occursAt_replicate.1 (Text.occursAt_append.1 hocc').2 _ ?_ ?_
        · rw [Mark.length, hchars, List.length_append]
          omega
        · rw [Mark.length, hchars, List.length_append, List.length_replicate]
          omega
      rw [← hchars] at hpre
      have heq : mark.chars = (extend text i first).chars := hpre.eq_of_length_le hlen
      cases mark
      cases hextend : extend text i first
      simp only [hextend] at heq
      rw [Mark.mk.injEq, heq]
  · rintro ⟨hanchored, hmark⟩
    obtain ⟨first, before, after, hmarks, hbefore, hocc, rfl⟩ := markAt?_eq_some_iff.1 hmark
    obtain ⟨count, hchars, hextended, hend⟩ := extend_spec hocc
    exact ⟨hanchored, first, before, after, hmarks, hbefore, count, hchars, hextended, hend⟩

/-- Only one mark opens a comment at a position. -/
theorem IsOpener.unique {i : Nat} {mark mark' : Mark} (h : IsOpener marks text i mark)
    (h' : IsOpener marks text i mark') : mark = mark' := by
  have hmark := (isOpener_iff.1 h).2
  rw [(isOpener_iff.1 h').2] at hmark
  exact (Option.some.inj hmark).symm

/-- Where the mark of one place stands again, the matcher finds a mark that starts with it. The two may
differ: the last character may be repeated more often, or a mark that comes earlier may fit. -/
theorem exists_prefix_of_occursAt {i j : Nat} {mark : Mark} (h : markAt? marks text i = some mark)
    (hocc : text.occursAt mark.chars j = true) :
    ∃ mark', markAt? marks text j = some mark' ∧ mark.chars <+: mark'.chars := by
  have hmark := occursAt_of_markAt? h
  obtain ⟨first, before, after, rfl, hbefore, hfirst, rfl⟩ := markAt?_eq_some_iff.1 h
  obtain ⟨count, hchars, -, -⟩ := extend_spec hfirst
  rw [markAt?, List.find?_append]
  cases hfind : before.find? (text.occursAt ·.chars j) with
  -- the same mark is found, with as many repetitions at least
  | none =>
    rw [hchars] at hocc ⊢
    have hagain : text.occursAt first.chars j = true := (Text.occursAt_append.1 hocc).1
    rw [Option.none_or, List.find?_cons, hagain]
    exact ⟨_, rfl, prefix_extend hocc⟩
  | some other =>
    have hother : text.occursAt other.chars j = true := by
      have hp := List.find?_some hfind
      exact hp
    refine ⟨_, rfl, ?_⟩
    -- a mark that fits inside `mark` would have been found at the first place, too
    have hlen : (extend text i first).chars.length ≤ other.chars.length := by
      refine Nat.le_of_not_lt fun hlt => ?_
      have hpre := Text.prefix_of_occursAt hother hocc (Nat.le_of_lt hlt)
      have hfits := Text.occursAt_of_prefix hpre hmark
      rw [hbefore other (List.mem_of_find?_eq_some hfind)] at hfits
      cases hfits
    obtain ⟨count', hchars', -, -⟩ := extend_spec hother
    refine (Text.prefix_of_occursAt hocc hother hlen).trans ?_
    rw [hchars']
    exact List.prefix_append _ _

/-! ## The mark of a further line -/

/-- What is found at the start of a line is carried by the line. -/
theorem carriesAt_of_continuation? {mark : Mark} {lineStart i : Nat}
    (h : continuation? text mark lineStart = some i) (hl : lineStart ≤ text.size) :
    CarriesAt text mark lineStart i := by
  rw [continuation?] at h
  simp only [Option.ite_none_right_eq_some, Option.some.injEq] at h
  obtain ⟨hocc, rfl⟩ := h
  exact ⟨Text.le_skipBlanks hl, fun j h₁ h₂ => Text.blankAt_of_lt_skipBlanks hl h₁ h₂, hocc⟩

/-- A compact mark is found at the start of a line iff the line carries it. -/
theorem continuation?_eq_some_iff {mark : Mark} (hmark : mark.Compact) {lineStart i : Nat}
    (hl : lineStart ≤ text.size) :
    continuation? text mark lineStart = some i ↔ CarriesAt text mark lineStart i := by
  constructor
  · intro h
    exact carriesAt_of_continuation? h hl
  · rintro ⟨hle, hblanks, hocc⟩
    have hlen := mark.length_pos
    have hfit := mark.add_length_le_of_occursAt hocc
    -- the mark itself does not start with a blank
    have heq : text.skipBlanks lineStart text.size = i := by
      rw [Text.skipBlanks_eq_iff hl]
      refine ⟨hle, by omega, hblanks, fun _ => ?_⟩
      exact (hmark.not_blankAt hocc (Nat.le_refl i) (by omega)).1
    simp only [continuation?, heq, hocc, if_true]

end CommentTags.LineRun
