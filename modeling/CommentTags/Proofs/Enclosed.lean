import CommentTags.Proofs.Mark
import CommentTags.Proofs.Sweep
import CommentTags.Scan.Enclosed

/-!
# Enclosed comments are found, all of them

A comment of a kind is described by the text alone: its opening mark is anchored, and it ends with the
first closing mark after that. A pass claims comments and nothing else, and when it ends it has missed
none: it goes on after the opening mark of a comment that it skips and after the closing mark of one that
it claims, and no comment opens in the text passed over unless it overlaps a claim.

## Main definitions

* `Enclosure.IsComment`: a part of the text is a comment of a kind.

## Main results

* `Enclosure.next_eq_some`: what the next step of a pass claims, and where it goes on;
* `Enclosure.insight_of_next`: no comment is lost between two steps;
* `Enclosure.sweep_claims_comments`: a pass claims exactly comments that overlap no earlier claim, and
  afterwards every comment overlaps a claim;
* `Enclosure.lines_spec`: the lines of a comment lie in its text, one after the other.
-/

namespace CommentTags.Enclosure

variable {kind : Enclosure} {text : Text} {base : Nat}

/-- `start ≤ p < stop` is a comment of the kind: its opening mark starts a line or follows a blank, in a doc
comment white space follows the mark, and the comment ends with the first closing mark after that. -/
structure IsComment (kind : Enclosure) (text : Text) (start stop : Nat) : Prop where
  anchored : text.anchored start = true
  opens : text.occursAt kind.opening.chars start = true
  space : kind = doc → ∃ c ∈ [' ', '\t', '\r', '\n'], text[start + 3]? = some c
  closes : ∃ close, start + kind.guard ≤ close ∧ stop = close + kind.closing.length ∧
    text.occursAt kind.closing.chars close = true ∧
    ∀ j, start + kind.guard ≤ j → j < close → text.occursAt kind.closing.chars j = false

/-- A comment opens at its mark; in a doc comment white space follows. -/
theorem opensAt_iff {i : Nat} :
    kind.opensAt text i = true ↔ text.occursAt kind.opening.chars i = true ∧
      (kind = doc → ∃ c ∈ [' ', '\t', '\r', '\n'], text[i + 3]? = some c) := by
  rw [opensAt.eq_def, Bool.and_eq_true]
  refine and_congr_right fun _ => ?_
  cases kind with
  | block opening closing => simp
  | doc =>
    show text[i + 3]?.any isDocSpace = true ↔ _
    simp [Option.any_eq_true, isDocSpace, isBlank, or_assoc, and_comm]

theorem occursAt_of_opensAt {i : Nat} (h : kind.opensAt text i = true) :
    text.occursAt kind.opening.chars i = true :=
  (opensAt_iff.1 h).1

namespace IsComment

theorem opensAt {start stop : Nat} (h : kind.IsComment text start stop) : kind.opensAt text start = true :=
  opensAt_iff.2 ⟨h.opens, h.space⟩

/-- A comment holds at least its marks. -/
theorem bounds {start stop : Nat} (h : kind.IsComment text start stop) :
    start + kind.opening.length < stop ∧ stop ≤ text.size := by
  obtain ⟨close, hle, rfl, hocc, -⟩ := h.closes
  have hguard := kind.opening_length_le_guard
  have hpos := kind.closing.length_pos
  have hfit := kind.closing.add_length_le_of_occursAt hocc
  omega

/-- Where a comment ends is decided by where it starts. -/
theorem stop_unique {start stop stop' : Nat} (h : kind.IsComment text start stop)
    (h' : kind.IsComment text start stop') : stop = stop' := by
  obtain ⟨close, hle, rfl, hocc, hmin⟩ := h.closes
  obtain ⟨close', hle', rfl, hocc', hmin'⟩ := h'.closes
  -- of two closing marks the later one would not be the first
  rcases Nat.lt_trichotomy close close' with hlt | rfl | hlt
  · rw [hmin' close hle hlt] at hocc
    cases hocc
  · rfl
  · rw [hmin close' hle' hlt] at hocc'
    cases hocc'

end IsComment

/-! ## One step of a pass -/

/-- The search finds a comment, and no opening mark that is free stands before it. -/
theorem find?_eq_some {pos : Nat} {comment : EnclosedComment} (h : kind.find? text pos = some comment) :
    kind.IsComment text comment.start comment.stop ∧ pos ≤ comment.start ∧
      comment.bodyStart = comment.start + kind.opening.length ∧
      comment.bodyStart ≤ comment.bodyStop ∧
      comment.stop = comment.bodyStop + kind.closing.length ∧
      ∀ i, pos ≤ i → i < comment.start → text.freeAt pos i = true → kind.opensAt text i = false := by
  simp only [find?, Option.bind_eq_bind, Option.bind_eq_some_iff] at h
  obtain ⟨start, hstart, close, hclose, h⟩ := h
  cases h
  obtain ⟨hpos, -, hfree, hopensAt⟩ := Text.findFree?_eq_some hstart
  obtain ⟨hopens, hspace⟩ := opensAt_iff.1 hopensAt
  obtain ⟨⟨hle, -, hocc⟩, hmin⟩ := Text.find?_eq_some_iff.1 hclose
  have hguard := kind.opening_length_le_guard
  refine ⟨⟨Text.anchored_of_freeAt hfree, hopens, hspace, close, hle, rfl, hocc, hmin⟩, hpos, rfl, ?_, rfl, ?_⟩
  · show start + kind.opening.length ≤ close
    omega
  · intro i hi hlt hfreeAt
    obtain ⟨-, -, hfirst⟩ := firstFrom_eq_some_iff.1 hstart
    have hnot := hfirst i hi hlt
    rw [hfreeAt, Bool.true_and] at hnot
    exact hnot

/-- The search fails only if no comment with a free opening mark is left. -/
theorem not_isComment_of_find?_eq_none {pos : Nat} (h : kind.find? text pos = none)
    {start stop : Nat} (hcomment : kind.IsComment text start stop) (hpos : pos ≤ start)
    (hfree : text.freeAt pos start = true) : False := by
  have hbounds := hcomment.bounds
  obtain ⟨close, hle, rfl, hocc, -⟩ := hcomment.closes
  simp only [find?, Option.bind_eq_bind, Option.bind_eq_none_iff] at h
  -- the first free opening mark is not after the one of the comment
  cases hfirst : text.findFree? (kind.opensAt text) pos with
  | none =>
    have hnone := firstFrom_eq_none_iff.1 hfirst start hpos (by omega)
    rw [hfree, hcomment.opensAt] at hnone
    cases hnone
  | some i =>
    obtain ⟨-, -, hmin⟩ := firstFrom_eq_some_iff.1 hfirst
    have hi : i ≤ start := by
      refine Nat.le_of_not_lt fun hlt => ?_
      have hnot := hmin start hpos hlt
      rw [hfree, hcomment.opensAt] at hnot
      cases hnot
    -- so the closing mark of the comment would close it
    cases hclose : text.find? kind.closing.chars (i + kind.guard) text.size with
    | none =>
      rw [Text.find?_eq_none_iff.1 hclose close (by omega) hbounds.2] at hocc
      cases hocc
    | some j => cases h i hfirst j hclose

/-- A step of a pass finds a comment. If the comment overlaps an earlier claim, it is skipped and the pass
goes on after its opening mark; else it is claimed and the pass goes on after it. -/
theorem next_eq_some {claims : ClaimSet} {pos : Nat} {found : Found}
    (h : kind.next text base claims pos = some found) :
    ∃ comment, kind.find? text pos = some comment ∧
      (claims.overlaps (base + comment.start) (base + comment.stop) = true ∧
          found.claim = ⟨base + comment.start, base + comment.start⟩ ∧ found.lines = [] ∧
          found.resume = comment.bodyStart ∨
        claims.overlaps (base + comment.start) (base + comment.stop) = false ∧
          found.claim = ⟨base + comment.start, base + comment.stop⟩ ∧
          found.lines = kind.lines text comment.bodyStart comment.bodyStop ∧
          found.resume = comment.stop) := by
  simp only [next, Option.bind_eq_bind, Option.bind_eq_some_iff] at h
  obtain ⟨comment, hcomment, h⟩ := h
  refine ⟨comment, hcomment, ?_⟩
  split at h
  · next hoverlaps =>
    cases h
    exact .inl ⟨hoverlaps, rfl, rfl, rfl⟩
  · next hoverlaps =>
    cases h
    exact .inr ⟨by simpa using hoverlaps, rfl, rfl, rfl⟩

/-- A comment that a pass still has in sight before a step is in sight after it, or overlaps a claim. -/
theorem insight_of_next (hopening : kind.opening.Compact) (hclosing : kind.closing.Compact)
    {claims : ClaimSet} {pos : Nat} {found : Found} (h : kind.next text base claims pos = some found)
    {start stop : Nat} (hcomment : kind.IsComment text start stop) (hpos : pos ≤ start)
    (hfree : text.freeAt pos start = true) :
    found.resume ≤ start ∧ text.freeAt found.resume start = true ∨
      ∃ c ∈ (claims.claim found.claim).toList, c.overlaps (base + start) (base + stop) = true := by
  obtain ⟨comment, hfind, hcases⟩ := next_eq_some h
  obtain ⟨hfound, -, hbody, hle, hstop, hmin⟩ := find?_eq_some hfind
  have hbounds := hcomment.bounds
  have hfoundBounds := hfound.bounds
  -- the comment does not open before the one that is found
  have hstart : comment.start ≤ start := by
    refine Nat.le_of_not_lt fun hlt => ?_
    have hnot := hmin start hpos hlt hfree
    rw [hcomment.opensAt] at hnot
    cases hnot
  rcases hcases with ⟨hoverlaps, -, -, hresume⟩ | ⟨-, hclaim, -, hresume⟩
  · -- the found comment is skipped
    rcases Nat.eq_or_lt_of_le hstart with heq | hlt
    · right
      subst heq
      rw [hcomment.stop_unique hfound]
      obtain ⟨c, hc, hoverlap⟩ := (ClaimSet.overlaps_iff (by omega)).1 hoverlaps
      exact ⟨c, ClaimSet.mem_toList_claim.2 (.inl hc), hoverlap⟩
    · left
      have hbeyond := hopening.lt_of_anchored hfound.opens hcomment.anchored hlt
      rw [hresume, hbody]
      exact ⟨Nat.le_of_lt hbeyond, Text.freeAt_of_lt hcomment.anchored hbeyond⟩
  · -- the found comment is claimed
    rcases Nat.lt_or_ge start comment.stop with hlt | hge
    · right
      refine ⟨found.claim, ClaimSet.mem_toList_claim.2 (.inr ⟨rfl, ?_⟩), ?_⟩
      · rw [hclaim]
        show base + comment.start < base + comment.stop
        omega
      · rw [hclaim, Span.overlaps_iff]
        show base + comment.start < base + stop ∧ base + start < base + comment.stop
        omega
    · left
      obtain ⟨close, -, heq, hclose, -⟩ := hfound.closes
      have hbeyond : comment.stop < start := by
        rw [heq]
        refine hclosing.lt_of_anchored hclose hcomment.anchored ?_
        have := kind.closing.length_pos
        omega
      rw [hresume]
      exact ⟨Nat.le_of_lt hbeyond, Text.freeAt_of_lt hcomment.anchored hbeyond⟩

/-! ## The lines of a comment -/

/-- A line of a doc comment lies in its segment. -/
theorem within_docLine {start stop : Nat} (h : start ≤ stop) (hstop : stop ≤ text.size)
    (hfree : text.FreeOfNewlines start stop) : (docLine text start stop).Within text start stop := by
  have hlead : start ≤ text.skipBlanks start stop := Text.le_skipBlanks h
  simp only [docLine]
  split
  -- the line starts after its star
  · next hcond =>
    rw [Bool.and_eq_true, decide_eq_true_eq] at hcond
    have hrest : text.FreeOfNewlines (text.skipBlanks start stop + 1) stop :=
      hfree.mono (by omega) (Nat.le_refl _)
    exact (CommentLine.within_ofSegment hcond.1 hstop hrest).mono (by omega) (Nat.le_refl _)
  · exact CommentLine.within_ofSegment h hstop hfree

/-- Lines that are read one from each segment, the first in a way of its own, lie in the text, one after
the other. -/
private theorem split_spec {further : Nat → Nat → CommentLine}
    (hfurther : ∀ {a b}, a ≤ b → b ≤ text.size → text.FreeOfNewlines a b →
      (further a b).Within text a b)
    {start stop : Nat} (h : start ≤ stop) (hstop : stop ≤ text.size) {lines : List CommentLine}
    (hlines : lines = match text.segments start stop with
      | [] => []
      | (first, eol) :: rest =>
        CommentLine.ofSegment text afterOneBlank first eol :: rest.map fun (a, b) => further a b) :
    (∀ line ∈ lines, line.Within text start stop) ∧ lines.Pairwise fun a b => a.stop ≤ b.start := by
  obtain ⟨hin, hsorted⟩ := @Text.segments_spec text _ _ h
  refine CommentLine.within_of_segments ?_ (fun seg hseg => ⟨(hin seg hseg).1, (hin seg hseg).2.2.1⟩)
    hsorted
  cases hsegs : text.segments start stop with
  | nil =>
    rw [hsegs] at hlines
    rw [hlines]
    exact List.Forall₂.nil
  | cons seg rest =>
    rw [hsegs] at hin hlines
    rw [List.forall_mem_cons] at hin
    rw [hlines]
    refine List.Forall₂.cons ?_ ?_
    · obtain ⟨-, hle, hend, hfree⟩ := hin.1
      exact CommentLine.within_ofSegment hle (Nat.le_trans hend hstop) hfree
    · rw [List.forall₂_map_right_iff, List.forall₂_same]
      intro seg' hseg'
      obtain ⟨-, hle, hend, hfree⟩ := hin.2 seg' hseg'
      exact hfurther hle (Nat.le_trans hend hstop) hfree

/-- The lines of a comment lie in its text, one after the other. -/
theorem lines_spec {start stop : Nat} (h : start ≤ stop) (hstop : stop ≤ text.size) :
    (∀ line ∈ kind.lines text start stop, line.Within text start stop) ∧
      (kind.lines text start stop).Pairwise fun a b => a.stop ≤ b.start := by
  cases kind with
  | doc => exact split_spec within_docLine h hstop rfl
  -- repeated marks are stripped at both ends
  | block opening closing =>
    have hskip : start ≤ text.skipChar opening.last start stop :=
      ((Text.skipChar_eq_iff h).1 rfl).1
    have hskip' : text.skipChar opening.last start stop ≤ stop := Text.skipChar_le h
    have hdrop := @Text.dropEndWhile_bounds text (· == closing.first) _ _ hskip'
    have hspec := @split_spec text (CommentLine.ofSegment text afterAnyBlanks)
      CommentLine.within_ofSegment _ _ hdrop.1 (Nat.le_trans hdrop.2 hstop) _ rfl
    simp only [lines]
    split
    · exact ⟨fun line hline => (hspec.1 line hline).mono hskip hdrop.2, hspec.2⟩
    -- a comment that holds nothing but repeated marks has no lines
    · exact ⟨fun line hline => absurd hline List.not_mem_nil, List.Pairwise.nil⟩

/-! ## A whole pass -/

/-- Each of the spans in `added` is a comment of the kind that is disjoint from all claims at the time it
is claimed. -/
def AreComments (kind : Enclosure) (text : Text) (base : Nat) (claims : ClaimSet) (added : List Span) :
    Prop :=
  ∀ before span after, added = before ++ span :: after →
    (∃ start stop, kind.IsComment text start stop ∧ span = ⟨base + start, base + stop⟩) ∧
      ∀ c ∈ (claims.claimAll before).toList, c.Disjoint span

/-- No comment of the kind is left: each overlaps a claim. -/
def AllClaimed (kind : Enclosure) (text : Text) (base : Nat) (claims : ClaimSet) : Prop :=
  ∀ start stop, kind.IsComment text start stop →
    ∃ c ∈ claims.toList, c.overlaps (base + start) (base + stop) = true

/-- What a pass claims are comments, none of which overlaps an earlier claim. -/
theorem areComments_of_prefix {claims : ClaimSet} {visited : List Found}
    (h : visited <+: (kind.pass text base).visits claims 0) :
    kind.AreComments text base claims (Found.claimed visited) := by
  intro before span after heq
  have hturn : Found.InTurn (fun claims found => ∃ pos, kind.next text base claims pos = some found)
      claims visited :=
    Pass.inTurn_of_prefix _ (fun {_ pos _} hnext => ⟨pos, hnext⟩) h
  obtain ⟨found, rfl, hlt, pos, hnext⟩ := hturn.of_claimed heq
  obtain ⟨comment, hfind, hcases⟩ := next_eq_some hnext
  obtain ⟨hcomment, -⟩ := find?_eq_some hfind
  rcases hcases with ⟨-, hclaim, -⟩ | ⟨hoverlaps, hclaim, -⟩
  -- a skipped comment claims nothing
  · rw [hclaim] at hlt
    exact absurd hlt (Nat.lt_irrefl _)
  · rw [hclaim]
    refine ⟨⟨comment.start, comment.stop, hcomment, rfl⟩, ?_⟩
    refine (ClaimSet.overlaps_eq_false_iff ?_).1 hoverlaps
    have := hcomment.bounds
    omega

/-- After a pass with compact marks every comment overlaps a claim. -/
theorem allClaimed_visits (hopening : kind.opening.Compact) (hclosing : kind.closing.Compact)
    (claims : ClaimSet) :
    kind.AllClaimed text base
      (claims.claimAll (((kind.pass text base).visits claims 0).map Found.claim)) := by
  intro start stop hcomment
  refine (kind.pass text base).settled_of_visits
    (fun pos (x : Nat × Nat) => kind.IsComment text x.1 x.2 ∧ pos ≤ x.1 ∧ text.freeAt pos x.1 = true)
    (fun claims x => ∃ c ∈ claims.toList, c.overlaps (base + x.1) (base + x.2) = true)
    ?_ ?_ ?_ (x := (start, stop)) ?_
  · rintro claims x spans ⟨c, hc, hoverlap⟩
    exact ⟨c, ClaimSet.mem_toList_claimAll_of_mem hc, hoverlap⟩
  -- a pass ends only when its search fails
  · rintro claims pos x hnext ⟨hx, hpos, hfree⟩
    have hnone : kind.find? text pos = none := by
      cases hfind : kind.find? text pos with
      | none => rfl
      | some comment =>
        have hsome : kind.next text base claims pos = none := hnext
        simp only [next, hfind, Option.bind_eq_bind, Option.bind_some] at hsome
        split at hsome <;> cases hsome
    exact not_isComment_of_find?_eq_none hnone hx hpos hfree
  · rintro claims pos found x hnext ⟨hx, hpos, hfree⟩
    rcases insight_of_next hopening hclosing hnext hx hpos hfree with h | h
    · exact .inl ⟨hx, h⟩
    · exact .inr h
  · exact ⟨hcomment, Nat.zero_le _, Text.freeAt_zero hcomment.anchored⟩

variable {σ : Type} [Checkpoint σ]

/-- A pass finds exactly the comments of its kind. However it ends, it has claimed comments that overlap no
earlier claim, and nothing else. If it is not interrupted, every comment overlaps a claim in the end: none
was passed over, although the pass goes on after the closing mark of a claimed comment and after the
opening mark of a skipped one. -/
theorem sweep_claims_comments (kind : Enclosure) (hopening : kind.opening.Compact)
    (hclosing : kind.closing.Compact) (text : Text) (base : Nat) (matchers : Matchers)
    (s : ScanState σ) :
    let sweep : ScanM σ Unit := (kind.pass text base).sweep base matchers 0
    (∃ added, (ScanM.endState sweep s).claims = s.claims.claimAll added ∧
        kind.AreComments text base s.claims added) ∧
      (ScanM.Completes sweep s → kind.AllClaimed text base (ScanM.endState sweep s).claims) := by
  intro sweep
  constructor
  · obtain ⟨visited, hpre, hclaims⟩ := (kind.pass text base).claims_endState base matchers 0 s
    exact ⟨Found.claimed visited, hclaims, areComments_of_prefix hpre⟩
  · intro hcompletes
    rw [(Pass.sweep_ok hcompletes).1]
    exact allClaimed_visits hopening hclosing s.claims

/-- The pass for comments between `/*` and `*/` in `x /* a /* b */ /* c */`, where the comment that starts
at the second opening mark is claimed already: the last comment is claimed as well, and the first one is not. -/
theorem sweep_claims_comments_nested :
    let kind := block ⟨['/', '*'], by decide⟩ ⟨['*', '/'], by decide⟩
    let text := Text.ofString "x /* a /* b */ /* c */"
    let s : ScanState Unlimited := ⟨.ofList [⟨7, 14⟩], [], {}⟩
    let sweep : ScanM Unlimited Unit := (kind.pass text 0).sweep 0 ⟨none, none, .code [kind] []⟩ 0
    kind.opening.Compact ∧ kind.closing.Compact ∧ ScanM.Completes sweep s ∧
      (∃ added, (ScanM.endState sweep s).claims = s.claims.claimAll added ∧
        kind.AreComments text 0 s.claims added) ∧
      kind.AllClaimed text 0 (ScanM.endState sweep s).claims ∧
      (ScanM.endState sweep s).claims.toList = [⟨7, 14⟩, ⟨15, 22⟩] := by
  intro kind text s sweep
  have hopening : kind.opening.Compact := by decide
  have hclosing : kind.closing.Compact := by decide
  have hcompletes : ScanM.Completes sweep s := Pass.completes_sweep (fun _ => rfl)
  obtain ⟨hsound, hcomplete⟩ := sweep_claims_comments kind hopening hclosing text 0
    ⟨none, none, .code [kind] []⟩ s
  exact ⟨hopening, hclosing, hcompletes, hsound, hcomplete hcompletes, by decide +kernel⟩

end CommentTags.Enclosure
