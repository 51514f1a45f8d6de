import CommentTags.Proofs.Enclosed
import CommentTags.Proofs.LineRun
import CommentTags.Proofs.TagRanges

/-!
# The ranges that a scan shows

Every comment is read in text that no earlier claim holds, and what is shown of it lies in its own claim.
So whatever claims a scan starts with, no two of its ranges overlap, and none overlaps an earlier claim.

## Main definitions

* `Span.IsContent`: a span is content of a single line;
* `TagRanges.AreContent`: ranges are disjoint content, in order;
* `Found.ReadsApart`: a comment is read apart from earlier claims.

## Main results

* `Found.InTurn.highlights_spec`: what is shown of comments that are read apart from earlier claims;
* `Matchers.scan_shows_content`: the ranges that a scan answers, and how they lie to the claims.
-/

namespace CommentTags

/-- The span, in a document in which the text starts at `base`, is not empty, lies in the text and within
one line, and does not end with white space. -/
structure Span.IsContent (text : Text) (base : Nat) (span : Span) : Prop where
  nonempty : span.start < span.stop
  base_le : base ≤ span.start
  stop_le : span.stop ≤ base + text.size
  oneLine : text.FreeOfNewlines (span.start - base) (span.stop - base)
  trimmed : ∃ c, text[span.stop - base - 1]? = some c ∧ Unicode.isWhiteSpace c = false

/-- The ranges are content, no two of them overlap, and those of each key are in strict order. -/
structure TagRanges.AreContent (text : Text) (base : Nat) (ranges : TagRanges) : Prop where
  content : ∀ h ∈ ranges.flat, h.span.IsContent text base
  disjoint : ranges.flat.Pairwise fun a b => a.span.Disjoint b.span
  sorted : ∀ entry ∈ ranges.toList, entry.2.Pairwise fun a b => a.start < b.start

variable {text : Text} {base : Nat} {claims : ClaimSet} {matchers : Matchers}

/-- The rest of a line, from a place in its content on, is content unless it is empty. -/
theorem CommentLine.Within.isContent {line : CommentLine} (h : line.Within text 0 text.size) {span : Span}
    (hstart : base + line.start ≤ span.start) (hstop : span.stop = base + line.stop)
    (hlt : span.start < span.stop) : span.IsContent text base := by
  have hle := h.le_hi
  have hend : span.stop - base = line.stop := by omega
  refine ⟨hlt, by omega, by omega, ?_, ?_⟩
  · rw [hend]
    exact h.oneLine.mono (by omega) (Nat.le_refl _)
  · rw [hend]
    exact h.trimmed (by omega)

/-- Highlights that are content and do not overlap make ranges that are content. -/
theorem TagRanges.areContent_collect {highlights : List Highlight}
    (hcontent : ∀ h ∈ highlights, h.span.start < h.span.stop → h.span.IsContent text base)
    (hdisjoint : highlights.Pairwise fun a b => a.span.Disjoint b.span) :
    (collect highlights).AreContent text base where
  content := by
    intro h hmem
    obtain ⟨h', hmem', hlt, -, hspan⟩ := mem_flat_collect.1 hmem
    rw [← hspan]
    exact hcontent h' hmem' hlt
  disjoint := pairwise_flat_collect hdisjoint
  sorted := by
    rintro ⟨key, spans⟩ hmem
    exact sorted_of_mem_collect hdisjoint hmem

/-! ## One comment -/

/-- The lines of the comment are lines of the text, one after the other, which lie in the claim of the
comment and apart from all earlier claims. -/
structure Found.ReadsApart (text : Text) (base : Nat) (claims : ClaimSet) (found : Found) : Prop where
  within : ∀ line ∈ found.lines, line.Within text 0 text.size
  claimed : ∀ line ∈ found.lines, found.claim.start ≤ base + line.start ∧ base + line.stop ≤ found.claim.stop
  apart : ∀ line ∈ found.lines, line.ApartFrom claims base
  ordered : found.lines.Pairwise fun a b => a.stop ≤ b.start

/-- A comment without lines is read apart from everything. -/
theorem Found.readsApart_of_lines_eq_nil {found : Found} (h : found.lines = []) :
    found.ReadsApart text base claims := by
  have hnone (line : CommentLine) (hline : line ∈ found.lines) : False := by
    rw [h] at hline
    exact List.not_mem_nil hline
  refine ⟨fun line hline => (hnone line hline).elim, fun line hline => (hnone line hline).elim,
    fun line hline => (hnone line hline).elim, ?_⟩
  rw [h]
  exact List.Pairwise.nil

/-- An enclosed comment overlaps no earlier claim. -/
theorem Enclosure.readsApart_of_next {kind : Enclosure} {pos : Nat} {found : Found}
    (h : kind.next text base claims pos = some found) : found.ReadsApart text base claims := by
  obtain ⟨comment, hfind, hcases⟩ := next_eq_some h
  obtain ⟨hcomment, -, hbody, hle, hstop, -⟩ := find?_eq_some hfind
  have hbounds := hcomment.bounds
  rcases hcases with ⟨-, -, hlines, -⟩ | ⟨hoverlaps, hclaim, hlines, -⟩
  -- of a skipped comment nothing is read
  · exact Found.readsApart_of_lines_eq_nil hlines
  · have hsize : comment.bodyStop ≤ text.size := by omega
    obtain ⟨hwithin, hordered⟩ := @lines_spec kind text _ _ hle hsize
    rw [ClaimSet.overlaps_eq_false_iff (by omega)] at hoverlaps
    rw [← hlines] at hwithin hordered
    have hclaimed (line : CommentLine) (hline : line ∈ found.lines) :
        base + comment.start ≤ base + line.start ∧ base + line.stop ≤ base + comment.stop := by
      have hlo := (hwithin line hline).lo_le
      have hhi := (hwithin line hline).le_hi
      omega
    refine ⟨fun line hline => (hwithin line hline).mono (Nat.zero_le _) hsize, ?_, ?_, hordered⟩
    · intro line hline
      rw [hclaim]
      exact hclaimed line hline
    · intro line hline c hc
      obtain ⟨hlo, hhi⟩ := hclaimed line hline
      exact (hoverlaps c hc).mono_right hlo hhi

/-- A run is cut where a claim starts. -/
theorem LineRun.readsApart_of_next {marks : List Mark} {pos : Nat} {found : Found}
    (h : next marks text base claims pos = some found) : found.ReadsApart text base claims := by
  obtain ⟨start, mark, hopener, -, -, hcases⟩ := next_eq_some h
  rcases hcases with ⟨-, rfl⟩ | ⟨hfresh, run, hrun, rfl⟩
  · exact Found.readsApart_of_lines_eq_nil rfl
  · have hreached : Reached text mark start start :=
      ⟨occursAt_of_markAt? (isOpener_iff.1 hopener).2, .inl rfl⟩
    obtain ⟨hlines, hordered⟩ := hrun.lines_spec hreached hfresh
    obtain ⟨-, hresume, hsize, -⟩ := hrun.bounds hreached
    refine ⟨?_, ?_, fun line hline => (hlines line hline).2, hordered⟩
    · intro line hline
      exact (hlines line hline).1.mono (Nat.zero_le _) (Nat.le_trans hresume hsize)
    · intro line hline
      have hlo := (hlines line hline).1.lo_le
      have hhi := (hlines line hline).1.le_hi
      show base + start ≤ base + line.start ∧ base + line.stop ≤ base + run.stop
      omega

namespace Found

/-- What is shown of a comment that is read apart from earlier claims. -/
theorem ReadsApart.highlights_spec (matchers : Matchers) {found : Found}
    (h : found.ReadsApart text base claims) :
    (∀ hl ∈ found.highlights matchers text base,
      (hl.span.start < hl.span.stop → hl.span.IsContent text base) ∧
      (∀ c ∈ claims.toList, c.Disjoint hl.span) ∧
      found.claim.start < found.claim.stop ∧
      found.claim.start ≤ hl.span.start ∧ hl.span.stop ≤ found.claim.stop) ∧
    (found.highlights matchers text base).Pairwise fun a b => a.span.Disjoint b.span := by
  have hshown : EachShown ShownIn found.lines
      (matchers.taggedLines text .indented found.inlineMark none found.lines) :=
    matchers.taggedLines_shown .indented found.inlineMark none found.lines
  constructor
  · intro hl hmem
    obtain ⟨line, hline, hlt, hstart, hstop⟩ := mem_highlightsOf hshown hmem
    obtain ⟨hlo, hhi⟩ := h.claimed line hline
    refine ⟨(h.within line hline).isContent hstart hstop, ?_, by omega, by omega, by omega⟩
    intro c hc
    exact (h.apart line hline c hc).mono_right hstart (Nat.le_of_eq hstop)
  · exact (highlightsOf_pairwise hshown h.ordered).imp Or.inl

/-- What is shown of several comments, each of them read apart from the claims made before it: the
highlights do not overlap, and each lies in one of the spans claimed. -/
theorem InTurn.highlights_spec (matchers : Matchers) {visits : List Found}
    (h : InTurn (ReadsApart text base) claims visits) :
    (∀ hl ∈ visits.flatMap (highlights matchers text base),
      (hl.span.start < hl.span.stop → hl.span.IsContent text base) ∧
      (∀ c ∈ claims.toList, c.Disjoint hl.span) ∧
      ∃ s ∈ claimed visits, s.start ≤ hl.span.start ∧ hl.span.stop ≤ s.stop) ∧
    (visits.flatMap (highlights matchers text base)).Pairwise fun a b => a.span.Disjoint b.span := by
  induction visits generalizing claims with
  | nil => exact ⟨fun hl hmem => absurd hmem List.not_mem_nil, List.Pairwise.nil⟩
  | cons found visits ih =>
    obtain ⟨hfound, hrest⟩ := h
    obtain ⟨hfirst, hfirstPairwise⟩ := hfound.highlights_spec matchers
    obtain ⟨hlater, hlaterPairwise⟩ := ih hrest
    rw [List.flatMap_cons]
    constructor
    · intro hl hmem
      rcases List.mem_append.1 hmem with hmem | hmem
      · obtain ⟨hcontent, hapart, hlt, hclaimed⟩ := hfirst hl hmem
        refine ⟨hcontent, hapart, found.claim, ?_, hclaimed⟩
        rw [mem_claimed]
        exact ⟨⟨found, List.mem_cons_self, rfl⟩, hlt⟩
      -- what is apart from the claims made until then is so from those from before
      · obtain ⟨hcontent, hapart, s, hs, hclaimed⟩ := hlater hl hmem
        refine ⟨hcontent, fun c hc => hapart c (ClaimSet.mem_toList_claim.2 (.inl hc)), s, ?_, hclaimed⟩
        obtain ⟨⟨later, hlater, heq⟩, hlt⟩ := mem_claimed.1 hs
        exact mem_claimed.2 ⟨⟨later, List.mem_cons_of_mem _ hlater, heq⟩, hlt⟩
    · rw [List.pairwise_append]
      refine ⟨hfirstPairwise, hlaterPairwise, fun a ha b hb => ?_⟩
      -- the later comment is read apart from the claim of the first one
      obtain ⟨-, -, hlt, hstart, hstop⟩ := hfirst a ha
      have hapart := (hlater b hb).2.1 found.claim (ClaimSet.mem_toList_claim.2 (.inr ⟨rfl, hlt⟩))
      exact (hapart.symm.mono_right hstart hstop).symm

end Found

/-! ## A whole scan -/

/-- Each pass over source code reads comments apart from earlier claims. -/
theorem readsApart_of_mem_codePasses {enclosures : List Enclosure} {lineMarks : List Mark}
    {pass : Pass text} (h : pass ∈ codePasses enclosures lineMarks text base) {pos : Nat} {found : Found}
    (hnext : pass.next claims pos = some found) : found.ReadsApart text base claims := by
  rw [codePasses, List.mem_append] at h
  rcases h with h | h
  · obtain ⟨kind, -, rfl⟩ := List.mem_map.1 h
    exact Enclosure.readsApart_of_next hnext
  · rw [List.mem_singleton.1 h] at hnext
    exact LineRun.readsApart_of_next hnext

/-- The lines of plain text are lines of the text, one after the other. -/
theorem plainLines_spec (text : Text) :
    (∀ line ∈ plainLines text, line.Within text 0 text.size) ∧
      (plainLines text).Pairwise fun a b => a.stop ≤ b.start := by
  obtain ⟨hin, hsorted⟩ := @Text.segments_spec text 0 text.size (Nat.zero_le _)
  refine CommentLine.within_of_segments ?_ (fun seg hseg => ⟨(hin seg hseg).1, (hin seg hseg).2.2.1⟩)
    hsorted
  rw [plainLines, List.forall₂_map_right_iff, List.forall₂_same]
  intro seg hseg
  obtain ⟨-, hle, hend, hfree⟩ := hin seg hseg
  exact CommentLine.within_ofSegment hle hend hfree

namespace ScanM

variable {σ : Type}

/-- The step does the same whatever is claimed, and it claims nothing. -/
def IgnoresClaims (x : ScanM σ Unit) : Prop :=
  ∀ (s : ScanState σ) (claims : ClaimSet), x { s with claims } =
    match x s with
    | .ok a t => .ok a { t with claims }
    | .error e t => .error e { t with claims }

/-- Two steps that ignore the claims do so together. -/
theorem IgnoresClaims.bind {x y : ScanM σ Unit} (hx : IgnoresClaims x) (hy : IgnoresClaims y) :
    IgnoresClaims (x >>= fun _ => y) := by
  intro s claims
  show EStateM.bind x (fun _ => y) { s with claims } = match EStateM.bind x (fun _ => y) s with
    | .ok a t => .ok a { t with claims }
    | .error e t => .error e { t with claims }
  rw [EStateM.bind, EStateM.bind, hx s claims]
  cases x s with
  | ok a t => exact hy t claims
  | error e t => rfl

variable [Checkpoint σ]

theorem ignoresClaims_consult : IgnoresClaims (consult : ScanM σ Unit) := by
  intro s claims
  rw [consult, consult]
  cases Checkpoint.consult s.checkpoint with
  | mk answer checkpoint => cases answer <;> rfl

/-- Highlights are recorded whatever is claimed. -/
theorem ignoresClaims_recordAll (shown : List (Option TaggedLine)) :
    IgnoresClaims (recordAll text base shown : ScanM σ Unit) := by
  intro s claims
  induction shown generalizing s with
  | nil => rfl
  | cons t rest ih =>
    cases t with
    | none => exact ih s
    | some line =>
      rw [recordAll_cons_some, recordAll_cons_some]
      by_cases hhead : line.isHead = true
      · rw [if_pos hhead, if_pos hhead, ignoresClaims_consult s claims]
        cases (consult : ScanM σ Unit) s with
        | ok a t => exact ih { t with found := line.highlight text base :: t.found }
        | error e t => rfl
      · rw [if_neg hhead, if_neg hhead]
        exact ih { s with found := line.highlight text base :: s.found }

end ScanM

namespace Matchers

variable {σ : Type} [Checkpoint σ]

/-- In plain text a scan records what the lines show. -/
theorem scanText_of_plainText (hshape : matchers.shape = .plainText) :
    (matchers.scanText text base : ScanM σ Unit) =
      ScanM.consult >>= fun _ => ScanM.consult >>= fun _ =>
        ScanM.recordAll text base
          (matchers.taggedLines text .untilBlank none none (plainLines text)) := by
  rw [scanText, hshape]

/-- In plain text a scan neither looks at the claims nor changes them. -/
theorem scan_withClaims_of_plainText (hshape : matchers.shape = .plainText) (text : String) (base : Nat)
    (claims claims' : ClaimSet) (checkpoint : σ) :
    matchers.scan text base claims' checkpoint =
      { matchers.scan text base claims checkpoint with claims := claims' } := by
  have hignores : ScanM.IgnoresClaims (matchers.scanText (Text.ofString text) base : ScanM σ Unit) := by
    rw [scanText_of_plainText hshape]
    exact ScanM.ignoresClaims_consult.bind
      (ScanM.ignoresClaims_consult.bind (ScanM.ignoresClaims_recordAll _))
  rw [scan, scan]
  split
  · rfl
  · rw [hignores ⟨claims, [], checkpoint⟩ claims']
    cases matchers.scanText (Text.ofString text) base ⟨claims, [], checkpoint⟩ with
    | ok a t => rfl
    | error e t => rfl

/-- A scan of plain text that is not interrupted answers what the lines of the text show. -/
theorem scan_plainText_ok (hshape : matchers.shape = .plainText) {text : String} {checkpoint : σ}
    {ranges : TagRanges} (h : (matchers.scan text base claims checkpoint).result = .ok ranges) :
    ranges.AreContent (Text.ofString text) base := by
  rw [scan] at h
  split at h
  -- nothing is looked for
  · cases h
    rw [← TagRanges.collect_nil]
    exact TagRanges.areContent_collect (fun hl hmem => absurd hmem List.not_mem_nil) List.Pairwise.nil
  · split at h
    · next a t hscan =>
      cases h
      rw [scanText_of_plainText hshape, ScanM.bind_eq_ok_iff] at hscan
      obtain ⟨⟨⟩, u, hconsult, hscan⟩ := hscan
      obtain ⟨⟨⟩, v, hconsult', hrecord⟩ := ScanM.bind_eq_ok_iff.1 hscan
      have hfound := (ScanM.recordAll_ok hrecord).2
      rw [(ScanM.consult_ok hconsult').2, (ScanM.consult_ok hconsult).2, List.append_nil] at hfound
      rw [hfound, List.reverse_reverse]
      obtain ⟨hwithin, hordered⟩ := plainLines_spec (Text.ofString text)
      have hshown := @taggedLines_shown matchers (Text.ofString text) .untilBlank none none
        (plainLines (Text.ofString text))
      refine TagRanges.areContent_collect ?_ ((highlightsOf_pairwise hshown hordered).imp Or.inl)
      intro hl hmem hlt
      obtain ⟨line, hline, -, hstart, hstop⟩ := mem_highlightsOf hshown hmem
      exact (hwithin line hline).isContent hstart hstop hlt
    · cases h

/-- A scan of source code that is not interrupted answers what the visited comments show, and claims
them. -/
theorem scan_code_ok {enclosures : List Enclosure} {lineMarks : List Mark}
    (hshape : matchers.shape = .code enclosures lineMarks) {text : String} {checkpoint : σ}
    (hactive : (matchers.isInert || text.isEmpty) = false) {ranges : TagRanges}
    (h : (matchers.scan text base claims checkpoint).result = .ok ranges) :
    let visits := visitsOf (codePasses enclosures lineMarks (Text.ofString text) base) claims
    (matchers.scan text base claims checkpoint).claims = claims.claimAll (Found.claimed visits) ∧
      ranges = .collect (visits.flatMap (Found.highlights matchers (Text.ofString text) base)) := by
  intro visits
  rw [scan, hactive] at h ⊢
  rw [if_neg Bool.false_ne_true] at h ⊢
  split at h
  · next a t hscan =>
    cases h
    rw [scanText, ScanM.bind_eq_ok_iff] at hscan
    obtain ⟨⟨⟩, u, hconsult, hscan⟩ := hscan
    obtain ⟨hclaims, hfound⟩ := ScanM.consult_ok hconsult
    rw [hshape] at hscan
    obtain ⟨hclaims', hfound'⟩ := sweepAll_ok hscan
    rw [hclaims] at hclaims' hfound'
    constructor
    · rw [Found.claimAll_claimed]
      exact hclaims'
    · rw [hfound', hfound, List.append_nil, List.reverse_reverse]
  · cases h

/-- However a scan of source code ends, it has claimed the first of the comments that it would visit, and
nothing else. -/
theorem exists_claims_scan_code {enclosures : List Enclosure} {lineMarks : List Mark}
    (hshape : matchers.shape = .code enclosures lineMarks) (text : String) (base : Nat)
    (claims : ClaimSet) (checkpoint : σ) :
    ∃ visited,
      visited <+: visitsOf (codePasses enclosures lineMarks (Text.ofString text) base) claims ∧
      (matchers.scan text base claims checkpoint).claims = claims.claimAll (visited.map Found.claim) := by
  rw [scan]
  split
  -- nothing is looked for
  · exact ⟨[], List.nil_prefix, rfl⟩
  · split
    · next a t hscan =>
      rw [scanText, ScanM.bind_eq_ok_iff, hshape] at hscan
      obtain ⟨⟨⟩, u, hconsult, hscan⟩ := hscan
      obtain ⟨hclaims, -⟩ := sweepAll_ok hscan
      rw [(ScanM.consult_ok hconsult).1] at hclaims
      exact ⟨_, List.prefix_rfl, hclaims⟩
    · next e t hscan =>
      rw [scanText, ScanM.bind_eq_error_iff, hshape] at hscan
      rcases hscan with hconsult | ⟨⟨⟩, u, hconsult, hscan⟩
      · exact ⟨[], List.nil_prefix, ScanM.consult_error hconsult⟩
      · obtain ⟨visited, hpre, hclaims⟩ := sweepAll_error hscan
        rw [(ScanM.consult_ok hconsult).1] at hpre hclaims
        exact ⟨visited, hpre, hclaims⟩

/-- A scan with a checkpoint that allows work is not interrupted, and the checkpoint still allows work
afterwards. -/
theorem scan_of_allows (matchers : Matchers) (text : String) (base : Nat) (claims : ClaimSet)
    {checkpoint : σ} (h : Checkpoint.Allows checkpoint) :
    ∃ ranges, (matchers.scan text base claims checkpoint).result = .ok ranges ∧
      Checkpoint.Allows (matchers.scan text base claims checkpoint).checkpoint := by
  rw [scan]
  split
  · exact ⟨_, rfl, h⟩
  · obtain ⟨u, hconsult, hallows⟩ := @ScanM.consult_of_allows _ _ ⟨claims, [], checkpoint⟩ h
    obtain ⟨t, hscan, hallows'⟩ : ∃ t,
        matchers.scanText (Text.ofString text) base ⟨claims, [], checkpoint⟩ = .ok () t ∧
          Checkpoint.Allows t.checkpoint := by
      cases hshape : matchers.shape with
      | code enclosures lineMarks =>
        obtain ⟨t, hsweeps, hallows'⟩ := sweepAll_of_allows
          (codePasses enclosures lineMarks (Text.ofString text) base) base matchers hallows
        refine ⟨t, ?_, hallows'⟩
        rw [scanText, ScanM.bind_eq_ok_iff, hshape]
        exact ⟨(), u, hconsult, hsweeps⟩
      -- in plain text the checkpoint is consulted once more before the lines are read
      | plainText =>
        obtain ⟨v, hconsult', hallows'⟩ := ScanM.consult_of_allows hallows
        obtain ⟨t, hrecord, hallows''⟩ := ScanM.recordAll_of_allows (Text.ofString text) base
          (matchers.taggedLines (Text.ofString text) .untilBlank none none
            (plainLines (Text.ofString text))) hallows'
        refine ⟨t, ?_, hallows''⟩
        rw [scanText_of_plainText hshape, ScanM.bind_eq_ok_iff]
        exact ⟨(), u, hconsult, ScanM.bind_eq_ok_iff.2 ⟨(), v, hconsult', hrecord⟩⟩
    rw [hscan]
    exact ⟨_, rfl, hallows'⟩

/-- Where there is something to look for, a scan is interrupted before it starts if the checkpoint does not
agree at first. -/
theorem scan_of_refuses {matchers : Matchers} (hlive : matchers.isInert = false) {text : String}
    (htext : text.isEmpty = false) (base : Nat) (claims : ClaimSet) {checkpoint : σ}
    (h : (Checkpoint.consult checkpoint).1 = false) :
    (matchers.scan text base claims checkpoint).result = .error .cancelled := by
  have hconsult := @ScanM.consult_of_refuses _ _ ⟨claims, [], checkpoint⟩ h
  have hscan : matchers.scanText (Text.ofString text) base ⟨claims, [], checkpoint⟩ =
      .error .cancelled ⟨claims, [], (Checkpoint.consult checkpoint).2⟩ := by
    rw [scanText, ScanM.bind_eq_error_iff]
    exact .inl hconsult
  rw [scan, hlive, htext, Bool.or_self, if_neg Bool.false_ne_true, hscan]

/-- A scan whose checkpoint never fails is not interrupted. -/
theorem scan_completes (hσ : ∀ c : σ, (Checkpoint.consult c).1 = true) (matchers : Matchers) (text : String)
    (base : Nat) (claims : ClaimSet) (checkpoint : σ) :
    ∃ ranges, (matchers.scan text base claims checkpoint).result = .ok ranges := by
  obtain ⟨ranges, hresult, -⟩ :=
    scan_of_allows matchers text base claims (Checkpoint.allows_of_forall hσ checkpoint)
  exact ⟨ranges, hresult⟩

/-- The ranges that a scan answers are not empty, lie in the text, each within one line and without white
space at its end; no two of them overlap, and those of each tag are in strict order. In source code no
range overlaps a claim from before the scan, and each lies in one claim that the scan has made; claims are
only added. In plain text claims are neither looked at nor changed. All this holds whatever was claimed
before. -/
theorem scan_shows_content (matchers : Matchers) (text : String) (offset : Nat) (claims : ClaimSet)
    (checkpoint : σ) {ranges : TagRanges}
    (h : (matchers.scan text offset claims checkpoint).result = .ok ranges) :
    ranges.AreContent (Text.ofString text) offset ∧
      match matchers.shape with
      | .code _ _ =>
        ∃ added, (matchers.scan text offset claims checkpoint).claims.toList.Perm
            (claims.toList ++ added) ∧
          ∀ hl ∈ ranges.flat, (∀ c ∈ claims.toList, c.Disjoint hl.span) ∧
            ∃ s ∈ added, s.start ≤ hl.span.start ∧ hl.span.stop ≤ s.stop
      | .plainText => ∀ claims', matchers.scan text offset claims' checkpoint =
          { matchers.scan text offset claims checkpoint with claims := claims' } := by
  cases hshape : matchers.shape with
  | code enclosures lineMarks =>
    obtain ⟨visits, hturn, hclaims, rfl⟩ : ∃ visits,
        Found.InTurn (Found.ReadsApart (Text.ofString text) offset) claims visits ∧
          (matchers.scan text offset claims checkpoint).claims =
            claims.claimAll (Found.claimed visits) ∧
          ranges = .collect (visits.flatMap (Found.highlights matchers (Text.ofString text) offset)) := by
      by_cases hactive : (matchers.isInert || text.isEmpty) = true
      -- nothing is looked for
      · rw [scan, if_pos hactive] at h ⊢
        cases h
        exact ⟨[], trivial, rfl, TagRanges.collect_nil.symm⟩
      · rw [Bool.not_eq_true] at hactive
        exact ⟨_, inTurn_visitsOf (fun _ hpass _ _ _ hnext => readsApart_of_mem_codePasses hpass hnext)
          claims, scan_code_ok hshape hactive h⟩
    obtain ⟨hspec, hdisjoint⟩ := hturn.highlights_spec matchers
    refine ⟨?_, Found.claimed visits, ?_, ?_⟩
    · exact TagRanges.areContent_collect (fun hl hmem => (hspec hl hmem).1) hdisjoint
    · rw [hclaims]
      refine ClaimSet.toList_claimAll_perm.trans ?_
      rw [Found.claimed, List.filter_filter]
      simp only [Bool.and_self]
      exact List.Perm.refl _
    · intro hl hmem
      obtain ⟨hl', hmem', -, -, hspan⟩ := TagRanges.mem_flat_collect.1 hmem
      rw [← hspan]
      exact (hspec hl' hmem').2
  | plainText =>
    exact ⟨scan_plainText_ok hshape h,
      fun claims' => scan_withClaims_of_plainText hshape text offset claims claims' checkpoint⟩

/-- Two comments in a text at offset 5, where a claim starts in the first: the scan is not interrupted, and
what is shown of the first comment ends at the claim. -/
theorem scan_shows_content_cut :
    let matchers : Matchers := ⟨none, some ⟨"^(?:!)", [['!']]⟩, .code [.doc] [⟨['#'], by decide⟩]⟩
    let claims := ClaimSet.ofList [⟨8, 9⟩]
    let scanned := matchers.scan "# !a\n# !" 5 claims Unlimited.mk
    ∃ ranges, scanned.result = .ok ranges ∧ ranges.toList = [("!", [⟨7, 8⟩, ⟨12, 13⟩])] ∧
      ranges.AreContent (Text.ofString "# !a\n# !") 5 ∧
      ∃ added, scanned.claims.toList.Perm (claims.toList ++ added) ∧
        ∀ hl ∈ ranges.flat, (∀ c ∈ claims.toList, c.Disjoint hl.span) ∧
          ∃ s ∈ added, s.start ≤ hl.span.start ∧ hl.span.stop ≤ s.stop := by
  intro matchers claims scanned
  have heval : scanned.result.toOption.map TagRanges.toList =
      some [("!", [⟨7, 8⟩, ⟨12, 13⟩])] := by
    simp only [scanned, Matchers.scan, TagRanges.collect, TagRanges.normalize_eq_insertionSort]
    decide +kernel
  cases hresult : scanned.result with
  | error e =>
    rw [hresult] at heval
    cases heval
  | ok ranges =>
    rw [hresult] at heval
    obtain ⟨hcontent, hclaims⟩ := scan_shows_content matchers _ 5 claims Unlimited.mk hresult
    exact ⟨ranges, rfl, Option.some.inj heval, hcontent, hclaims⟩

end Matchers

end CommentTags
