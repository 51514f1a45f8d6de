import CommentTags.Language.Registry
import CommentTags.Proofs.CommentMarks
import CommentTags.Proofs.Scan

/-!
# Claims do not overlap

An enclosed comment is claimed only if it overlaps no claim. A run of line comments is claimed as one
span over many lines, although each line is held against the claims on its own, and nothing looks at the
line feeds and blanks between two lines of a run. No claim starts there, because no enclosed comment opens
with a blank or a line feed.

So if a scan starts with claims that do not overlap, and in a text that is not claimed, no two claims
overlap when it ends, whether or not it was interrupted.

## Main definitions

* `Mark.StartsSolid` and `Span.StartsSolid`: a mark, or a claim, does not start with a blank or a line
  feed;
* `Found.ClaimsApart`: what a comment claims overlaps no earlier claim.

## Main results

* `LineRun.Follows.stop_le_start`: a run ends before every claim that starts after its first mark;
* `Matchers.scan_claims_disjoint`: no two claims overlap after a scan.
-/

namespace CommentTags

variable {text : Text} {base : Nat} {claims : ClaimSet}

instance (a b : Span) : Decidable (a.Disjoint b) :=
  inferInstanceAs (Decidable (_ ∨ _))

/-- The mark does not start with a blank or a line feed. -/
def Mark.StartsSolid (mark : Mark) : Prop :=
  isBlank mark.first = false ∧ mark.first ≠ '\n'

instance (mark : Mark) : Decidable mark.StartsSolid :=
  inferInstanceAs (Decidable (_ ∧ _))

/-- The span, in a document in which the text starts at `base`, does not start at a blank or a line feed
of the text. -/
def Span.StartsSolid (text : Text) (base : Nat) (span : Span) : Prop :=
  ∀ i, span.start = base + i → text.blankAt i = false ∧ text[i]? ≠ some '\n'

/-- Where a solid mark stands, there is neither a blank nor a line feed. -/
theorem Mark.StartsSolid.startsSolid {mark : Mark} (h : mark.StartsSolid) {i : Nat}
    (hocc : text.occursAt mark.chars i = true) (stop : Nat) :
    Span.StartsSolid text base ⟨base + i, stop⟩ := by
  intro j hj
  have heq : i = j := Nat.add_left_cancel hj
  subst heq
  have hfirst : text[i]? = some mark.first := by
    have hhead : mark.chars[0]? = some mark.first := by
      rw [← List.head?_eq_getElem?, List.head?_eq_some_head mark.nonempty, Mark.first]
    exact Text.occursAt_iff.1 hocc 0 _ hhead
  constructor
  · rw [Text.blankAt, hfirst, Option.any_some]
    exact h.1
  · rw [hfirst]
    exact fun hnewline => h.2 (Option.some.inj hnewline)

/-- A claim that takes no position of the text does not start at one. -/
theorem Span.startsSolid_of_outside {span : Span} (hlt : span.start < span.stop)
    (houtside : ∀ i, i < text.size → span.contains (base + i) = false) : span.StartsSolid text base := by
  intro i hi
  have hsize : text.size ≤ i := by
    refine Nat.le_of_not_lt fun hlt' => ?_
    have hnot := houtside i hlt'
    rw [← Bool.not_eq_true, Span.contains_iff] at hnot
    omega
  have hnone : text[i]? = none := Array.getElem?_eq_none hsize
  rw [Text.blankAt, hnone]
  exact ⟨rfl, by simp⟩

/-! ## Claims in turn -/

/-- Claiming a span that overlaps no claim keeps claims from overlapping. -/
theorem ClaimSet.pairwise_disjoint_claim {s : Span} (hclaims : claims.toList.Pairwise Span.Disjoint)
    (hs : s.start < s.stop → ∀ c ∈ claims.toList, c.Disjoint s) :
    (claims.claim s).toList.Pairwise Span.Disjoint := by
  by_cases hlt : s.start < s.stop
  · rw [(ClaimSet.toList_claim_perm hlt).pairwise_iff Span.Disjoint.symm, List.pairwise_cons]
    exact ⟨fun c hc => (hs hlt c hc).symm, hclaims⟩
  · rw [ClaimSet.claim_of_isEmpty (Span.isEmpty_iff.2 (Nat.le_of_not_lt hlt))]
    exact hclaims

namespace Found

/-- What the comment claims, if anything, overlaps no earlier claim. -/
def ClaimsApart (claims : ClaimSet) (found : Found) : Prop :=
  found.claim.start < found.claim.stop → ∀ c ∈ claims.toList, c.Disjoint found.claim

/-- Comments that claim apart from all earlier claims keep claims from overlapping. -/
theorem InTurn.pairwise_disjoint {visits : List Found} (h : InTurn ClaimsApart claims visits)
    (hclaims : claims.toList.Pairwise Span.Disjoint) :
    (claims.claimAll (visits.map Found.claim)).toList.Pairwise Span.Disjoint := by
  induction visits generalizing claims with
  | nil => exact hclaims
  | cons found visits ih => exact ih h.2 (ClaimSet.pairwise_disjoint_claim hclaims h.1)

/-- What holds of comments in turn may be weakened. -/
theorem InTurn.imp {R S : ClaimSet → Found → Prop} {visits : List Found}
    (himp : ∀ {claims found}, R claims found → S claims found) (h : InTurn R claims visits) :
    InTurn S claims visits := by
  induction visits generalizing claims with
  | nil => trivial
  | cons found visits ih => exact ⟨himp h.1, ih h.2⟩

end Found

/-! ## Enclosed comments -/

/-- An enclosed comment is claimed apart from all earlier claims, and its claim starts with its opening
mark. -/
theorem Enclosure.claimsApart_of_next {kind : Enclosure} (hopening : kind.opening.StartsSolid) {pos : Nat}
    {found : Found} (h : kind.next text base claims pos = some found) :
    found.ClaimsApart claims ∧ found.claim.StartsSolid text base := by
  obtain ⟨comment, hfind, hcases⟩ := next_eq_some h
  obtain ⟨hcomment, -⟩ := find?_eq_some hfind
  rcases hcases with ⟨-, hclaim, -⟩ | ⟨hoverlaps, hclaim, -⟩
  -- a skipped comment claims nothing
  · rw [Found.ClaimsApart, hclaim]
    exact ⟨fun hlt => absurd hlt (Nat.lt_irrefl _), hopening.startsSolid hcomment.opens _⟩
  · rw [Found.ClaimsApart, hclaim]
    exact ⟨fun hlt => (ClaimSet.overlaps_eq_false_iff hlt).1 hoverlaps, hopening.startsSolid hcomment.opens _⟩

/-- After the passes for enclosed comments no claim starts at a blank or a line feed of the text, if none
did before. -/
theorem Enclosure.startsSolid_visitsOf {enclosures : List Enclosure}
    (hopening : ∀ kind ∈ enclosures, kind.opening.StartsSolid)
    (hclaims : ∀ c ∈ claims.toList, c.StartsSolid text base) :
    let visits := visitsOf (enclosures.map (·.pass text base)) claims
    Found.InTurn Found.ClaimsApart claims visits ∧
      ∀ c ∈ (claims.claimAll (visits.map Found.claim)).toList, c.StartsSolid text base := by
  intro visits
  have hturn : Found.InTurn
      (fun claims found => found.ClaimsApart claims ∧ found.claim.StartsSolid text base) claims visits := by
    refine inTurn_visitsOf ?_ claims
    intro pass hpass claims pos found hnext
    obtain ⟨kind, hkind, rfl⟩ := List.mem_map.1 hpass
    exact Enclosure.claimsApart_of_next (hopening kind hkind) hnext
  refine ⟨hturn.imp And.left, fun c hc => ?_⟩
  rcases ClaimSet.mem_toList_claimAll.1 hc with hc | ⟨hc, -⟩
  · exact hclaims c hc
  · obtain ⟨found, hfound, rfl⟩ := List.mem_map.1 hc
    obtain ⟨spans, -, hsolid⟩ := hturn.of_mem hfound
    exact hsolid

/-! ## Runs of line comments -/

namespace LineRun

variable {marks : List Mark} {mark : Mark}

/-- A run ends before every claim that starts after its first mark, unless the claim starts at a blank or
a line feed: none starts in one of its lines, between two lines or at a further mark. -/
theorem Follows.stop_le_start {stop p : Nat} {run : LineRun}
    (h : Follows text base claims mark stop p run) (hreached : Reached text mark stop p) {c : Span}
    (hc : c ∈ claims.toList) (hsolid : c.StartsSolid text base) (hstart : base + p < c.start) :
    base + run.stop ≤ c.start := by
  -- a claim that starts after a mark does so beyond the part of the line that is read
  have hbeyond {p cut : Nat} (hstart : base + p < c.start)
      (hclear : ¬ claims.StartsWithin (base + p) (base + cut)) : base + cut ≤ c.start :=
    Nat.le_of_not_lt fun hlt => hclear ⟨c, hc, hstart, hlt⟩
  induction h with
  | @markCut stop p _ =>
    have hle := hreached.stop_le
    show base + stop ≤ c.start
    omega
  | lineCut _ _ hclear _ => exact hbeyond hstart hclear
  | ends _ hclear _ => exact hbeyond hstart hclear
  | @goesOn stop p eol next run heol hclear hlt hnext hunclaimed _ ih =>
    have hreached' := hreached.next heol hlt hnext
    have hline := hbeyond hstart hclear
    refine ih hreached' (Nat.lt_of_not_le fun hle => ?_)
    rcases Nat.eq_or_lt_of_le hle with heq | hgap
    -- the mark of the next line is not claimed
    · have hnot := (ClaimSet.contains_eq_false_iff.1 hunclaimed) c hc
      have hne := ClaimSet.start_lt_stop_of_mem hc
      omega
    -- between the lines there are only a line feed and blanks
    · obtain ⟨hblank, hnewline⟩ := hsolid (c.start - base) (by omega)
      rcases hreached'.between (i := c.start - base) (by omega) (by omega) with hfeed | hspace
      · exact hnewline hfeed
      · rw [hblank] at hspace
        cases hspace

/-- A run is claimed apart from all earlier claims, if each of these ends before the pass starts to look or
does not start at a blank or a line feed. So it is with the claims at the next step. -/
theorem claimsApart_of_next {pos : Nat} {found : Found}
    (hclaims : ∀ c ∈ claims.toList, c.stop ≤ base + pos ∨ c.StartsSolid text base)
    (h : next marks text base claims pos = some found) :
    found.ClaimsApart claims ∧ ∀ c ∈ (claims.claim found.claim).toList,
      c.stop ≤ base + found.resume ∨ c.StartsSolid text base := by
  have hadvance : pos < found.resume := (next_advances h).1
  -- earlier claims are where they were
  have hearlier : ∀ c ∈ claims.toList, c.stop ≤ base + found.resume ∨ c.StartsSolid text base :=
    fun c hc => (hclaims c hc).imp_left fun hle => by omega
  obtain ⟨start, mark, hopener, hpos, -, hcases⟩ := next_eq_some h
  rcases hcases with ⟨-, hfound⟩ | ⟨hfresh, run, hrun, hfound⟩
  -- a mark that is claimed already claims nothing
  · have hempty : found.claim = ⟨base + start, base + start⟩ := by rw [hfound]
    rw [Found.ClaimsApart, hempty]
    refine ⟨fun hlt => absurd hlt (Nat.lt_irrefl _), ?_⟩
    rw [ClaimSet.claim_of_isEmpty (Span.isEmpty_iff.2 (Nat.le_refl _))]
    exact hearlier
  · have hreached : Reached text mark start start :=
      ⟨occursAt_of_markAt? (isOpener_iff.1 hopener).2, .inl rfl⟩
    have hclaim : found.claim = ⟨base + start, base + run.stop⟩ := by rw [hfound]
    have hresume : run.resume ≤ found.resume := by
      rw [hfound]
      exact Nat.le_max_left _ _
    rw [Found.ClaimsApart, hclaim]
    constructor
    · intro _ c hc
      rcases ClaimSet.contains_eq_false_iff.1 hfresh c hc with hafter | hbefore
      · rcases hclaims c hc with hpassed | hsolid
        · have hne := ClaimSet.start_lt_stop_of_mem hc
          omega
        · exact .inr (hrun.stop_le_start hreached hc hsolid hafter)
      · exact .inl hbefore
    · intro c hc
      rcases ClaimSet.mem_toList_claim.1 hc with hc | ⟨rfl, -⟩
      · exact hearlier c hc
      · left
        have hstop := (hrun.bounds hreached).2.1
        show base + run.stop ≤ base + found.resume
        omega

/-- A pass for line comments claims apart from all earlier claims, if none of those starts at a blank or a
line feed of the text. -/
theorem claimsApart_visits (marks : List Mark)
    (hclaims : ∀ c ∈ claims.toList, c.StartsSolid text base) :
    Found.InTurn Found.ClaimsApart claims ((pass marks text base).visits claims 0) := by
  refine (pass marks text base).inTurn_visits_of_invariant
    (fun claims pos => ∀ c ∈ claims.toList, c.stop ≤ base + pos ∨ c.StartsSolid text base)
    (fun hinv hnext => claimsApart_of_next hinv hnext) ?_
  exact fun c hc => .inr (hclaims c hc)

end LineRun

/-! ## A whole scan -/

/-- In a text that is not claimed all passes claim apart from all earlier claims. -/
theorem claimsApart_codePasses {enclosures : List Enclosure} (lineMarks : List Mark)
    (hopening : ∀ kind ∈ enclosures, kind.opening.StartsSolid)
    (houtside : ∀ i, i < text.size → claims.contains (base + i) = false) :
    Found.InTurn Found.ClaimsApart claims (visitsOf (codePasses enclosures lineMarks text base) claims) := by
  have hsolid : ∀ c ∈ claims.toList, c.StartsSolid text base := by
    intro c hc
    refine Span.startsSolid_of_outside (ClaimSet.start_lt_stop_of_mem hc) fun i hi => ?_
    rw [← Bool.not_eq_true]
    intro hcontains
    have hclaimed : claims.contains (base + i) = true := ClaimSet.contains_iff.2 ⟨c, hc, hcontains⟩
    rw [houtside i hi] at hclaimed
    cases hclaimed
  obtain ⟨henclosed, hsolid'⟩ := Enclosure.startsSolid_visitsOf hopening hsolid
  rw [codePasses, visitsOf_append, Found.inTurn_append]
  refine ⟨henclosed, ?_⟩
  rw [visitsOf, visitsOf, List.append_nil]
  exact LineRun.claimsApart_visits lineMarks hsolid'

/-- However a scan of source code ends, its claims are those from before and some that were made apart from
all earlier ones. -/
theorem Matchers.pairwise_disjoint_scan {σ : Type} [Checkpoint σ] {matchers : Matchers}
    {enclosures : List Enclosure} {lineMarks : List Mark}
    (hshape : matchers.shape = .code enclosures lineMarks)
    (hopening : ∀ kind ∈ enclosures, kind.opening.StartsSolid) (text : String) (offset : Nat)
    (checkpoint : σ) (hclaims : claims.toList.Pairwise Span.Disjoint)
    (houtside : ∀ i, i < (Text.ofString text).size → claims.contains (offset + i) = false) :
    (matchers.scan text offset claims checkpoint).claims.toList.Pairwise Span.Disjoint := by
  obtain ⟨visited, ⟨rest, hrest⟩, hscan⟩ :=
    exists_claims_scan_code hshape text offset claims checkpoint
  have hturn := claimsApart_codePasses lineMarks hopening houtside
  rw [← hrest, Found.inTurn_append] at hturn
  rw [hscan]
  exact hturn.1.pairwise_disjoint hclaims

/-! ## Marks of a language -/

namespace CommentMarks

/-- No opening mark of a block comment starts with a blank or a line feed. -/
def OpenSolid (marks : CommentMarks) : Prop :=
  ∀ pair ∈ marks.block, ∀ mark, Mark.ofString? pair.1 = some mark → mark.StartsSolid

/-- Each pair of marks in a collection comes from one of the rules. -/
theorem mem_block_ofRules {rules : List CommentRule} {pair : String × String}
    (h : pair ∈ (ofRules rules).block) : ∃ rule ∈ rules, rule.block = some pair := by
  rw [block_ofRules, List.mem_eraseDups] at h
  obtain ⟨rule, hrule, husable⟩ := List.mem_filterMap.1 h
  exact ⟨rule, hrule, CommentRule.block_of_usableBlock husable⟩

end CommentMarks

/-- The opening mark of a block comment in a well-known language does not start with a blank or a line
feed. -/
theorem startsSolid_of_builtinRule? {id : String} {rule : CommentRule} (h : builtinRule? id = some rule)
    {pair : String × String} (hpair : rule.block = some pair) {mark : Mark}
    (hmark : Mark.ofString? pair.1 = some mark) : mark.StartsSolid := by
  have hall : builtinRules.all (fun group => group.2.block.all fun pair =>
      (Mark.ofString? pair.1).all fun mark => decide mark.StartsSolid) = true := by
    decide +kernel
  obtain ⟨group, hgroup, rfl⟩ := Option.map_eq_some_iff.1 h
  have hblock := List.all_eq_true.1 hall group (List.mem_of_find?_eq_some hgroup)
  rw [hpair, Option.all_some, hmark, Option.all_some, decide_eq_true_eq] at hblock
  exact hblock

/-- Where no language is registered, the marks of a document are those of a well-known language. -/
theorem Registry.openSolid_marks_empty (files : Files) (id : String) :
    (Registry.empty.marks files id).value.OpenSolid := by
  intro pair hpair mark hmark
  have hvalue : (Registry.empty.marks files id).value =
      .ofRules ([(builtinRule? id).getD {}] ++ Registry.extraRules id) := by
    simp [Registry.marks, Registry.empty, Registry.contributors, Registry.definition?, Registry.rulesOf,
      Registry.rule, Registry.fileRule]
  rw [hvalue] at hpair
  obtain ⟨rule, hrule, hblock⟩ := CommentMarks.mem_block_ofRules hpair
  rcases List.mem_append.1 hrule with hrule | hrule
  · rw [List.mem_singleton.1 hrule] at hblock
    cases hbuiltin : builtinRule? id with
    | none =>
      rw [hbuiltin] at hblock
      cases hblock
    | some rule =>
      rw [hbuiltin] at hblock
      exact startsSolid_of_builtinRule? hbuiltin hblock hmark
  -- further marks are marks of line comments
  · rw [Registry.extraRules] at hrule
    split at hrule
    · rw [List.mem_singleton.1 hrule] at hblock
      cases hblock
    · cases hrule

namespace Matchers

/-- The enclosed comments that are looked for open with the marks of block comments, or as doc comments
do. -/
theorem startsSolid_of_mem_enclosuresOf {marks : CommentMarks} (hmarks : marks.OpenSolid)
    {options : MatcherOptions} {kind : Enclosure} (h : kind ∈ enclosuresOf marks options) :
    kind.opening.StartsSolid := by
  rw [enclosuresOf] at h
  split at h
  · rcases List.mem_append.1 h with h | h
    · split at h
      · rw [List.mem_singleton.1 h]
        decide
      · cases h
    · obtain ⟨⟨opening, closing⟩, hpair, h⟩ := List.mem_filterMap.1 h
      simp only [Option.bind_eq_bind, Option.bind_eq_some_iff] at h
      obtain ⟨first, hfirst, second, -, h⟩ := h
      cases h
      exact hmarks _ hpair first hfirst
  · cases h

/-- Matchers for source code look for the comments that the marks give. -/
theorem shape_of_ofMarks {compiler : PatternCompiler} {tags : TagTable} {marks : CommentMarks}
    {options : MatcherOptions} {escapes : EscapeCache} {matchers : Matchers}
    (h : ((ofMarks compiler tags marks options).build escapes).1 = .ok matchers) :
    matchers.shape = .code (enclosuresOf marks options) (marks.line.filterMap Mark.ofString?) :=
  (ofKinds_eq_ok h).2.2

/-- If no block comment opens with a blank or a line feed, as in every well-known language, a scan keeps
claims from overlapping: where no two claims overlap before it, and none holds a position of the text, no
two claims overlap after it. So no run of line comments overlaps a doc comment or a block comment that the
scan has found. It does not matter whether the scan was interrupted. -/
theorem scan_claims_disjoint :
    (∀ (files : Files) (id : String), (Registry.empty.marks files id).value.OpenSolid) ∧
    ∀ {σ : Type} [Checkpoint σ] (compiler : PatternCompiler) (tags : TagTable) (marks : CommentMarks)
      (options : MatcherOptions) (escapes : EscapeCache) (matchers : Matchers),
      marks.OpenSolid → ((ofMarks compiler tags marks options).build escapes).1 = .ok matchers →
      ∀ (text : String) (offset : Nat) (claims : ClaimSet) (checkpoint : σ),
        claims.toList.Pairwise Span.Disjoint →
        (∀ p, offset ≤ p → p < offset + text.length → claims.contains p = false) →
        (matchers.scan text offset claims checkpoint).claims.toList.Pairwise Span.Disjoint := by
  refine ⟨Registry.openSolid_marks_empty, ?_⟩
  intro σ _ compiler tags marks options escapes matchers hmarks hmatchers text offset claims checkpoint
    hclaims houtside
  refine pairwise_disjoint_scan (shape_of_ofMarks hmatchers)
    (fun kind hkind => startsSolid_of_mem_enclosuresOf hmarks hkind) text offset checkpoint hclaims ?_
  intro i hi
  rw [Text.ofString, List.size_toArray, String.length_toList] at hi
  exact houtside (offset + i) (by omega) (by omega)

/-- A scan between two earlier claims, interrupted at the second run of line comments: the hypotheses hold,
and the claims are apart. -/
theorem scan_claims_disjoint_interrupted :
    let tags : TagTable := ⟨[⟨"!", "!", "!", false, {}⟩]⟩
    let marks : CommentMarks := ⟨["//"], [("/*", "*/")]⟩
    let claims : ClaimSet := .ofList [⟨0, 5⟩, ⟨30, 34⟩]
    let checkpoint : Budget := { failsAt := some 4 }
    marks.OpenSolid ∧ claims.toList.Pairwise Span.Disjoint ∧
      ∃ matchers, ((ofMarks .lenient tags marks {}).build .empty).1 = .ok matchers ∧
        (matchers.scan "// é /* b */ c\n // ! d" 5 claims checkpoint).claims.toList.Pairwise
          Span.Disjoint := by
  intro tags marks claims checkpoint
  have hmarks : marks.OpenSolid := by
    intro pair hpair mark hmark
    rw [List.mem_singleton.1 hpair] at hmark
    have heq : (⟨['/', '*'], by decide⟩ : Mark) = mark := Option.some.inj hmark
    subst heq
    decide
  have hclaims : claims.toList.Pairwise Span.Disjoint := by decide
  have hlength : "// é /* b */ c\n // ! d".length = 22 := by decide
  refine ⟨hmarks, hclaims, _, rfl, ?_⟩
  refine scan_claims_disjoint.2 .lenient tags marks {} .empty _ hmarks rfl _ 5 claims checkpoint hclaims
    fun p h₁ h₂ => ?_
  have hfree : ∀ c ∈ claims.toList, p < c.start ∨ c.stop ≤ p := by
    intro c hc
    rcases List.mem_cons.1 hc with rfl | hc
    · exact .inr h₁
    · rw [List.mem_singleton.1 hc]
      exact .inl (Nat.lt_of_lt_of_le h₂ (by decide))
  exact ClaimSet.contains_eq_false_iff.2 hfree

end Matchers

end CommentTags
