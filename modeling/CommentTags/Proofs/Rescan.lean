import CommentTags.Proofs.Scan

/-!
# A second scan finds nothing

A scan that starts with the claims of a finished scan of the same text passes over every opening mark that
it meets. It meets marks that the first scan never tried, since it goes on right after the opening mark of
a comment where the first scan went on after the whole comment. But a finished pass has left no comment
without a claim that overlaps it, and no opening mark of a run unclaimed or whole, and later claims do not
change that.

## Main definitions

* `Pass.Idle`: under given claims a pass claims nothing and reads nothing;
* `Pass.Exhaustive`: a pass that has been over the text is idle from then on.

## Main results

* `Enclosure.exhaustive_pass` and `LineRun.exhaustive_pass`: passes with compact marks are exhaustive;
* `idle_of_visitsOf`: after several exhaustive passes each of them is idle;
* `Matchers.rescan_finds_nothing`: a second scan answers no ranges and leaves the claims as they are.
-/

namespace CommentTags

variable {text : Text} {base : Nat} {claims : ClaimSet}

/-- Nothing is claimed and nothing is read. -/
def Found.IsSkipped (found : Found) : Prop :=
  found.claim.isEmpty = true ∧ found.lines = []

/-- Nothing is shown of a comment that is skipped. -/
theorem Found.IsSkipped.highlights_eq_nil (matchers : Matchers) (text : Text) (base : Nat)
    {found : Found} (h : found.IsSkipped) : found.highlights matchers text base = [] := by
  rw [highlights, h.2]
  rfl

/-- To claim what skipped comments claim changes nothing. -/
theorem Found.claimAll_of_isSkipped {visits : List Found} (h : ∀ found ∈ visits, found.IsSkipped) :
    claims.claimAll (visits.map Found.claim) = claims := by
  induction visits with
  | nil => rfl
  | cons found visits ih =>
    rw [List.forall_mem_cons] at h
    rw [List.map_cons, ClaimSet.claimAll_cons, ClaimSet.claim_of_isEmpty h.1.1]
    exact ih h.2

namespace Pass

/-- Under the claims the pass skips whatever it finds, wherever it looks. -/
def Idle (pass : Pass text) (claims : ClaimSet) : Prop :=
  ∀ pos found, pass.next claims pos = some found → found.IsSkipped

/-- When the pass has been over the text, there is nothing left for it, whatever is claimed afterwards. -/
def Exhaustive (pass : Pass text) : Prop :=
  ∀ (claims : ClaimSet) (spans : List Span),
    pass.Idle ((claims.claimAll ((pass.visits claims 0).map Found.claim)).claimAll spans)

/-- A pass that skips whatever it finds under the claims does so all over the text, since the claims stay as
they are. -/
theorem Idle.isSkipped_of_mem_visits {pass : Pass text} (h : pass.Idle claims) {pos : Nat}
    {found : Found} (hmem : found ∈ pass.visits claims pos) : found.IsSkipped := by
  have hturn : Found.InTurn (fun _ found => found.IsSkipped) claims (pass.visits claims pos) := by
    refine pass.inTurn_visits_of_invariant (fun claims _ => pass.Idle claims) ?_ h
    intro claims pos found hidle hnext
    have hskipped := hidle pos found hnext
    refine ⟨hskipped, ?_⟩
    rw [ClaimSet.claim_of_isEmpty hskipped.1]
    exact hidle
  obtain ⟨-, hskipped⟩ := hturn.of_mem hmem
  exact hskipped

end Pass

/-! ## Passes are exhaustive -/

/-- Where every comment overlaps a claim, all of them are skipped. -/
theorem Enclosure.AllClaimed.idle {kind : Enclosure} (h : kind.AllClaimed text base claims) :
    (kind.pass text base).Idle claims := by
  intro pos found hnext
  obtain ⟨comment, hfind, hcases⟩ := next_eq_some hnext
  obtain ⟨hcomment, -⟩ := find?_eq_some hfind
  rcases hcases with ⟨-, hclaim, hlines, -⟩ | ⟨hfree, -⟩
  · rw [Found.IsSkipped, hclaim, Span.isEmpty_iff]
    exact ⟨Nat.le_refl _, hlines⟩
  -- a comment that is not skipped overlaps no claim
  · have hbounds := hcomment.bounds
    have hoverlaps := (ClaimSet.overlaps_iff (by omega)).2 (h comment.start comment.stop hcomment)
    rw [hfree] at hoverlaps
    cases hoverlaps

/-- The pass for a kind of comments with compact marks is exhaustive. -/
theorem Enclosure.exhaustive_pass {kind : Enclosure} (hopening : kind.opening.Compact)
    (hclosing : kind.closing.Compact) : (kind.pass text base).Exhaustive := by
  intro claims spans
  apply AllClaimed.idle
  intro start stop hcomment
  obtain ⟨c, hc, hoverlap⟩ := allClaimed_visits hopening hclosing claims start stop hcomment
  exact ⟨c, ClaimSet.mem_toList_claimAll_of_mem hc, hoverlap⟩

/-- A run that would start with a cut mark is empty. -/
theorem LineRun.Follows.eq_of_startsWithin {mark : Mark} {stop p : Nat} {run : LineRun}
    (h : Follows text base claims mark stop p run)
    (hcut : claims.StartsWithin (base + p) (base + (p + mark.length))) :
    run = ⟨[], stop, p + mark.length⟩ := by
  -- every other way to go on needs a mark in which no claim starts
  have habsurd {eol : Nat} (hmark : p + mark.length ≤ eol)
      (hclear : ¬ claims.StartsWithin (base + p) (base + eol)) : False := by
    obtain ⟨c, hc, hafter, hbefore⟩ := hcut
    exact hclear ⟨c, hc, hafter, by omega⟩
  cases h with
  | markCut _ => rfl
  | lineCut hmark _ hclear _ => exact (habsurd hmark hclear).elim
  | ends heol hclear _ => exact (habsurd (heol ▸ Text.le_lineEnd text _) hclear).elim
  | goesOn heol hclear _ _ _ _ => exact (habsurd (heol ▸ Text.le_lineEnd text _) hclear).elim

/-- Where every opening mark is claimed or cut, all of them are skipped. -/
theorem LineRun.AllTaken.idle {marks : List Mark} (h : AllTaken marks text base claims) :
    (pass marks text base).Idle claims := by
  intro pos found hnext
  obtain ⟨start, mark, hopener, -, -, hcases⟩ := next_eq_some hnext
  rcases hcases with ⟨-, rfl⟩ | ⟨hfresh, run, hrun, rfl⟩
  · exact ⟨Span.isEmpty_iff.2 (Nat.le_refl _), rfl⟩
  -- an opening mark that is not claimed is cut
  · rcases h start mark hopener with hclaimed | hcut
    · rw [hfresh] at hclaimed
      cases hclaimed
    · rw [hrun.eq_of_startsWithin hcut]
      exact ⟨Span.isEmpty_iff.2 (Nat.le_refl _), rfl⟩

/-- The pass for runs with compact marks is exhaustive. -/
theorem LineRun.exhaustive_pass {marks : List Mark} (hmarks : ∀ m ∈ marks, m.Compact) :
    (pass marks text base).Exhaustive := by
  intro claims spans
  apply AllTaken.idle
  intro i mark hopener
  rcases allTaken_visits hmarks claims i mark hopener with hclaimed | hcut
  · exact .inl (ClaimSet.contains_claimAll_of_contains spans hclaimed)
  · exact .inr (hcut.claimAll spans)

/-- The passes over source code with compact marks are exhaustive. -/
theorem exhaustive_of_mem_codePasses {enclosures : List Enclosure} {lineMarks : List Mark}
    (henclosures : ∀ kind ∈ enclosures, kind.opening.Compact ∧ kind.closing.Compact)
    (hmarks : ∀ m ∈ lineMarks, m.Compact) {pass : Pass text}
    (h : pass ∈ codePasses enclosures lineMarks text base) : pass.Exhaustive := by
  rw [codePasses, List.mem_append, List.mem_map, List.mem_singleton] at h
  rcases h with ⟨kind, hkind, rfl⟩ | rfl
  · exact Enclosure.exhaustive_pass (henclosures kind hkind).1 (henclosures kind hkind).2
  · exact LineRun.exhaustive_pass hmarks

/-! ## Several passes -/

/-- After several exhaustive passes there is nothing left for any of them. -/
theorem idle_of_visitsOf {passes : List (Pass text)} (h : ∀ pass ∈ passes, pass.Exhaustive)
    (claims : ClaimSet) :
    ∀ pass ∈ passes, pass.Idle (claims.claimAll ((visitsOf passes claims).map Found.claim)) := by
  induction passes generalizing claims with
  | nil => exact fun pass hpass => absurd hpass List.not_mem_nil
  | cons pass passes ih =>
    rw [List.forall_mem_cons] at h ⊢
    rw [visitsOf, List.map_append, ClaimSet.claimAll_append]
    exact ⟨h.1 claims _, ih h.2 _⟩

/-- Passes for which there is nothing left skip whatever they find. -/
theorem isSkipped_of_mem_visitsOf {passes : List (Pass text)} (h : ∀ pass ∈ passes, pass.Idle claims)
    {found : Found} (hmem : found ∈ visitsOf passes claims) : found.IsSkipped := by
  induction passes with
  | nil => cases hmem
  | cons pass passes ih =>
    rw [List.forall_mem_cons] at h
    have hfirst {found : Found} (hmem : found ∈ pass.visits claims 0) := h.1.isSkipped_of_mem_visits hmem
    rw [visitsOf, Found.claimAll_of_isSkipped fun _ => hfirst] at hmem
    rcases List.mem_append.1 hmem with hmem | hmem
    · exact hfirst hmem
    · exact ih h.2 hmem

namespace Matchers

variable {σ τ : Type} [Checkpoint σ] [Checkpoint τ] (matchers : Matchers)

/-- When a scan has visited nothing but skipped comments, the claims are those from before, and it answers
no ranges. -/
theorem scan_of_isSkipped {enclosures : List Enclosure} {lineMarks : List Mark}
    (hshape : matchers.shape = .code enclosures lineMarks) {text : String} {claims : ClaimSet}
    (hskipped : ∀ found ∈ visitsOf (codePasses enclosures lineMarks (Text.ofString text) base) claims,
      found.IsSkipped) (checkpoint : τ) :
    (matchers.scan text base claims checkpoint).claims = claims ∧
      ∀ ranges, (matchers.scan text base claims checkpoint).result = .ok ranges → ranges = .empty := by
  constructor
  · obtain ⟨visited, hvisited, hclaims⟩ := exists_claims_scan_code hshape text base claims checkpoint
    rw [hclaims]
    exact Found.claimAll_of_isSkipped fun found hmem => hskipped found (hvisited.subset hmem)
  · intro ranges hresult
    by_cases hactive : (matchers.isInert || text.isEmpty) = true
    · rw [scan, if_pos hactive] at hresult
      cases hresult
      rfl
    · rw [Bool.not_eq_true] at hactive
      rw [(scan_code_ok hshape hactive hresult).2, ← TagRanges.collect_nil]
      congr 1
      rw [List.flatMap_eq_nil_iff]
      exact fun found hmem => (hskipped found hmem).highlights_eq_nil matchers _ _

/-- In source code with compact marks, a scan that starts with the claims of a finished scan of the same
text leaves exactly these claims, and answers no ranges unless its own checkpoint interrupts it. -/
theorem rescan_finds_nothing {enclosures : List Enclosure} {lineMarks : List Mark}
    (hshape : matchers.shape = .code enclosures lineMarks)
    (henclosures : ∀ kind ∈ enclosures, kind.opening.Compact ∧ kind.closing.Compact)
    (hmarks : ∀ mark ∈ lineMarks, mark.Compact) (text : String) (offset : Nat) (claims : ClaimSet)
    (checkpoint : σ) {ranges : TagRanges}
    (h : (matchers.scan text offset claims checkpoint).result = .ok ranges) (again : τ) :
    let left := (matchers.scan text offset claims checkpoint).claims
    (matchers.scan text offset left again).claims = left ∧
      ((matchers.scan text offset left again).result = .ok .empty ∨
        (matchers.scan text offset left again).result = .error .cancelled) ∧
      (Checkpoint.Allows again → (matchers.scan text offset left again).result = .ok .empty) := by
  intro left
  obtain ⟨hclaims, hempty⟩ : (matchers.scan text offset left again).claims = left ∧
      ∀ ranges, (matchers.scan text offset left again).result = .ok ranges → ranges = .empty := by
    by_cases hactive : (matchers.isInert || text.isEmpty) = true
    -- neither scan looks for anything
    · rw [scan, if_pos hactive]
      exact ⟨rfl, fun ranges hranges => by cases hranges; rfl⟩
    · rw [Bool.not_eq_true] at hactive
      apply scan_of_isSkipped matchers hshape
      intro found hmem
      refine isSkipped_of_mem_visitsOf ?_ hmem
      have hleft : left = claims.claimAll
          ((visitsOf (codePasses enclosures lineMarks (Text.ofString text) offset) claims).map
            Found.claim) := by
        rw [← Found.claimAll_claimed]
        exact (scan_code_ok hshape hactive h).1
      rw [hleft]
      exact idle_of_visitsOf (fun pass hpass => exhaustive_of_mem_codePasses henclosures hmarks hpass) _
  refine ⟨hclaims, ?_, ?_⟩
  · cases hresult : (matchers.scan text offset left again).result with
    | error e => exact .inr rfl
    | ok ranges => exact .inl (by rw [hempty ranges hresult])
  · intro hallows
    obtain ⟨ranges, hresult, -⟩ := matchers.scan_of_allows text offset left hallows
    rw [hresult, hempty ranges hresult]

/-- A comment that holds a second opening mark, with a claim from before in the run that follows: the first
scan shows both comments, and the second, which meets the inner mark, finds nothing. -/
theorem rescan_finds_nothing_nested :
    let kind := Enclosure.block ⟨['<'], by decide⟩ ⟨['>'], by decide⟩
    let matchers : Matchers := ⟨none, some ⟨"^(?:!)", [['!']]⟩, .code [kind] [⟨['#'], by decide⟩]⟩
    let claims := ClaimSet.ofList [⟨15, 16⟩]
    let first := matchers.scan "< ! <>\n# !a" 5 claims Unlimited.mk
    let second := matchers.scan "< ! <>\n# !a" 5 first.claims Unlimited.mk
    ∃ ranges, first.result = .ok ranges ∧ ranges.toList = [("!", [⟨7, 10⟩, ⟨14, 15⟩])] ∧
      second.result = .ok .empty ∧ second.claims = first.claims := by
  intro kind matchers claims first second
  have heval : first.result.toOption.map TagRanges.toList = some [("!", [⟨7, 10⟩, ⟨14, 15⟩])] := by
    simp only [first, Matchers.scan, TagRanges.collect, TagRanges.normalize_eq_insertionSort]
    decide +kernel
  cases hresult : first.result with
  | error e =>
    rw [hresult] at heval
    cases heval
  | ok ranges =>
    rw [hresult] at heval
    have henclosures : ∀ k ∈ [kind], k.opening.Compact ∧ k.closing.Compact := by
      dsimp only [kind]
      decide
    obtain ⟨hclaims, -, hagain⟩ := rescan_finds_nothing matchers rfl henclosures
      (by decide) _ 5 claims Unlimited.mk hresult Unlimited.mk
    have hallows := Checkpoint.allows_of_forall (fun _ : Unlimited => rfl) Unlimited.mk
    exact ⟨ranges, rfl, Option.some.inj heval, hagain hallows, hclaims⟩

end Matchers

end CommentTags
