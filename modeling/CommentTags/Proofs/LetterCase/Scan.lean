import CommentTags.Proofs.Copy.Scan
import CommentTags.Proofs.LetterCase.Lines

/-!
# Letter case does not count

The comments of a text whose marks have no letters are those of the text in lower-case letters. So scans of
the two texts carry out the same plan, but for the case of the words that are recorded, and ranges are
collected under the lower-case form of a word.

## Main results

* `Enclosure.next_lower` and `LineRun.next_lower`: the passes find the same comments;
* `Matchers.plan_lower`: the plan of a scan of the text in lower-case letters;
* `Matchers.scan_eq_of_toLower_eq`: scans of texts that are equal but for the case of letters.
-/

namespace CommentTags

variable (text : Text)

/-! ## Enclosed comments -/

namespace Enclosure

/-- The marks of the comment have no letters. -/
structure Letterless (kind : Enclosure) : Prop where
  /-- The opening mark has none. -/
  opening : CommentTags.Letterless kind.opening.chars
  /-- The closing mark has none. -/
  closing : CommentTags.Letterless kind.closing.chars

theorem ignoresCase_isDocSpace : IgnoresCase isDocSpace :=
  apply_toLower (by decide +kernel)

theorem opensAt_lower {kind : Enclosure} (h : kind.Letterless) (i : Nat) :
    kind.opensAt text.lower i = kind.opensAt text i := by
  unfold opensAt
  rw [text.occursAt_lower h.opening]
  cases kind with
  | doc => simp only [text.any_lower ignoresCase_isDocSpace]
  | block opening closing => rfl

theorem find?_lower {kind : Enclosure} (h : kind.Letterless) (pos : Nat) :
    kind.find? text.lower pos = kind.find? text pos := by
  simp only [find?, text.findFree?_lower (opensAt_lower text h), text.find?_lower h.closing,
    Text.size_lower]

@[simp]
theorem docLine_lower (start stop : Nat) : docLine text.lower start stop = docLine text start stop := by
  have hstar (i : Nat) : (text.lower[i]? == some '*') = (text[i]? == some '*') := text.beq_lower (by decide) i
  simp [docLine, hstar]

theorem lines_lower {kind : Enclosure} (h : kind.Letterless) (start stop : Nat) :
    kind.lines text.lower start stop = kind.lines text start stop := by
  cases kind with
  | doc => simp [lines]
  | block opening closing =>
    have hlast : opening.last.isAlpha = false := h.opening _ (List.getLast_mem opening.nonempty)
    have hfirst : closing.first.isAlpha = false := h.closing _ (List.head_mem closing.nonempty)
    simp [lines, text.skipChar_lower hlast, text.dropEndWhile_lower (ignoresCase_beq hfirst)]

/-- The same comment is found next. -/
theorem next_lower {kind : Enclosure} (h : kind.Letterless) (base : Nat) (claims : ClaimSet) (pos : Nat) :
    kind.next text.lower base claims pos = kind.next text base claims pos := by
  simp only [next, find?_lower text h, lines_lower text h]

/-- No tag stands further on in a line of an enclosed comment. -/
theorem inlineMark_of_next {kind : Enclosure} {text : Text} {base : Nat} {claims : ClaimSet} {pos : Nat}
    {found : Found} (h : kind.next text base claims pos = some found) : found.inlineMark = none := by
  simp only [next, Option.bind_eq_bind, Option.bind_eq_some_iff] at h
  obtain ⟨comment, -, h⟩ := h
  split at h <;> cases h <;> rfl

end Enclosure

/-! ## Runs of line comments -/

namespace LineRun

/-- A mark without letters has none with its repetitions either. -/
theorem letterless_extend {mark : Mark} (h : Letterless mark.chars) (i : Nat) :
    Letterless (extend text i mark).chars := by
  intro c hc
  rw [extend, List.mem_append] at hc
  rcases hc with hc | hc
  · exact h c hc
  · rw [(List.mem_replicate.1 hc).2]
    exact h _ (List.getLast_mem mark.nonempty)

theorem extend_lower {mark : Mark} (h : Letterless mark.chars) (i : Nat) :
    extend text.lower i mark = extend text i mark := by
  have hlast : mark.last.isAlpha = false := h _ (List.getLast_mem mark.nonempty)
  simp only [extend, text.skipChar_lower hlast, Text.size_lower]

variable {marks : List Mark} (hmarks : ∀ mark ∈ marks, Letterless mark.chars)
include hmarks

theorem markAt?_lower (i : Nat) : markAt? marks text.lower i = markAt? marks text i := by
  induction marks with
  | nil => rfl
  | cons mark marks ih =>
    rw [List.forall_mem_cons] at hmarks
    have hrest := ih hmarks.2
    rw [markAt?, markAt?] at hrest ⊢
    rw [List.find?_cons, List.find?_cons, text.occursAt_lower hmarks.1]
    split
    · rw [Option.map_some, Option.map_some, extend_lower text hmarks.1]
    · exact hrest

/-- A mark that is found has no letters. -/
theorem letterless_of_markAt? {i : Nat} {mark : Mark} (h : markAt? marks text i = some mark) :
    Letterless mark.chars := by
  rw [markAt?, Option.map_eq_some_iff] at h
  obtain ⟨m, hm, rfl⟩ := h
  exact letterless_extend text (hmarks m (List.mem_of_find?_eq_some hm)) i

omit hmarks in
theorem nextMark?_lower {mark : Mark} (h : Letterless mark.chars) (base : Nat) (claims : ClaimSet)
    (eol : Nat) : nextMark? text.lower base claims mark eol = nextMark? text base claims mark eol := by
  simp [nextMark?, continuation?, text.occursAt_lower h]

omit hmarks in
/-- A run is read in the same way. -/
theorem read_lower {mark : Mark} (h : Letterless mark.chars) (base : Nat) (claims : ClaimSet)
    (lines : List CommentLine) (stop p : Nat) :
    read text.lower base claims mark lines stop p = read text base claims mark lines stop p := by
  rw [read_eq, read_eq]
  simp only [Text.lineEnd_lower, CommentLine.ofSegment_lower, nextMark?_lower text h]
  cases hnext : nextMark? text base claims mark (text.lineEnd (p + mark.length)) with
  | none => rfl
  | some next =>
    -- the next mark stands further on, so less of the text is left
    obtain ⟨hafter, -⟩ := nextMark?_eq_some hnext
    have hline := text.le_lineEnd (p + mark.length)
    have hlength := mark.length_pos
    have hsize : text.lineEnd (p + mark.length) < text.size := by
      rw [nextMark?, Option.ite_none_right_eq_some] at hnext
      exact hnext.1
    have hless : text.size - next < text.size - p := by omega
    simp only [read_lower h base claims _ _ next]
termination_by text.size - p

/-- The same run is found next. -/
theorem next_lower (base : Nat) (claims : ClaimSet) (pos : Nat) :
    next marks text.lower base claims pos = next marks text base claims pos := by
  have hfind : text.lower.findFree? (fun i => (markAt? marks text.lower i).isSome) pos =
      text.findFree? (fun i => (markAt? marks text i).isSome) pos :=
    text.findFree?_lower (fun i => by rw [markAt?_lower text hmarks]) pos
  rw [next, next, hfind]
  cases text.findFree? (fun i => (markAt? marks text i).isSome) pos with
  | none => rfl
  | some start =>
    simp only [Option.bind_eq_bind, Option.bind_some, markAt?_lower text hmarks]
    cases hmark : markAt? marks text start with
    | none => rfl
    | some mark => simp only [Option.bind_some, read_lower text (letterless_of_markAt? text hmarks hmark)]

/-- The mark inside the lines of a run has no letters. -/
theorem letterless_of_next {base : Nat} {claims : ClaimSet} {pos : Nat} {found : Found}
    (h : next marks text base claims pos = some found) :
    ∀ mark ∈ found.inlineMark, Letterless mark.chars := by
  simp only [next, Option.bind_eq_bind, Option.bind_eq_some_iff] at h
  obtain ⟨start, -, mark, hmark, h⟩ := h
  split at h
  · cases h
    exact fun _ hnone => by cases hnone
  · cases h
    intro mark' hmark'
    cases hmark'
    exact letterless_of_markAt? text hmarks hmark

end LineRun

/-! ## Passes -/

/-- A pass that finds the same visits the same comments. -/
theorem Pass.visits_eq_of_next_eq {text other : Text} {pass : Pass text} {pass' : Pass other}
    (h : ∀ claims pos, pass'.next claims pos = pass.next claims pos) (claims : ClaimSet) (pos : Nat) :
    pass'.visits claims pos = pass.visits claims pos := by
  fun_induction visits pass claims pos with
  | case1 claims pos hnone => exact visits_of_none ((h claims pos).trans hnone)
  | case2 claims pos found hsome ih => rw [visits_of_some ((h claims pos).trans hsome), ih]

/-- So do several passes. -/
theorem visitsOf_eq_of_next_eq {text other : Text} {passes : List (Pass text)} {passes' : List (Pass other)}
    (h : List.Forall₂ (fun pass pass' => ∀ claims pos, pass'.next claims pos = pass.next claims pos)
      passes passes') (claims : ClaimSet) : visitsOf passes' claims = visitsOf passes claims := by
  induction h generalizing claims with
  | nil => rfl
  | cons hpass _ ih => rw [visitsOf, visitsOf, Pass.visits_eq_of_next_eq hpass, ih]

section Passes

variable {enclosures : List Enclosure} {lineMarks : List Mark}
  (hmarks : ∀ mark ∈ (CommentShape.code enclosures lineMarks).marks, Letterless mark.chars)
include hmarks

/-- The passes over the text in lower-case letters visit the comments of the text. -/
theorem visitsOf_codePasses_lower (base : Nat) (claims : ClaimSet) :
    visitsOf (codePasses enclosures lineMarks text.lower base) claims =
      visitsOf (codePasses enclosures lineMarks text base) claims := by
  have hkinds : ∀ kind ∈ enclosures, kind.Letterless := fun kind hkind =>
    ⟨hmarks _ (List.mem_append_left _ (List.mem_flatMap.2 ⟨kind, hkind, by simp⟩)),
      hmarks _ (List.mem_append_left _ (List.mem_flatMap.2 ⟨kind, hkind, by simp⟩))⟩
  have hline : ∀ mark ∈ lineMarks, Letterless mark.chars := fun mark hmark =>
    hmarks mark (List.mem_append_right _ hmark)
  refine visitsOf_eq_of_next_eq (List.rel_append ?_ (.cons ?_ .nil)) claims
  · rw [List.forall₂_map_left_iff, List.forall₂_map_right_iff, List.forall₂_same]
    exact fun kind hkind => kind.next_lower text (hkinds kind hkind) base
  · exact LineRun.next_lower text hline base

/-- The mark inside the lines of a comment has no letters. -/
theorem letterless_of_mem_visitsOf {base : Nat} {claims : ClaimSet} {found : Found}
    (hfound : found ∈ visitsOf (codePasses enclosures lineMarks text base) claims) :
    ∀ mark ∈ found.inlineMark, Letterless mark.chars := by
  have hstep : ∀ pass ∈ codePasses enclosures lineMarks text base, ∀ {claims : ClaimSet} {pos : Nat}
      {found : Found}, pass.next claims pos = some found →
        ∀ mark ∈ found.inlineMark, Letterless mark.chars := by
    intro pass hpass claims pos found hnext
    rcases List.mem_append.1 hpass with hkind | hrun
    · obtain ⟨kind, -, rfl⟩ := List.mem_map.1 hkind
      -- an enclosed comment has no such mark
      rw [Enclosure.inlineMark_of_next hnext]
      exact fun _ hnone => by cases hnone
    · rw [List.mem_singleton.1 hrun] at hnext
      exact LineRun.letterless_of_next text (fun mark hmark => hmarks mark (List.mem_append_right _ hmark)) hnext
  have hturn : Found.InTurn (fun _ found => ∀ mark ∈ found.inlineMark, Letterless mark.chars) claims
      (visitsOf (codePasses enclosures lineMarks text base) claims) := inTurn_visitsOf hstep claims
  obtain ⟨-, hmark⟩ := hturn.of_mem hfound
  exact hmark

end Passes

/-! ## Plans -/

namespace Matchers

variable (matchers : Matchers) (hmarks : ∀ mark ∈ matchers.shape.marks, Letterless mark.chars)
include hmarks

theorem planText_lower (base : Nat) (claims : ClaimSet) :
    matchers.planText text.lower base claims =
      (matchers.planText text base claims).map ScanAction.lower := by
  rw [planText, planText]
  cases hshape : matchers.shape with
  | code enclosures lineMarks =>
    rw [hshape] at hmarks
    have hactions : (visitsOf (codePasses enclosures lineMarks text base) claims).flatMap
          (Found.actions matchers text.lower base) =
        (visitsOf (codePasses enclosures lineMarks text base) claims).flatMap
          fun found => (found.actions matchers text base).map ScanAction.lower :=
      List.flatMap_congr fun found hfound =>
        found.actions_lower text matchers base (letterless_of_mem_visitsOf text hmarks hfound)
    simp only [visitsOf_codePasses_lower text hmarks, hactions, List.map_cons, List.map_flatMap]
    rfl
  | plainText =>
    have hlines : plainLines text.lower = plainLines text := by simp [plainLines]
    have hnone : ∀ mark ∈ (none : Option Mark), Letterless mark.chars := by simp
    simp only [hlines, matchers.taggedLines_lower text .untilBlank hnone, recordActions_lower, List.map_cons]
    rfl

/-- A scan of a text in lower-case letters does the same, with words in lower-case letters. -/
theorem plan_lower (text : String) (offset : Nat) (claims : ClaimSet) :
    matchers.plan text.toLower offset claims = (matchers.plan text offset claims).map ScanAction.lower := by
  rw [plan, plan, isEmpty_toLower, Text.ofString_toLower, planText_lower _ matchers hmarks]
  split <;> rfl

end Matchers

/-! ## Outcomes -/

/-- Ranges are recorded under the lower-case forms of words. -/
theorem TagRanges.collect_map_lower (highlights : List Highlight) :
    collect (highlights.map Highlight.lower) = collect highlights := by
  have hpush (ranges : TagRanges) (highlight : Highlight) :
      ranges.push highlight.lower.tag highlight.lower.span = ranges.push highlight.tag highlight.span := by
    rw [push, push, Highlight.lower, Unicode.lowercase_toLower]
  rw [collect, collect, pushAll, pushAll, List.foldl_map]
  simp only [hpush]

section Outcomes

variable {σ : Type} [Checkpoint σ]

/-- A plan with words in lower-case letters is carried out to the same point, and the same is claimed. -/
theorem ScanAction.performAll_map_lower (plan : List ScanAction) (claims : ClaimSet)
    (found : List Highlight) (checkpoint : σ) :
    performAll (plan.map lower) ⟨claims, found.map Highlight.lower, checkpoint⟩ =
      match performAll plan ⟨claims, found, checkpoint⟩ with
      | .ok a s => .ok a { s with found := s.found.map Highlight.lower }
      | .error e s => .error e { s with found := s.found.map Highlight.lower } := by
  induction plan generalizing claims found checkpoint with
  | nil => rfl
  | cons action rest ih =>
    -- what was found so far is carried along, since only highlights differ
    cases action with
    | claim span => exact ih _ _ _
    | record highlight => exact ih _ (highlight :: found) _
    | consult =>
      rw [List.map_cons, show lower consult = consult from rfl, performAll_consult, performAll_consult]
      dsimp only
      split
      · exact ih _ _ _
      · rfl

/-- A plan with words in lower-case letters leaves the same behind. -/
theorem Scanned.ofPlan_map_lower (plan : List ScanAction) (claims : ClaimSet) (checkpoint : σ) :
    ofPlan (plan.map ScanAction.lower) claims checkpoint = ofPlan plan claims checkpoint := by
  have hperform := ScanAction.performAll_map_lower plan claims [] checkpoint
  rw [List.map_nil] at hperform
  rw [ofPlan, ofPlan, hperform]
  cases ScanAction.performAll plan ⟨claims, [], checkpoint⟩ with
  | ok a s => simp only [← List.map_reverse, TagRanges.collect_map_lower]
  | error e s => rfl

/-- Scans of two texts that are equal but for the case of ASCII letters find the same ranges under the same
keys, leave the same claims and are interrupted at the same point, if the marks of comments have no letters
of ASCII. -/
theorem Matchers.scan_eq_of_toLower_eq (matchers : Matchers)
    (hmarks : ∀ mark ∈ matchers.shape.marks, ∀ c ∈ mark.chars, c.isAlpha = false) {first second : String}
    (htexts : first.toLower = second.toLower) (offset : Nat) (claims : ClaimSet) (checkpoint : σ) :
    matchers.scan first offset claims checkpoint = matchers.scan second offset claims checkpoint := by
  -- both texts are compared with their common form in lower-case letters
  have hlower (text : String) :
      matchers.scan text offset claims checkpoint = matchers.scan text.toLower offset claims checkpoint := by
    rw [scan_eq_ofPlan, scan_eq_ofPlan, plan_lower matchers hmarks, Scanned.ofPlan_map_lower]
  rw [hlower first, htexts, ← hlower second]

-- the evaluation goes through the table of case foldings
set_option maxRecDepth 10000 in
/-- A head whose word ends with a capital sigma, and the line under it. -/
theorem Matchers.scan_eq_of_toLower_eq_sigma :
    let matchers : Matchers :=
      ⟨some ⟨"^(?:a\u03c3)", [['a', '\u03c3']]⟩, none, .code [.doc] [⟨['#'], by decide⟩]⟩
    let first := "# a\u03a3 X\n#  y"
    let second := "# A\u03a3 x\n#  Y"
    (∀ mark ∈ matchers.shape.marks, ∀ c ∈ mark.chars, c.isAlpha = false) ∧
      first.toLower = second.toLower ∧
      (matchers.scan first 0 .empty Unlimited.mk).result.map TagRanges.toList =
        .ok [("a\u03c2", [⟨2, 6⟩, ⟨10, 11⟩])] := by
  intro matchers first second
  have hmarks : ∀ mark ∈ matchers.shape.marks, ∀ c ∈ mark.chars, c.isAlpha = false := by
    simp [matchers, CommentShape.marks, Enclosure.opening, Enclosure.closing]
  have htexts : first.toLower = second.toLower := by
    rw [← String.toList_inj, toList_toLower, toList_toLower]
    decide +kernel
  refine ⟨hmarks, htexts, ?_⟩
  rw [matchers.scan_eq_of_toLower_eq hmarks htexts]
  simp only [Matchers.scan, TagRanges.collect, TagRanges.normalize_eq_insertionSort]
  decide +kernel

end Outcomes

end CommentTags
