import CommentTags.Proofs.Convergence
import CommentTags.Proofs.Relocation

/-!
# Windows are scanned apart

The windows of a document stand apart: between two of them there is at least one line, so their texts take
disjoint intervals of the document. The scan of a window claims text of this window only, and claims outside
the window do not matter to it. So the windows can be scanned in any order, and each scan finds what it would
find by itself.

## Main definitions

* `Window.span`: the offsets that a window takes in its document;
* `Window.ranges`: what a scan of the window finds by itself.

## Main results

* `pairwise_disjoint_viewportWindows`: the windows of the first pass take disjoint intervals;
* `Engine.exists_claims_scan_within`: a scan claims text of its own;
* `scanWindows_eq_union`: the scan of all windows finds what the scans of the single windows find.
-/

namespace CommentTags

/-! ## Windows by their lines -/

namespace Window

/-- A window around visible lines has a line. -/
theorem first_le_last_around (preload lastLine : Nat) (visible : TextRange) :
    (around preload lastLine visible).first ≤ (around preload lastLine visible).last := by
  rw [around]
  dsimp only
  omega

/-- Windows that come in order stand apart when they are joined: none starts before the first one, each has a
line, and at least one line stands between any two. -/
theorem join_spec {window : Window} {rest : List Window} (hlines : ∀ w ∈ window :: rest, w.first ≤ w.last)
    (hsorted : (window :: rest).Pairwise fun a b => a.first ≤ b.first) :
    (∀ w ∈ join window rest, window.first ≤ w.first ∧ w.first ≤ w.last) ∧
      (join window rest).Pairwise fun a b => a.last + 1 < b.first := by
  fun_induction join window rest with
  | case1 window => simpa using hlines
  | case2 window next rest hjoin ih =>
    -- the two windows make one
    simp only [List.forall_mem_cons, List.pairwise_cons] at hlines hsorted ih
    exact ih ⟨by omega, hlines.2.2⟩ ⟨fun w hw => hsorted.1.2 w hw, hsorted.2.2⟩
  | case3 window next rest hjoin ih =>
    simp only [List.forall_mem_cons, List.pairwise_cons] at hlines hsorted ih ⊢
    obtain ⟨hrest, hapart⟩ := ih hlines.2 hsorted.2
    refine ⟨⟨⟨Nat.le_refl _, hlines.1⟩, fun w hw => ?_⟩, fun w hw => ?_, hapart⟩
    · exact ⟨Nat.le_trans hsorted.1.1 (hrest w hw).1, (hrest w hw).2⟩
    · have := (hrest w hw).1
      omega

/-- The order of windows, by first line and then by last line. -/
theorem precedes_iff {a b : Window} :
    precedes a b = true ↔ a.first < b.first ∨ a.first = b.first ∧ a.last ≤ b.last := by
  simp [precedes]

/-- Windows that precede each other are the same. -/
theorem precedes_antisymm {a b : Window} (hab : precedes a b = true) (hba : precedes b a = true) : a = b := by
  rw [precedes_iff] at hab hba
  obtain ⟨_, _⟩ := a
  obtain ⟨_, _⟩ := b
  simp only [mk.injEq] at hab hba ⊢
  omega

/-- Sorted windows precede one another. -/
theorem pairwise_sorted (visible : List TextRange) (preload lastLine : Nat) :
    ((visible.map (around preload lastLine)).mergeSort precedes).Pairwise
      fun a b => precedes a b = true := by
  refine List.pairwise_mergeSort (fun a b c hab hbc => ?_) (fun a b => ?_) _
  · rw [precedes_iff] at *
    omega
  · rw [Bool.or_eq_true, precedes_iff, precedes_iff]
    omega

/-- There is only one way to sort windows. -/
theorem mergeSort_around_eq {visible : List TextRange} {preload lastLine : Nat} {sorted : List Window}
    (hperm : sorted.Perm (visible.map (around preload lastLine)))
    (hsorted : sorted.Pairwise fun a b => precedes a b = true) :
    (visible.map (around preload lastLine)).mergeSort precedes = sorted :=
  ((List.mergeSort_perm _ _).trans hperm.symm).eq_of_pairwise
    (fun _ _ _ _ => precedes_antisymm) (pairwise_sorted visible preload lastLine) hsorted

/-- Sorted windows start in order. -/
theorem pairwise_first_sorted (visible : List TextRange) (preload lastLine : Nat) :
    ((visible.map (around preload lastLine)).mergeSort precedes).Pairwise
      fun a b => a.first ≤ b.first := by
  refine (pairwise_sorted visible preload lastLine).imp fun {a b} hab => ?_
  rw [precedes_iff] at hab
  omega

/-- The windows of visible lines have lines and stand apart. -/
theorem ofVisible_spec (visible : List TextRange) (preload lastLine : Nat) :
    (∀ w ∈ ofVisible visible preload lastLine, w.first ≤ w.last) ∧
      (ofVisible visible preload lastLine).Pairwise fun a b => a.last + 1 < b.first := by
  have hsorted := pairwise_first_sorted visible preload lastLine
  have hlines : ∀ w ∈ (visible.map (around preload lastLine)).mergeSort precedes, w.first ≤ w.last := by
    intro w hw
    rw [List.mem_mergeSort, List.mem_map] at hw
    obtain ⟨range, -, rfl⟩ := hw
    exact first_le_last_around preload lastLine range
  rw [ofVisible]
  split
  · exact ⟨fun w hw => absurd hw List.not_mem_nil, List.Pairwise.nil⟩
  · next window rest heq =>
    rw [heq] at hsorted hlines
    obtain ⟨hjoin, hapart⟩ := join_spec hlines hsorted
    exact ⟨fun w hw => (hjoin w hw).2, hapart⟩

end Window

/-- The windows of the first pass have lines and stand apart. -/
theorem viewportWindows_spec {δ : Type} [TextDocument δ] (config : ScanConfig) (document : δ) :
    (∀ w ∈ viewportWindows config document, w.first ≤ w.last) ∧
      (viewportWindows config document).Pairwise fun a b => a.last + 1 < b.first := by
  rw [viewportWindows]
  split
  · exact ⟨by simp, List.pairwise_singleton _ _⟩
  · exact Window.ofVisible_spec _ _ _

/-! ## Windows by their offsets -/

namespace LineIndex

variable {index : LineIndex}

/-- The offset of the start of a line, or of the end of the text beyond the last line. -/
theorem lineStart_eq (line : Nat) : index.lineStart line = index.starts[line]?.getD index.charCount := by
  rw [lineStart, offsetAt]
  cases index.starts[line]? with
  | none => rfl
  | some start => exact Nat.add_zero _

/-- Lines start within the text. -/
theorem lineStart_le_charCount (line : Nat) : index.lineStart line ≤ index.charCount := by
  rw [lineStart_eq]
  cases hstart : index.starts[line]? with
  | none => exact Nat.le_refl _
  | some start =>
    have hmem : start ∈ index.text.documentLineStarts := by
      rw [← index.starts_eq]
      exact Array.mem_of_getElem? hstart
    exact (Text.mem_documentLineStarts.1 hmem).1

/-- Later lines start later. -/
theorem lineStart_mono {i j : Nat} (h : i ≤ j) : index.lineStart i ≤ index.lineStart j := by
  rcases Nat.eq_or_lt_of_le h with rfl | hlt
  · exact Nat.le_refl _
  have hle := index.lineStart_le_charCount i
  rw [lineStart_eq] at hle ⊢
  rw [lineStart_eq]
  cases hj : index.starts[j]? with
  | none => exact hle
  | some b =>
    have hi : i < index.starts.size := Nat.lt_trans hlt (Array.getElem?_eq_some_iff.1 hj).1
    rw [Array.getElem?_eq_getElem hi]
    exact Nat.le_of_lt (lt_of_getElem?_starts hlt (Array.getElem?_eq_getElem hi) hj)

/-- Columns count no more characters than a line has. -/
theorem columns_le (text : Text) (start stop : Nat) : columns text start stop ≤ stop - start := by
  rw [columns]
  split
  · split
    · omega
    · omega
  · exact Nat.le_refl _

/-- A line ends no earlier than it starts, and before the next one starts. -/
theorem lineEnd_bounds (line : Nat) :
    index.lineStart line ≤ index.lineEnd line ∧ index.lineEnd line ≤ index.lineStart (line + 1) := by
  have hnext := index.lineStart_mono (Nat.le_add_right line 1)
  rw [lineStart_eq, lineStart_eq] at hnext
  rw [lineStart_eq, lineStart_eq, lineEnd, offsetAt]
  dsimp only
  cases hstart : index.starts[line]? with
  | none =>
    rw [hstart] at hnext
    exact ⟨Nat.le_refl _, hnext⟩
  | some start =>
    have hlength : index.lineLength line ≤ index.starts[line + 1]?.getD index.charCount - start := by
      rw [lineLength, hstart]
      exact columns_le _ _ _
    rw [hstart, Option.getD_some] at hnext
    dsimp only [Option.getD_some]
    omega

end LineIndex

/-- The offsets from the start of the first line to the end of the last one. -/
def Window.span (document : SourceDocument) (window : Window) : Span :=
  ⟨document.index.lineStart window.first, document.index.lineEnd window.last⟩

/-- The text of a window. -/
def Window.text (document : SourceDocument) (window : Window) : String :=
  TextDocument.textIn document (.lines window.first window.last)

namespace Window

variable {document : SourceDocument}

/-- The text of a window fills its offsets. -/
theorem start_add_length_text {window : Window} (h : window.first ≤ window.last) :
    (window.span document).start + (window.text document).length = (window.span document).stop := by
  have hfirst := document.index.lineStart_mono h
  have hlast := document.index.lineEnd_bounds window.last
  have hsize := document.index.lineStart_le_charCount (window.last + 1)
  have hlength : (window.text document).length =
      min (document.index.lineEnd window.last) document.index.charCount -
        document.index.lineStart window.first := by
    show (String.ofList (document.index.text.extract _ _).toList).length = _
    rw [String.length_ofList, Array.length_toList, Array.size_extract]
    rfl
  rw [hlength, span]
  dsimp only
  omega

/-- Windows with a line between them take disjoint intervals. -/
theorem disjoint_span {a b : Window} (h : a.last + 1 < b.first) :
    (a.span document).Disjoint (b.span document) := by
  left
  have hlast := (document.index.lineEnd_bounds a.last).2
  have hfirst := document.index.lineStart_mono (Nat.le_of_lt h)
  exact Nat.le_trans hlast hfirst

end Window

/-- The windows of the first pass take disjoint intervals of the document. -/
theorem pairwise_disjoint_viewportWindows (config : ScanConfig) (document : SourceDocument) :
    (viewportWindows config document).Pairwise
      fun a b => (a.span document).Disjoint (b.span document) :=
  (viewportWindows_spec config document).2.imp Window.disjoint_span

/-! ## A scan stays in its text -/

section Scans

variable {σ : Type} [Checkpoint σ] {text : Text} {base : Nat} {claims : ClaimSet}

/-- The claim of the comment lies in the text. -/
def Found.ClaimsWithin (text : Text) (base : Nat) (found : Found) : Prop :=
  base ≤ found.claim.start ∧ found.claim.stop ≤ base + text.size

/-- Each pass over source code claims text of its own. -/
theorem claimsWithin_of_mem_codePasses {enclosures : List Enclosure} {lineMarks : List Mark}
    {pass : Pass text} (h : pass ∈ codePasses enclosures lineMarks text base) {pos : Nat} {found : Found}
    (hnext : pass.next claims pos = some found) : found.ClaimsWithin text base := by
  rw [codePasses, List.mem_append] at h
  rcases h with h | h
  · obtain ⟨kind, -, rfl⟩ := List.mem_map.1 h
    obtain ⟨comment, hfind, hcases⟩ := Enclosure.next_eq_some hnext
    have hbounds := (Enclosure.find?_eq_some hfind).1.bounds
    rcases hcases with ⟨-, hclaim, -⟩ | ⟨-, hclaim, -⟩
    · rw [Found.ClaimsWithin, hclaim]
      dsimp only
      omega
    · rw [Found.ClaimsWithin, hclaim]
      dsimp only
      omega
  · rw [List.mem_singleton.1 h] at hnext
    obtain ⟨start, mark, hopener, -, -, hcases⟩ := LineRun.next_eq_some hnext
    have hocc := LineRun.occursAt_of_markAt? (LineRun.isOpener_iff.1 hopener).2
    have hfit := mark.add_length_le_of_occursAt hocc
    rcases hcases with ⟨-, rfl⟩ | ⟨-, run, hrun, rfl⟩
    · rw [Found.ClaimsWithin]
      dsimp only
      omega
    · have hbounds := hrun.bounds ⟨hocc, .inl rfl⟩
      rw [Found.ClaimsWithin]
      dsimp only
      omega

/-- However a scan ends, it has claimed text of its own. -/
theorem Matchers.exists_claims_scan_within (matchers : Matchers) (text : String) (base : Nat)
    (claims : ClaimSet) (checkpoint : σ) :
    ∃ made, (matchers.scan text base claims checkpoint).claims = claims.claimAll made ∧
      ∀ s ∈ made, base ≤ s.start ∧ s.stop ≤ base + text.length := by
  cases hshape : matchers.shape with
  | code enclosures lineMarks =>
    obtain ⟨visited, ⟨rest, hrest⟩, hclaims⟩ := exists_claims_scan_code hshape text base claims checkpoint
    have hturn : Found.InTurn (fun _ found => found.ClaimsWithin (Text.ofString text) base) claims
        (visitsOf (codePasses enclosures lineMarks (Text.ofString text) base) claims) :=
      inTurn_visitsOf (fun _ hpass _ _ _ hnext => claimsWithin_of_mem_codePasses hpass hnext) claims
    rw [← hrest, Found.inTurn_append] at hturn
    refine ⟨_, hclaims, fun s hs => ?_⟩
    obtain ⟨found, hfound, rfl⟩ := List.mem_map.1 hs
    obtain ⟨-, hwithin⟩ := hturn.1.of_mem hfound
    rw [Found.ClaimsWithin, Text.ofString, List.size_toArray, String.length_toList] at hwithin
    exact hwithin
  -- plain text is not claimed
  | plainText =>
    refine ⟨[], ?_, fun s hs => absurd hs List.not_mem_nil⟩
    rw [scan_withClaims_of_plainText hshape text base claims claims checkpoint]
    rfl

/-- The ranges of a scan are content of its text. -/
theorem Matchers.areContent_of_scan {matchers : Matchers} {text : String} {checkpoint : σ}
    {ranges : TagRanges} (h : (matchers.scan text base claims checkpoint).result = .ok ranges) :
    ranges.AreContent (Text.ofString text) base := by
  cases hshape : matchers.shape with
  | plainText => exact scan_plainText_ok hshape h
  | code enclosures lineMarks =>
    by_cases hactive : (matchers.isInert || text.isEmpty) = true
    -- nothing is looked for
    · rw [scan, if_pos hactive] at h
      cases h
      rw [← TagRanges.collect_nil]
      exact TagRanges.areContent_collect (fun hl hmem => absurd hmem List.not_mem_nil) List.Pairwise.nil
    · rw [Bool.not_eq_true] at hactive
      obtain ⟨-, rfl⟩ := scan_code_ok hshape hactive h
      have hturn : Found.InTurn (Found.ReadsApart (Text.ofString text) base) claims
          (visitsOf (codePasses enclosures lineMarks (Text.ofString text) base) claims) :=
        inTurn_visitsOf (fun _ hpass _ _ _ hnext => readsApart_of_mem_codePasses hpass hnext) claims
      obtain ⟨hspec, hdisjoint⟩ := hturn.highlights_spec matchers
      exact TagRanges.areContent_collect (fun hl hmem => (hspec hl hmem).1) hdisjoint

namespace Engine

variable (engine : Engine) (files : Files) (id text : String) (offset : Nat) (claims : ClaimSet)

/-- However a scan of an engine ends, it has claimed text of its own. -/
theorem exists_claims_scan_within (checkpoint : σ) :
    ∃ made, (engine.scan files id text offset claims checkpoint).value.claims = claims.claimAll made ∧
      ∀ s ∈ made, offset ≤ s.start ∧ s.stop ≤ offset + text.length := by
  rw [scan]
  dsimp only
  split
  · exact ⟨[], rfl, fun s hs => absurd hs List.not_mem_nil⟩
  · next m _ => exact m.exists_claims_scan_within text offset claims _

variable {files id text offset claims}

/-- The ranges of an engine's scan are content of its text. -/
theorem areContent_of_scan {checkpoint : σ} {ranges : TagRanges}
    (h : (engine.scan files id text offset claims checkpoint).value.result = .ok ranges) :
    ranges.AreContent (Text.ofString text) offset := by
  rw [scan] at h
  dsimp only at h
  split at h
  -- a language without matchers has no ranges
  · cases h
    rw [← TagRanges.collect_nil]
    exact TagRanges.areContent_collect (fun hl hmem => absurd hmem List.not_mem_nil) List.Pairwise.nil
  · exact Matchers.areContent_of_scan h

/-- Claims that do not reach into the text do not change the plan of an engine's scan. -/
theorem plan_of_outside (h : ∀ s ∈ claims.toList, s.Disjoint ⟨offset, offset + text.length⟩) :
    engine.plan files id text offset claims = engine.plan files id text offset .empty := by
  rw [plan, plan]
  cases (engine.matchersFor files id).value with
  | none => rfl
  | some m =>
    have hplan : m.plan text offset (ClaimSet.empty.claimAll claims.toList) = m.plan text offset .empty :=
      m.plan_claimAll_outside .empty h
    rw [ClaimSet.claimAll_toList] at hplan
    exact hplan

end Engine

end Scans

/-! ## Scanning windows -/

section Windows

variable {σ : Type} [Checkpoint σ] (engine : Engine) (files : Files) (document : SourceDocument)

/-- What a scan of the window finds by itself. -/
def Window.ranges (window : Window) : TagRanges :=
  .collect (ScanAction.recorded
    (engine.plan files document.languageId (window.text document) (window.span document).start .empty))

/-- A scan of the window by itself that is not interrupted finds the window's ranges. -/
theorem Window.ranges_eq {window : Window} {checkpoint : σ} {ranges : TagRanges}
    (h : (engine.scan files document.languageId (window.text document) (window.span document).start .empty
      checkpoint).value.result = .ok ranges) :
    window.ranges engine files document = ranges :=
  (Engine.eq_collect_of_scan h).symm

variable {document}

/-- The ranges of a window lie in the window, and no two of them overlap. -/
theorem Window.ranges_spec {window : Window} (h : window.first ≤ window.last) :
    (∀ hl ∈ (window.ranges engine files document).flat, (window.span document).start ≤ hl.span.start ∧
      hl.span.stop ≤ (window.span document).stop) ∧
    (window.ranges engine files document).flat.Pairwise fun a b => a.span.Disjoint b.span := by
  obtain ⟨ranges, hranges, -⟩ := engine.scan_of_allows files document.languageId (window.text document)
    (window.span document).start .empty (Checkpoint.allows_of_forall (fun _ : Unlimited => rfl) Unlimited.mk)
  have hcontent := Engine.areContent_of_scan engine hranges
  rw [Window.ranges_eq engine files document hranges]
  refine ⟨fun hl hmem => ?_, hcontent.disjoint⟩
  have hstart := (hcontent.content hl hmem).base_le
  have hstop := (hcontent.content hl hmem).stop_le
  rw [Text.ofString, List.size_toArray, String.length_toList, start_add_length_text h] at hstop
  exact ⟨hstart, hstop⟩

variable {engine files}

/-- No two ranges of windows that take disjoint intervals overlap. -/
theorem Window.pairwise_flat_union {windows : List Window} (hlines : ∀ w ∈ windows, w.first ≤ w.last)
    (happart : windows.Pairwise fun a b => (a.span document).Disjoint (b.span document)) :
    (TagRanges.union (windows.map (Window.ranges engine files document))).flat.Pairwise
      fun a b => a.span.Disjoint b.span := by
  have hnormal : ∀ part ∈ windows.map (Window.ranges engine files document), part.IsNormal := by
    intro part hpart
    obtain ⟨window, -, rfl⟩ := List.mem_map.1 hpart
    exact TagRanges.isNormal_collect _
  -- each range is one of some window
  have hwindow {a : Highlight}
      (ha : a ∈ (TagRanges.union (windows.map (Window.ranges engine files document))).flat) :
      ∃ w ∈ windows, a ∈ (w.ranges engine files document).flat := by
    rw [TagRanges.mem_flat, TagRanges.mem_spansAt_union] at ha
    obtain ⟨part, hpart, ha⟩ := ha
    obtain ⟨w, hw, rfl⟩ := List.mem_map.1 hpart
    exact ⟨w, hw, TagRanges.mem_flat.2 ha⟩
  refine (TagRanges.isNormal_union hnormal).nodup_flat.imp_of_mem fun {a b} ha hb hne => ?_
  obtain ⟨w, hw, ha⟩ := hwindow ha
  obtain ⟨w', hw', hb⟩ := hwindow hb
  obtain ⟨hin, hdisjoint⟩ := Window.ranges_spec engine files (hlines w hw)
  by_cases heq : w = w'
  · subst heq
    have : Std.Symm fun a b : Highlight => a.span.Disjoint b.span := ⟨fun _ _ h => h.symm⟩
    exact hdisjoint.forall ha hb hne
  · have : Std.Symm fun a b : Window => (a.span document).Disjoint (b.span document) :=
      ⟨fun _ _ h => h.symm⟩
    obtain ⟨hin', -⟩ := Window.ranges_spec engine files (hlines w' hw')
    have hspans := happart.forall hw hw' heq
    have hleft := hspans.mono_right (hin' b hb).1 (hin' b hb).2
    exact (hleft.symm.mono_right (hin a ha).1 (hin a ha).2).symm

/-- Windows that take disjoint intervals, under claims that do not reach into any of them, are scanned as if
each of them were scanned by itself. -/
theorem scanWindowsFrom_eq {windows : List Window} (hlines : ∀ w ∈ windows, w.first ≤ w.last)
    (happart : windows.Pairwise fun a b => (a.span document).Disjoint (b.span document))
    {engine' : Engine} (hengine : ∀ text offset claims,
      engine'.plan files document.languageId text offset claims =
        engine.plan files document.languageId text offset claims)
    {claims' : ClaimSet} (hclaims : ∀ s ∈ claims'.toList, ∀ w ∈ windows, s.Disjoint (w.span document))
    {found ranges : TagRanges} {checkpoint : σ}
    (h : (scanWindowsFrom files document engine' claims' found checkpoint windows).value = .ok ranges) :
    ranges =
      ((windows.map (Window.ranges engine files document)).foldl (· ++ ·) found).normalize := by
  induction windows generalizing engine' claims' found checkpoint with
  | nil =>
    cases h
    rfl
  | cons window rest ih =>
    rw [List.forall_mem_cons] at hlines
    rw [List.pairwise_cons] at happart
    rw [scanWindowsFrom] at h
    dsimp only at h
    split at h
    · cases h
    · next found' hfound =>
      have hscan : (engine'.scan files document.languageId (window.text document)
          (window.span document).start claims' checkpoint).value.result = .ok found' := hfound
      -- the earlier claims do not matter to this window
      have houtside : ∀ s ∈ claims'.toList, s.Disjoint ⟨(window.span document).start,
          (window.span document).start + (window.text document).length⟩ := by
        intro s hs
        rw [Window.start_add_length_text hlines.1]
        exact hclaims s hs window List.mem_cons_self
      have hfound' : found' = window.ranges engine files document := by
        rw [Engine.eq_collect_of_scan hscan, hengine, engine.plan_of_outside houtside]
        rfl
      -- and its own claims do not matter to the windows that follow
      obtain ⟨made, hmade, hwithin⟩ := engine'.exists_claims_scan_within files document.languageId
        (window.text document) (window.span document).start claims' checkpoint
      rw [List.map_cons, List.foldl_cons, ← hfound']
      refine ih hlines.2 happart.2 (fun text offset claims => ?_) (fun s hs w hw => ?_) h
      · exact (engine'.plan_again files files document.languageId (window.text document) text
          (window.span document).start offset claims' claims checkpoint).trans (hengine text offset claims)
      · have hs : s ∈ (engine'.scan files document.languageId (window.text document)
            (window.span document).start claims' checkpoint).value.claims.toList := hs
        rw [hmade, ClaimSet.mem_toList_claimAll] at hs
        rcases hs with hs | ⟨hs, -⟩
        · exact hclaims s hs w (List.mem_cons_of_mem _ hw)
        · obtain ⟨hstart, hstop⟩ := hwithin s hs
          rw [Window.start_add_length_text hlines.1] at hstop
          exact ((happart.1 w hw).symm.mono_right hstart hstop).symm

variable (engine files document)

/-- The windows of the first pass, taken in any order, are scanned as if each of them were scanned by itself:
the scan of all of them, which share their claims, finds the ranges of the single windows, normalized
together. No two of these ranges overlap, and each lies in its own window. More generally, claims that do not
reach into a text change neither what a scan of it finds nor the claims that it adds. -/
theorem scanWindows_eq_union (config : ScanConfig) (checkpoint : σ) :
    let windows := viewportWindows config document
    let alone (window : Window) := engine.scan files document.languageId
      (TextDocument.textIn document (.lines window.first window.last))
      (TextDocument.offsetAt document ⟨window.first, 0⟩) .empty Unlimited.mk
    (∃ part : Window → TagRanges, (∀ window, (alone window).value.result = .ok (part window)) ∧
      (∀ order, order.Perm windows →
        (∀ ranges, (scanWindows engine files document order checkpoint).value = .ok ranges →
          ranges.toList = (TagRanges.union (windows.map part)).toList) ∧
        (Checkpoint.Allows checkpoint →
          ∃ ranges, (scanWindows engine files document order checkpoint).value = .ok ranges)) ∧
      (TagRanges.union (windows.map part)).flat.Pairwise (fun a b => a.span.Disjoint b.span) ∧
      ∀ window ∈ windows, ∀ h ∈ (part window).flat,
        TextDocument.offsetAt document ⟨window.first, 0⟩ ≤ h.span.start ∧
          h.span.stop ≤ TextDocument.offsetAt document ⟨window.last, Position.endOfLine⟩) ∧
    ∀ (matchers : Matchers) (text : String) (offset : Nat) (claims : ClaimSet) (outside : List Span),
      (∀ s ∈ outside, s.stop ≤ offset ∨ offset + text.length ≤ s.start) →
      ∃ made, (matchers.scan text offset claims checkpoint).claims = claims.claimAll made ∧
        matchers.scan text offset (claims.claimAll outside) checkpoint =
          { matchers.scan text offset claims checkpoint with
            claims := (claims.claimAll outside).claimAll made } := by
  intro windows alone
  have hlines := (viewportWindows_spec config document).1
  have happart := pairwise_disjoint_viewportWindows config document
  refine ⟨⟨Window.ranges engine files document, fun window => ?_, fun order hperm => ⟨?_, ?_⟩, ?_, ?_⟩,
    fun matchers text offset claims outside houtside =>
      matchers.scan_claimAll_outside claims houtside checkpoint⟩
  · obtain ⟨ranges, hranges, -⟩ := engine.scan_of_allows files document.languageId (window.text document)
      (window.span document).start .empty
      (Checkpoint.allows_of_forall (fun _ : Unlimited => rfl) Unlimited.mk)
    rw [Window.ranges_eq engine files document hranges]
    exact hranges
  · intro ranges hranges
    rw [scanWindowsFrom_eq (fun w hw => hlines w (hperm.mem_iff.1 hw))
      (happart.perm hperm.symm fun h => h.symm) (fun _ _ _ => rfl)
      (fun s hs => absurd hs List.not_mem_nil) hranges]
    refine TagRanges.toList_union_perm (hperm.map _) fun part hpart => ?_
    obtain ⟨window, -, rfl⟩ := List.mem_map.1 hpart
    exact TagRanges.isNormal_collect _
  · intro hallows
    exact scanWindowsFrom_of_allows files document order engine .empty .empty hallows
  · exact Window.pairwise_flat_union hlines happart
  · intro window hwindow
    exact (Window.ranges_spec engine files (hlines window hwindow)).1

/-- Two visible lines of plain text with a line between them, scanned from below: the two windows find what
they find by themselves. A comment between two claims is found as if nothing were claimed. -/
theorem scanWindows_eq_union_reversed :
    let config : ScanConfig :=
      { preloadLines := 0, highlightPlainText := true, tags := [.named "!" "red"] }
    let document := (SourceDocument.new Engine.plainTextLanguage "! a\r\nb\n! c").setVisible
      [.lines 2 2, .lines 0 0]
    let engine := (Engine.new .lenient config .empty).state
    let matchers : Matchers := ⟨none, some ⟨"^(?:!)", [['!']]⟩, .code [] [⟨['#'], by decide⟩]⟩
    viewportWindows config document = [⟨0, 0⟩, ⟨2, 2⟩] ∧
      (scanWindows engine (fun _ => none) document [⟨2, 2⟩, ⟨0, 0⟩] Unlimited.mk).value.map
        TagRanges.toList = .ok [("!", [⟨0, 3⟩, ⟨7, 10⟩])] ∧
      (∃ part : Window → TagRanges,
        (TagRanges.union [part ⟨0, 0⟩, part ⟨2, 2⟩]).toList = [("!", [⟨0, 3⟩, ⟨7, 10⟩])] ∧
        (∀ h ∈ (part ⟨0, 0⟩).flat, h.span.stop ≤ 3) ∧ ∀ h ∈ (part ⟨2, 2⟩).flat, 7 ≤ h.span.start) ∧
      (matchers.scan "# !a" 5 (ClaimSet.empty.claimAll [⟨0, 5⟩, ⟨9, 12⟩]) Unlimited.mk).result.map
        TagRanges.toList = .ok [("!", [⟨7, 9⟩])] := by
  intro config document engine matchers
  have hwindows : viewportWindows config document = [⟨0, 0⟩, ⟨2, 2⟩] := by
    have hsorted : ((TextDocument.visibleRanges document).map (Window.around config.preloadLines
        (lastLine document))).mergeSort Window.precedes = [⟨0, 0⟩, ⟨2, 2⟩] :=
      Window.mergeSort_around_eq (by decide +kernel) (by decide)
    rw [viewportWindows, Window.ofVisible, hsorted]
    rfl
  have hscanned : (scanWindows engine (fun _ => none) document [⟨2, 2⟩, ⟨0, 0⟩] Unlimited.mk).value.map
      TagRanges.toList = .ok [("!", [⟨0, 3⟩, ⟨7, 10⟩])] := by
    simp only [scanWindows, scanWindowsFrom, Engine.scan]
    simp only [engine, Engine.new, Engine.matchersFor, Std.HashMap.getElem?_empty,
      Std.HashMap.getElem?_insert_self, TagRanges.normalize_eq_insertionSort]
    decide +kernel
  have hperm : [⟨2, 2⟩, ⟨0, 0⟩].Perm (viewportWindows config document) := by
    rw [hwindows]
    exact List.Perm.swap _ _ _
  obtain ⟨⟨part, -, horders, -, hinside⟩, houtside⟩ :=
    scanWindows_eq_union engine (fun _ => none) document config Unlimited.mk
  obtain ⟨hunion, hanswers⟩ := horders _ hperm
  obtain ⟨ranges, hranges⟩ := hanswers (Checkpoint.allows_of_forall (fun _ => rfl) _)
  rw [hwindows] at hunion hinside
  refine ⟨hwindows, hscanned, ⟨part, ?_, ?_, ?_⟩, ?_⟩
  · rw [hranges] at hscanned
    exact (hunion ranges hranges).symm.trans (Except.ok.inj hscanned)
  · intro h hmem
    exact (hinside ⟨0, 0⟩ (by simp) h hmem).2.trans (by decide +kernel)
  · intro h hmem
    refine Nat.le_trans ?_ (hinside ⟨2, 2⟩ (by simp) h hmem).1
    decide +kernel
  · obtain ⟨made, -, hscan⟩ := houtside matchers "# !a" 5 .empty [⟨0, 5⟩, ⟨9, 12⟩] (by decide)
    rw [hscan]
    dsimp only [matchers]
    decide +kernel

end Windows

end CommentTags
