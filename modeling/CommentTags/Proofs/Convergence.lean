import CommentTags.Proofs.LineIndex
import CommentTags.Proofs.Plan
import CommentTags.Proofs.Poll

/-!
# The two passes lead to the same end

Whichever pass was the last one, when nothing is pending any more the sink shows what a scan of the whole
document finds. The pass for the visible lines is the last one only if its windows are the whole document.
It then scans the same text under the same claims as the pass for the whole document does, and that its
ranges are gathered and normalized once more makes no difference.

## Main definitions

* `Host.ShowsDocument`: the sink shows what a scan of the whole document finds.

## Main results

* `scanWindows_allLines`: the scan of the window of all lines;
* `Engine.scanDocument_again`: a second scan of a document finds what the first one has found;
* `Host.poll_showsDocument`: a poll that leaves nothing pending shows the whole document.
-/

namespace CommentTags

variable {σ τ δ κ : Type} [Checkpoint σ] [Checkpoint τ] [TextDocument δ] [DecorationSink κ]

/-! ## What is shown -/

/-- The map remembers for each key what was set last, or else what it held before. -/
theorem DecorationMap.get_foldl_setDecorations (shown : String → List TextRange) (keys : List String)
    (map : DecorationMap) (key : String) :
    DecorationMap.get (keys.foldl (fun map key => DecorationSink.setDecorations map key (shown key)) map)
        key = if key ∈ keys then shown key else map.get key := by
  induction keys generalizing map with
  | nil => simp
  | cons first keys ih =>
    have hset : DecorationMap.get (DecorationSink.setDecorations map first (shown first)) key =
        if first = key then shown first else map.get key := by
      show (map.ranges.insert first (shown first)).getD key [] = _
      rw [Std.TreeMap.getD_insert]
      by_cases hkey : first = key <;> simp [hkey, get]
    rw [List.foldl_cons, ih, hset]
    by_cases hmem : key ∈ keys
    · simp [hmem]
    -- no later key is the one asked for, so what the first key set stays
    · by_cases hkey : first = key
      · simp [hkey]
      · simp [hmem, hkey, Ne.symm hkey]

/-- After ranges were shown, the map holds their lines and columns for every tag. -/
theorem DecorationMap.get_applyDecorations {tags : TagTable} {document : δ} {ranges : TagRanges}
    {map : DecorationMap} {key : String} (h : key ∈ tags.keys) :
    (applyDecorations tags document ranges map).get key = (ranges.get key).map fun span =>
      ⟨TextDocument.positionAt document span.start, TextDocument.positionAt document span.stop⟩ := by
  rw [applyDecorations, get_foldl_setDecorations fun key => textRanges document (ranges.get key), if_pos h,
    textRanges]

/-- To gather the ranges of one scan and normalize them once more changes nothing. -/
theorem TagRanges.get_normalize_append_collect (highlights : List Highlight) (tag : String) :
    ((.empty ++ collect highlights : TagRanges).normalize).get tag = (collect highlights).get tag := by
  have hgather : (.empty ++ collect highlights : TagRanges).spansAt (Unicode.lowercase tag) =
      (collect highlights).spansAt (Unicode.lowercase tag) := by
    rw [spansAt_append, spansAt_empty, List.nil_append]
  show ((.empty ++ collect highlights : TagRanges).normalize).spansAt _ = (collect highlights).spansAt _
  rw [spansAt_normalize_of_pairwise, hgather]
  rw [hgather]
  exact pairwise_spansAt_normalize

/-! ## What is scanned -/

/-- The window of all lines is scanned as the whole document is. -/
theorem scanWindows_allLines (engine : Engine) (files : Files) (document : SourceDocument)
    (hsize : document.index.charCount ≤ Position.endOfLine) (checkpoint : σ) :
    let windows := scanWindows engine files document [⟨0, lastLine document⟩] checkpoint
    let whole := engine.scanDocument files document checkpoint
    windows.state = whole.state ∧
      windows.value = whole.value.result.map fun ranges => (.empty ++ ranges : TagRanges).normalize := by
  have htext : TextDocument.textIn document (.lines 0 (lastLine document)) = TextDocument.text document :=
    document.textIn_allLines hsize
  have hoffset : TextDocument.offsetAt document ⟨0, 0⟩ = 0 := LineIndex.offsetAt_start
  dsimp only
  rw [Engine.scanDocument, scanWindows, scanWindowsFrom]
  dsimp only
  rw [htext, hoffset]
  cases (engine.scan files (TextDocument.languageId document) (TextDocument.text document) 0 .empty
      checkpoint).value.result with
  | error e => exact ⟨rfl, rfl⟩
  | ok ranges => exact ⟨rfl, rfl⟩

namespace Engine

variable (engine : Engine) (files files' : Files) (document : δ) {checkpoint : σ} {ranges : TagRanges}

/-- The plan of a scan after another one in the same language is what it would have been before. -/
theorem plan_again (id text text' : String) (offset offset' : Nat) (claims claims' : ClaimSet)
    (checkpoint : σ) :
    (engine.scan files id text offset claims checkpoint).state.plan files' id text' offset' claims' =
      engine.plan files id text' offset' claims' := by
  rw [plan, plan, scan]
  dsimp only
  rw [matchersFor_again]

/-- A second scan of a document finds what the first one has found, if nothing interrupts it. -/
theorem scanDocument_again (h : (engine.scanDocument files document checkpoint).value.result = .ok ranges)
    {again : τ} (hagain : Checkpoint.Allows again) :
    ((engine.scanDocument files document checkpoint).state.scanDocument files' document again).value.result =
      .ok ranges := by
  obtain ⟨ranges', hranges', -⟩ :=
    (engine.scanDocument files document checkpoint).state.scan_of_allows files'
      (TextDocument.languageId document) (TextDocument.text document) 0 .empty hagain
  have hsecond := eq_collect_of_scan hranges'
  rw [scanDocument, plan_again, ← eq_collect_of_scan h] at hsecond
  rw [← hsecond]
  exact hranges'

end Engine

/-! ## Polls -/

/-- A poll that is due after a request shows the visible lines. -/
theorem PollStep.eq_viewportApplied {host host' : Host κ} {document : δ} {now due : Nat}
    {outcome : PollOutcome} (hstep : PollStep host document now outcome host')
    (hphase : host.scheduler.phase = .debouncing due) (hnow : due ≤ now) :
    outcome = .viewportApplied := by
  cases hstep with
  | viewportApplied => rfl
  | waiting hdue hlt =>
    rw [Scheduler.nextDeadline?, hphase] at hdue
    cases hdue
    omega
  | idle hphase' => simp [hphase] at hphase'
  | documentApplied hphase' => simp [hphase] at hphase'
  | cancelled hphase' => simp [hphase] at hphase'

/-- If nothing is pending after the visible lines were shown, their windows are the whole document. -/
theorem PollStep.viewportWindows_of_isIdle {host host' : Host κ} {document : δ} {now : Nat}
    (hstep : PollStep host document now .viewportApplied host')
    (hidle : host'.scheduler.isIdle = true) :
    viewportWindows host.engine.config document = [⟨0, lastLine document⟩] := by
  rw [Scheduler.isIdle, beq_iff_eq, hstep.phase_of_viewportApplied, Host.phaseAfterViewport] at hidle
  split at hidle
  · next hwindows => exact eq_of_beq hwindows
  · cases hidle

namespace Host

section Outcomes

variable (host : Host κ) (files : Files) (document : δ) (now : Nat)

/-- The visible lines are shown by their pass. -/
theorem poll_eq_viewportPass (h : (host.poll files document now).value = .viewportApplied) :
    host.poll files document now = host.viewportPass files document now := by
  rw [poll] at h ⊢
  split at h
  · cases h
  · split at h
    · cases h
    · next hnow => rw [if_neg hnow]
  -- the pass for the whole document does not answer so
  · split at h
    · cases h
    · rw [documentPass] at h
      dsimp only at h
      split at h <;> cases h

/-- The whole document is shown by its pass. -/
theorem exists_poll_eq_documentPass (h : (host.poll files document now).value = .documentApplied) :
    ∃ task generation,
      host.poll files document now = host.documentPass files document task generation := by
  rw [poll] at h ⊢
  split at h
  · cases h
  -- the pass for the visible lines does not answer so
  · split at h
    · cases h
    · rw [viewportPass] at h
      dsimp only at h
      split at h <;> cases h
  · split at h
    · cases h
    · next hnow => exact ⟨_, _, if_neg hnow⟩

end Outcomes

variable (host : Host DecorationMap) (files : Files) (document : SourceDocument) (now : Nat)

/-- For every tag the sink holds, by line and column, the ranges that a scan of the whole document finds that
nothing interrupts, whatever language files there are. -/
def ShowsDocument : Prop :=
  ∀ files, ∃ ranges, (host.engine.scanDocument files document Unlimited.mk).value.result = .ok ranges ∧
    ∀ key ∈ host.engine.tags.keys, host.sink.get key = (ranges.get key).map fun span =>
      ⟨TextDocument.positionAt document span.start, TextDocument.positionAt document span.stop⟩

/-- To show ranges that have, for every tag, the spans that a scan of the whole document has found is to show
the document. -/
theorem showsDocument_of_scanDocument {engine : Engine} {checkpoint : σ} {found shown : TagRanges}
    (hfound : (engine.scanDocument files document checkpoint).value.result = .ok found)
    (hshown : ∀ tag, shown.get tag = found.get tag) (scheduler : Scheduler) (sink : DecorationMap) :
    let after := (engine.scanDocument files document checkpoint).state
    ShowsDocument ⟨after, scheduler, applyDecorations after.tags document shown sink⟩ document := by
  intro after files'
  have hunlimited := Checkpoint.allows_of_forall (fun _ : Unlimited => rfl) Unlimited.mk
  refine ⟨found, engine.scanDocument_again files files' document hfound hunlimited, ?_⟩
  intro key hkey
  rw [← hshown]
  exact DecorationMap.get_applyDecorations hkey

/-- The pass for the visible lines shows the whole document if its windows are the whole document. -/
theorem viewportPass_showsDocument (hsize : document.index.charCount ≤ Position.endOfLine)
    (hwindows : viewportWindows host.engine.config document = [⟨0, lastLine document⟩])
    (hshown : (host.viewportPass files document now).value = .viewportApplied) :
    (host.viewportPass files document now).state.ShowsDocument document := by
  rw [viewportPass] at hshown ⊢
  dsimp only at hshown ⊢
  rw [hwindows] at hshown ⊢
  -- the one window holds the whole text, and its scan starts without claims
  obtain ⟨hstate, hvalue⟩ := scanWindows_allLines host.engine files document hsize
    ((⟨host.scheduler.tasks.begin.2, host.scheduler.tasks.begin.1⟩,
      host.engine.guard host.engine.generation) : TaskGuard × TaskGuard)
  rw [hstate]
  rw [hvalue] at hshown ⊢
  cases hfound : (host.engine.scanDocument files document
      ((⟨host.scheduler.tasks.begin.2, host.scheduler.tasks.begin.1⟩,
        host.engine.guard host.engine.generation) : TaskGuard × TaskGuard)).value.result with
  | error e =>
    rw [hfound] at hshown
    cases hshown
  | ok found =>
    refine showsDocument_of_scanDocument files document hfound (fun tag => ?_) _ _
    rw [Engine.eq_collect_of_scan hfound]
    exact TagRanges.get_normalize_append_collect _ tag

/-- The pass for the whole document shows it, unless it is void. -/
theorem documentPass_showsDocument {task generation : TaskToken}
    (hshown : (host.documentPass files document task generation).value = .documentApplied) :
    (host.documentPass files document task generation).state.ShowsDocument document := by
  rw [documentPass] at hshown ⊢
  dsimp only at hshown ⊢
  split at hshown
  · next ranges hfound => exact showsDocument_of_scanDocument files document hfound (fun _ => rfl) _ _
  · cases hshown

/-- When a poll has shown something and nothing is pending any more, the sink shows for every tag what a scan
of the whole document finds. The text must not be longer than columns can count, as no text in memory is. -/
theorem poll_showsDocument (hsize : document.index.charCount ≤ Position.endOfLine)
    (hshown : (host.poll files document now).value = .viewportApplied ∨
      (host.poll files document now).value = .documentApplied)
    (hidle : (host.poll files document now).state.scheduler.isIdle = true) :
    (host.poll files document now).state.ShowsDocument document := by
  have hstep := host.pollStep files document now
  rcases hshown with hshown | hshown
  · rw [hshown] at hstep
    have hwindows := hstep.viewportWindows_of_isIdle hidle
    have hpoll := host.poll_eq_viewportPass files document now hshown
    rw [hpoll] at hshown ⊢
    exact host.viewportPass_showsDocument files document now hsize hwindows hshown
  · obtain ⟨task, generation, hpoll⟩ := host.exists_poll_eq_documentPass files document now hshown
    rw [hpoll] at hshown ⊢
    exact host.documentPass_showsDocument files document hshown

/-- A text of three lines, all of which are visible: the first pass is the last one, and the sink holds the range
that a scan of the whole text finds, which is the second line without its line break. -/
theorem poll_showsDocument_plainText :
    let config : ScanConfig := { highlightPlainText := true, tags := [.named "!" "red"] }
    let document := SourceDocument.new Engine.plainTextLanguage "a\r\n! b\r\nc"
    let host : Host DecorationMap :=
      ⟨(Engine.new .lenient config .empty).state, ({} : Scheduler).requestAfter 0 0, {}⟩
    let answer := host.poll (fun _ => none) document 0
    document.index.charCount ≤ Position.endOfLine ∧ answer.value = .viewportApplied ∧
      answer.state.scheduler.isIdle = true ∧ answer.state.ShowsDocument document ∧
      answer.state.sink.get "!" = [⟨⟨1, 0⟩, ⟨1, 3⟩⟩] := by
  intro config document host answer
  have hsize : document.index.charCount ≤ Position.endOfLine := by decide +kernel
  have hstep := host.pollStep (fun _ => none) document 0
  have hshown : answer.value = .viewportApplied := hstep.eq_viewportApplied rfl (Nat.le_refl 0)
  have hwindows : viewportWindows host.engine.config document = [⟨0, lastLine document⟩] := by
    have heval : (viewportWindows config document == [⟨0, lastLine document⟩]) = true := by decide +kernel
    exact beq_iff_eq.1 heval
  have hidle : answer.state.scheduler.isIdle = true := by
    have hviewport : PollStep host document 0 .viewportApplied answer.state := hshown ▸ hstep
    rw [Scheduler.isIdle, hviewport.phase_of_viewportApplied, phaseAfterViewport, if_pos (by simp [hwindows])]
    rfl
  have hsink : answer.state.sink.get "!" = [⟨⟨1, 0⟩, ⟨1, 3⟩⟩] := by
    rw [show answer = host.viewportPass (fun _ => none) document 0 from
      host.poll_eq_viewportPass _ document 0 hshown]
    simp only [viewportPass, hwindows, scanWindows, scanWindowsFrom, Engine.scan]
    -- no matchers are remembered yet
    simp only [host, Engine.new, Engine.matchersFor, Std.HashMap.getElem?_empty,
      TagRanges.normalize_eq_insertionSort]
    decide +kernel
  exact ⟨hsize, hshown, hidle, host.poll_showsDocument _ document 0 hsize (.inl hshown) hidle, hsink⟩

end Host

end CommentTags
