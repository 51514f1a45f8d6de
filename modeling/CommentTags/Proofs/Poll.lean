import CommentTags.Proofs.Engine
import CommentTags.Schedule.Scheduler

/-!
# What a poll can do

Everything that a poll can do is one of five steps: nothing is pending, it is too early, the visible lines
are shown, the whole document is shown, or the pass for the whole document is void. All else about
schedulers is derived from these.

A pass for the visible lines is never void: its tokens are handed out when it starts, and nothing can make
them stale before it ends.

## Main definitions

* `Host.phaseAfterViewport`: what is pending once the visible lines are shown;
* `PollStep`: what a poll can do.

## Main results

* `Host.pollStep`: a poll does one of these steps.
-/

namespace CommentTags

variable {σ δ κ : Type} [Checkpoint σ] [TextDocument δ] [DecorationSink κ]

/-- The phase after the visible lines were shown at `now`, when `tasks` knows the current task: nothing is
pending if they are the whole document. -/
def Host.phaseAfterViewport (host : Host κ) (document : δ) (now : Nat) (tasks : TaskTracker) : Phase :=
  if viewportWindows host.engine.config document == [⟨0, lastLine document⟩] then .idle
  else .refining (now + host.engine.config.updateDelay) tasks.watch host.engine.generation

/-- A step of `host` when it is polled at `now`. -/
inductive PollStep (host : Host κ) (document : δ) (now : Nat) : PollOutcome → Host κ → Prop where
  /-- Nothing is pending. -/
  | idle (hphase : host.scheduler.phase = .idle) : PollStep host document now .idle host
  /-- It is too early. -/
  | waiting {due : Nat} (hdue : host.scheduler.nextDeadline? = some due) (hnow : now < due) :
      PollStep host document now (.waiting due) host
  /-- The visible lines are shown. Unless they are the whole document, a pass for all of it is pending from
  then on, whose tokens are current. -/
  | viewportApplied {due : Nat} {tasks : TaskTracker} {engine : Engine} {ranges : TagRanges}
      (hphase : host.scheduler.phase = .debouncing due) (hnow : due ≤ now)
      (hengine : host.engine.Unrefreshed engine) :
      PollStep host document now .viewportApplied
        ⟨engine, ⟨tasks, host.phaseAfterViewport document now tasks⟩,
          applyDecorations host.engine.tags document ranges host.sink⟩
  /-- The whole document is shown. -/
  | documentApplied {due : Nat} {task generation : TaskToken} {engine : Engine} {ranges : TagRanges}
      (hphase : host.scheduler.phase = .refining due task generation) (hnow : due ≤ now)
      (hengine : host.engine.Unrefreshed engine) :
      PollStep host document now .documentApplied
        ⟨engine, ⟨host.scheduler.tasks, .idle⟩,
          applyDecorations host.engine.tags document ranges host.sink⟩
  /-- The pass for the whole document is void. -/
  | cancelled {due : Nat} {task generation : TaskToken} {engine : Engine}
      (hphase : host.scheduler.phase = .refining due task generation) (hnow : due ≤ now)
      (hengine : host.engine.Unrefreshed engine)
      (hstale : host.scheduler.tasks.isCurrent task = false ∨
        host.engine.refreshes.isCurrent generation = false) :
      PollStep host document now .cancelled ⟨engine, ⟨host.scheduler.tasks, .idle⟩, host.sink⟩

/-- What is pending once the visible lines are shown. -/
theorem PollStep.phase_of_viewportApplied {host host' : Host κ} {document : δ} {now : Nat}
    (hstep : PollStep host document now .viewportApplied host') :
    host'.scheduler.phase = host.phaseAfterViewport document now host'.scheduler.tasks := by
  cases hstep with
  | viewportApplied => rfl

/-- A poll refreshes nothing. -/
theorem PollStep.unrefreshed {host host' : Host κ} {document : δ} {now : Nat} {outcome : PollOutcome}
    (hstep : PollStep host document now outcome host') : host.engine.Unrefreshed host'.engine := by
  cases hstep with
  | idle => exact .refl _
  | waiting => exact .refl _
  | viewportApplied hphase hnow hengine => exact hengine
  | documentApplied hphase hnow hengine => exact hengine
  | cancelled hphase hnow hengine => exact hengine

/-! ## Windows -/

/-- Scanning windows refreshes nothing. -/
theorem unrefreshed_scanWindowsFrom (files : Files) (document : δ) (windows : List Window)
    (engine : Engine) (claims : ClaimSet) (found : TagRanges) (checkpoint : σ) :
    engine.Unrefreshed (scanWindowsFrom files document engine claims found checkpoint windows).state := by
  induction windows generalizing engine claims found checkpoint with
  | nil => exact .refl engine
  | cons window rest ih =>
    have hscan := engine.unrefreshed_scan files (TextDocument.languageId document)
      (TextDocument.textIn document (.lines window.first window.last))
      (TextDocument.offsetAt document ⟨window.first, 0⟩) claims checkpoint
    rw [scanWindowsFrom]
    split
    · exact hscan
    · exact hscan.trans (ih _ _ _ _)

/-- Scanning windows is not interrupted if the checkpoint always agrees. -/
theorem scanWindowsFrom_of_allows (files : Files) (document : δ) (windows : List Window)
    (engine : Engine) (claims : ClaimSet) (found : TagRanges) {checkpoint : σ}
    (h : Checkpoint.Allows checkpoint) :
    ∃ ranges, (scanWindowsFrom files document engine claims found checkpoint windows).value =
      .ok ranges := by
  induction windows generalizing engine claims found checkpoint with
  | nil => exact ⟨_, rfl⟩
  | cons window rest ih =>
    rw [scanWindowsFrom]
    obtain ⟨ranges, hresult, hallows⟩ := engine.scan_of_allows files (TextDocument.languageId document)
      (TextDocument.textIn document (.lines window.first window.last))
      (TextDocument.offsetAt document ⟨window.first, 0⟩) claims h
    split
    · next e herror =>
      rw [hresult] at herror
      cases herror
    · exact ih _ _ _ hallows

/-! ## Passes -/

/-- Both tokens of a pass are current. -/
theorem allows_guards {tasks : TaskTracker} {task generation : TaskToken} {engine : Engine}
    (htask : tasks.isCurrent task = true) (hgeneration : engine.refreshes.isCurrent generation = true) :
    Checkpoint.Allows ((⟨tasks, task⟩, engine.guard generation) : TaskGuard × TaskGuard) :=
  Checkpoint.allows_prod_iff.2 ⟨TaskGuard.allows_iff.2 htask, TaskGuard.allows_iff.2 hgeneration⟩

namespace Host

variable (host : Host κ) (files : Files) (document : δ) (now : Nat)

/-- The pass for the visible lines shows them. -/
theorem pollStep_viewportPass {due : Nat} (hphase : host.scheduler.phase = .debouncing due)
    (hnow : due ≤ now) :
    PollStep host document now (host.viewportPass files document now).value
      (host.viewportPass files document now).state := by
  have hallows : Checkpoint.Allows ((⟨host.scheduler.tasks.begin.2, host.scheduler.tasks.begin.1⟩,
      host.engine.guard host.engine.generation) : TaskGuard × TaskGuard) :=
    allows_guards (TaskTracker.isCurrent_begin _) (TaskTracker.isCurrent_watch _)
  have hunrefreshed := unrefreshed_scanWindowsFrom files document
    (viewportWindows host.engine.config document) host.engine .empty .empty
    ((⟨host.scheduler.tasks.begin.2, host.scheduler.tasks.begin.1⟩,
      host.engine.guard host.engine.generation) : TaskGuard × TaskGuard)
  obtain ⟨ranges, hvalue⟩ := scanWindowsFrom_of_allows files document
    (viewportWindows host.engine.config document) host.engine .empty .empty hallows
  rw [viewportPass]
  dsimp only
  rw [scanWindows, hvalue]
  dsimp only
  rw [hunrefreshed.tags]
  exact .viewportApplied hphase hnow hunrefreshed

/-- The pass for the whole document shows it, or it is void. -/
theorem pollStep_documentPass {due : Nat} {task generation : TaskToken}
    (hphase : host.scheduler.phase = .refining due task generation) (hnow : due ≤ now) :
    PollStep host document now (host.documentPass files document task generation).value
      (host.documentPass files document task generation).state := by
  have hunrefreshed := host.engine.unrefreshed_scan files (TextDocument.languageId document)
    (TextDocument.text document) 0 .empty
    ((⟨host.scheduler.tasks, task⟩, host.engine.guard generation) : TaskGuard × TaskGuard)
  rw [documentPass]
  dsimp only
  split
  · next ranges hresult =>
    dsimp only
    rw [Engine.scanDocument, hunrefreshed.tags]
    exact .documentApplied hphase hnow hunrefreshed
  · next e hresult =>
    refine .cancelled hphase hnow hunrefreshed ?_
    -- a pass whose tokens are current is not interrupted
    by_contra hcurrent
    rw [not_or, Bool.not_eq_false, Bool.not_eq_false] at hcurrent
    obtain ⟨ranges, hok, -⟩ := host.engine.scan_of_allows files (TextDocument.languageId document)
      (TextDocument.text document) 0 .empty (allows_guards hcurrent.1 hcurrent.2)
    rw [Engine.scanDocument, hok] at hresult
    cases hresult

/-- Whatever a poll does is one of its steps. -/
theorem pollStep :
    PollStep host document now (host.poll files document now).value
      (host.poll files document now).state := by
  rw [poll]
  split
  · next hphase => exact .idle hphase
  · next due hphase =>
    split
    · next hnow =>
      exact .waiting (by rw [Scheduler.nextDeadline?, hphase]) hnow
    · next hnow => exact host.pollStep_viewportPass files document now hphase (Nat.le_of_not_lt hnow)
  · next due task generation hphase =>
    split
    · next hnow =>
      exact .waiting (by rw [Scheduler.nextDeadline?, hphase]) hnow
    · next hnow => exact host.pollStep_documentPass files document now hphase (Nat.le_of_not_lt hnow)

end Host

end CommentTags
