import CommentTags.Document.Decorations
import CommentTags.Engine
import CommentTags.Schedule.Windows

/-!
# Scheduling the scans of a document

A host asks for a scan on every edit, and polls. Requests that follow one another closely are answered
together: when nothing was requested for a while, a poll scans the visible lines and shows the result, and
a later poll scans the whole document and replaces it. The second pass is left out when the first covered
all lines.

A new request, or refreshing the engine, makes pending work void: a pass whose scan notices that at a
checkpoint shows nothing.

## Main definitions

* `Scheduler`: the pending scans of one document;
* `scanWindows`: scans the windows of a document, which share their claims;
* `Host.poll`: does whatever is due.
-/

namespace CommentTags

/-- What a scheduler waits for. -/
inductive Phase where
  /-- Nothing was requested. -/
  | idle
  /-- A scan was requested and starts at `due`. -/
  | debouncing (due : Nat)
  /-- The visible lines are shown; the whole document is scanned at `due`, if neither token is stale by
  then. -/
  | refining (due : Nat) (task generation : TaskToken)
deriving DecidableEq, Repr

/-- What a poll did. -/
inductive PollOutcome where
  /-- Nothing was requested. -/
  | idle
  /-- There is nothing to do before `due`. -/
  | waiting (due : Nat)
  /-- The visible lines were scanned and shown. -/
  | viewportApplied
  /-- The whole document was scanned and shown. -/
  | documentApplied
  /-- The pass was void and showed nothing. -/
  | cancelled
deriving DecidableEq, Repr

/-- The pending scans of one document. Times are in milliseconds. -/
structure Scheduler where
  /-- Tells which request is the latest. -/
  tasks : TaskTracker := {}
  /-- What the scheduler waits for. -/
  phase : Phase := .idle
deriving DecidableEq, Repr

namespace Scheduler

/-- Asks for a scan `delay` milliseconds from `now`. -/
def requestAfter (scheduler : Scheduler) (delay now : Nat) : Scheduler where
  tasks := scheduler.tasks.cancelAll
  phase := .debouncing (now + delay)

/-- Asks for a scan after the configured delay. -/
def request (scheduler : Scheduler) (config : ScanConfig) (now : Nat) : Scheduler :=
  scheduler.requestAfter config.debounce now

/-- Drops pending scans. -/
def cancel (scheduler : Scheduler) : Scheduler where
  tasks := scheduler.tasks.cancelAll
  phase := .idle

/-- When the next poll has something to do. -/
def nextDeadline? (scheduler : Scheduler) : Option Nat :=
  match scheduler.phase with
  | .idle => none
  | .debouncing due => some due
  | .refining due .. => some due

/-- Nothing is pending. -/
def isIdle (scheduler : Scheduler) : Bool :=
  scheduler.phase == .idle

end Scheduler

/-- A host: the engine, the scheduler of one document, and the sink that shows its ranges. -/
structure Host (κ : Type) where
  /-- The engine. -/
  engine : Engine
  /-- The scheduler. -/
  scheduler : Scheduler
  /-- The sink. -/
  sink : κ

variable {δ : Type} [TextDocument δ]

/-- Scans the windows of a document, which share their claims. -/
def scanWindowsFrom {σ : Type} [Checkpoint σ] (files : Files) (document : δ) (engine : Engine)
    (claims : ClaimSet) (found : TagRanges) (checkpoint : σ) :
    List Window → Answer Engine (Except Cancelled TagRanges)
  | [] => { value := .ok found.normalize, state := engine }
  | window :: rest =>
    let text := TextDocument.textIn document (.lines window.first window.last)
    let offset := TextDocument.offsetAt document ⟨window.first, 0⟩
    let id := TextDocument.languageId document
    let scanned := engine.scan files id text offset claims checkpoint
    match scanned.value.result with
    | .error e => { value := .error e, state := scanned.state, notices := scanned.notices }
    | .ok ranges =>
      let others := scanWindowsFrom files document scanned.state scanned.value.claims
        (found ++ ranges) scanned.value.checkpoint rest
      { others with notices := scanned.notices ++ others.notices }

/-- Scans the windows of a document. -/
def scanWindows {σ : Type} [Checkpoint σ] (engine : Engine) (files : Files) (document : δ)
    (windows : List Window) (checkpoint : σ) : Answer Engine (Except Cancelled TagRanges) :=
  scanWindowsFrom files document engine .empty .empty checkpoint windows

/-- The last line of a document. -/
def lastLine (document : δ) : Nat :=
  TextDocument.lineCount document - 1

/-- The windows of the first pass; without any, the whole document. -/
def viewportWindows (config : ScanConfig) (document : δ) : List Window :=
  match Window.ofVisible (TextDocument.visibleRanges document) config.preloadLines
      (lastLine document) with
  | [] => [⟨0, lastLine document⟩]
  | windows => windows

namespace Host

variable {κ : Type} [DecorationSink κ]

/-- Scans the visible lines at the time `now` and shows the result. -/
def viewportPass (host : Host κ) (files : Files) (document : δ) (now : Nat) :
    Answer (Host κ) PollOutcome :=
  let (task, tasks) := host.scheduler.tasks.begin
  let generation := host.engine.generation
  let config := host.engine.config
  let windows := viewportWindows config document
  let checkpoint : TaskGuard × TaskGuard := (⟨tasks, task⟩, host.engine.guard generation)
  let scanned := scanWindows host.engine files document windows checkpoint
  match scanned.value with
  | .ok ranges =>
    let phase := if windows == [⟨0, lastLine document⟩] then .idle
      else .refining (now + config.updateDelay) task generation
    { value := .viewportApplied
      state := {
        engine := scanned.state
        scheduler := ⟨tasks, phase⟩
        sink := applyDecorations scanned.state.tags document ranges host.sink }
      notices := scanned.notices }
  | .error _ =>
    { value := .cancelled
      state := { host with engine := scanned.state, scheduler := ⟨tasks, .idle⟩ }
      notices := scanned.notices }

/-- Scans the whole document for the given tokens and shows the result. -/
def documentPass (host : Host κ) (files : Files) (document : δ) (task generation : TaskToken) :
    Answer (Host κ) PollOutcome :=
  let scheduler := { host.scheduler with phase := .idle }
  let checkpoint : TaskGuard × TaskGuard :=
    (⟨host.scheduler.tasks, task⟩, host.engine.guard generation)
  let scanned := host.engine.scanDocument files document checkpoint
  match scanned.value.result with
  | .ok ranges =>
    { value := .documentApplied
      state := {
        engine := scanned.state
        scheduler
        sink := applyDecorations scanned.state.tags document ranges host.sink }
      notices := scanned.notices }
  | .error _ =>
    { value := .cancelled
      state := { host with engine := scanned.state, scheduler }
      notices := scanned.notices }

/-- Does whatever is due at the time `now`. -/
def poll (host : Host κ) (files : Files) (document : δ) (now : Nat) : Answer (Host κ) PollOutcome :=
  match host.scheduler.phase with
  | .idle => { value := .idle, state := host }
  | .debouncing due =>
    if now < due then { value := .waiting due, state := host }
    else host.viewportPass files document now
  | .refining due task generation =>
    if now < due then { value := .waiting due, state := host }
    else host.documentPass files document task generation

end Host

end CommentTags
