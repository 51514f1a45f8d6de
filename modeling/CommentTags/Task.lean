import CommentTags.Checkpoint

/-!
# Tasks that supersede one another

At most one task is current. A `TaskTracker` hands out a `TaskToken` for each task; starting a newer
task, or cancelling, makes every token handed out before stale. Task numbers are 64-bit words.
-/

namespace CommentTags

/-- The right to go on for as long as the task `id` is current. -/
structure TaskToken where
  /-- The number of the task. -/
  id : UInt64
deriving DecidableEq, Repr, Inhabited

/-- Knows which task is current. -/
structure TaskTracker where
  /-- The number of the task started or cancelled last. -/
  current : UInt64 := 0
deriving DecidableEq, Repr, Inhabited

namespace TaskTracker

/-- Starts a task: its token, and the tracker for which every earlier token is stale. -/
def begin (tracker : TaskTracker) : TaskToken × TaskTracker :=
  let id := tracker.current + 1
  (⟨id⟩, ⟨id⟩)

/-- A token of the current task. -/
def watch (tracker : TaskTracker) : TaskToken :=
  ⟨tracker.current⟩

/-- Makes every token stale without starting a task. -/
def cancelAll (tracker : TaskTracker) : TaskTracker :=
  ⟨tracker.current + 1⟩

/-- No newer task has been started. -/
def isCurrent (tracker : TaskTracker) (token : TaskToken) : Bool :=
  tracker.current == token.id

end TaskTracker

/-- A token together with the tracker that tells whether it is stale. -/
structure TaskGuard where
  /-- The tracker that handed out the token. -/
  tracker : TaskTracker
  /-- The token. -/
  token : TaskToken
deriving DecidableEq, Repr, Inhabited

instance : Checkpoint TaskGuard := ⟨fun g => (g.tracker.isCurrent g.token, g)⟩

end CommentTags
