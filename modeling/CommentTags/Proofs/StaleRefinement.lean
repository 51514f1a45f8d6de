import CommentTags.Proofs.HostRun

/-!
# Refreshing the engine while a pass is pending

When the engine is refreshed after the visible lines were shown, the token of the pass for the whole document
is stale. The pass is void if its scan notices that, and a scan notices it at its first checkpoint. But a scan
that has nothing to look for never comes to one. So where the refreshed engine has no matchers for the
document, or the document has become empty, the pass takes away what the first pass has shown.

## Main definitions

* `Event.StaysPending`: what a host may do while a pass remains pending.

## Main results

* `Host.poll_after_refresh`: what the pass does once the engine has been refreshed.
-/

namespace CommentTags

variable {δ κ : Type} [TextDocument δ] [DecorationSink κ]

/-! ## Counting refreshes -/

/-- The event makes the tokens of the engine stale. -/
def EngineEvent.isRefresh : EngineEvent → Bool
  | lookUp .. => false
  | _ => true

/-- The event makes the tokens of the engine stale. -/
def Event.isRefresh : Event δ → Bool
  | .engine event => event.isRefresh
  | _ => false

/-- The event leaves a pass pending that is due at `due`: it is neither a request nor a cancellation, and if it
is a poll it comes too early. -/
def Event.StaysPending (due : Nat) : Event δ → Prop
  | .poll _ _ now => now < due
  | .engine _ => True
  | _ => False

/-- A token is stale after `count` further tasks, unless their number is a multiple of 2⁶⁴. -/
theorem isCurrent_watch_of_add {before after : TaskTracker} {count : Nat}
    (h : after.current = before.current + UInt64.ofNat count) (hcount : count % UInt64.size ≠ 0) :
    after.isCurrent before.watch = false := by
  rw [TaskTracker.isCurrent, beq_eq_false_iff_ne, h]
  intro heq
  have hnat := congrArg UInt64.toNat heq
  rw [UInt64.toNat_add, UInt64.toNat_ofNat'] at hnat
  have hlt := before.current.toNat_lt
  rw [UInt64.size] at hcount
  simp only [TaskTracker.watch] at hnat
  omega

/-- Each refresh of the engine is counted. -/
theorem EngineEvent.refreshes_apply (engine : Engine) (event : EngineEvent) :
    (event.apply engine).refreshes.current =
      engine.refreshes.current + UInt64.ofNat (if event.isRefresh then 1 else 0) := by
  cases event with
  | lookUp files id =>
    show (engine.matchersFor files id).state.refreshes.current = _
    rw [(engine.unrefreshed_matchersFor files id).refreshes]
    exact (UInt64.add_zero _).symm
  | refresh config => rfl
  | refreshLanguages => rfl
  | registerLanguage definition => rfl

namespace Host

/-- While a pass remains pending, only the engine changes, and each refresh is counted. -/
theorem run_staysPending {host : Host κ} {due : Nat} {task generation : TaskToken}
    (hphase : host.scheduler.phase = .refining due task generation) {events : List (Event δ)}
    (hevents : ∀ event ∈ events, event.StaysPending due) :
    (host.run events).scheduler = host.scheduler ∧ (host.run events).sink = host.sink ∧
      (host.run events).engine.refreshes.current =
        host.engine.refreshes.current + UInt64.ofNat (events.countP Event.isRefresh) := by
  induction events generalizing host with
  | nil => exact ⟨rfl, rfl, (UInt64.add_zero _).symm⟩
  | cons event rest ih =>
    obtain ⟨hevent, hrest⟩ := List.forall_mem_cons.1 hevents
    -- one event leaves the scheduler and the sink alone
    have hstep : (host.step event).scheduler = host.scheduler ∧ (host.step event).sink = host.sink ∧
        (host.step event).engine.refreshes.current =
          host.engine.refreshes.current + UInt64.ofNat (if event.isRefresh then 1 else 0) := by
      cases event with
      | poll files document now =>
        have hpoll : host.poll files document now = { value := .waiting due, state := host } := by
          rw [poll, hphase]
          exact if_pos hevent
        have hsame : host.step (.poll files document now) = host := by
          rw [step, hpoll]
        rw [hsame]
        exact ⟨rfl, rfl, (UInt64.add_zero _).symm⟩
      | engine event => exact ⟨rfl, rfl, event.refreshes_apply host.engine⟩
      | request now => exact hevent.elim
      | requestAfter delay now => exact hevent.elim
      | cancel => exact hevent.elim
    obtain ⟨hscheduler, hsink, hrefreshes⟩ := hstep
    obtain ⟨hscheduler', hsink', hrefreshes'⟩ := ih (hscheduler ▸ hphase) hrest
    refine ⟨hscheduler'.trans hscheduler, hsink'.trans hsink, hrefreshes'.trans ?_⟩
    rw [hrefreshes, List.countP_cons, Nat.add_comm, UInt64.ofNat_add, UInt64.add_assoc]

/-- A poll that is due after a request shows the visible lines. Unless they are the whole document, a pass for
all of it is due after the configured time. -/
theorem poll_of_debouncing (host : Host κ) {due now : Nat}
    (hphase : host.scheduler.phase = .debouncing due) (hnow : due ≤ now) (files : Files) (document : δ)
    (hwindows : (viewportWindows host.engine.config document == [⟨0, lastLine document⟩]) = false) :
    (host.poll files document now).value = .viewportApplied ∧
      (host.poll files document now).state.scheduler.nextDeadline? =
        some (now + host.engine.config.updateDelay) := by
  have hvalue : (host.poll files document now).value = .viewportApplied := by
    have hadmits := host.admits_polls [.poll files document now]
    rw [hphase] at hadmits
    cases hadmits with
    | waits hlt => exact absurd hlt (Nat.not_lt.2 hnow)
    | due _ hthen => exact hthen.1
  have hstep := host.pollStep files document now
  rw [hvalue] at hstep
  refine ⟨hvalue, ?_⟩
  rw [Scheduler.nextDeadline?, hstep.phase_of_viewportApplied, phaseAfterViewport, hwindows]
  rfl

/-- A pass that is pending once the visible lines were shown has the token that the engine gives out then. -/
theorem refining_of_viewportApplied {host host' : Host κ} {document : δ} {now due : Nat}
    (hstep : PollStep host document now .viewportApplied host')
    (hdue : host'.scheduler.nextDeadline? = some due) :
    host'.scheduler.phase = .refining due host'.scheduler.tasks.watch host'.engine.generation := by
  have hphase := hstep.phase_of_viewportApplied
  have hgeneration : host.engine.generation = host'.engine.generation := by
    rw [Engine.generation, Engine.generation, hstep.unrefreshed.refreshes]
  rw [phaseAfterViewport, hgeneration] at hphase
  rw [Scheduler.nextDeadline?] at hdue
  split at hphase <;> rw [hphase] at hdue <;> cases hdue
  exact hphase

/-- A pass for the whole document is void if the engine was refreshed and there is something to look for. If
there is nothing to look for, it shows that nothing was found. -/
theorem poll_of_stale {host : Host κ} (hhost : host.Consistent) {due now : Nat} {task generation : TaskToken}
    (hphase : host.scheduler.phase = .refining due task generation) (hnow : due ≤ now)
    (hstale : host.engine.refreshes.isCurrent generation = false) (files : Files) (document : δ) :
    let answer := host.poll files document now
    if (host.engine.matchersFor files (TextDocument.languageId document)).value.isSome ∧
        (TextDocument.text document).isEmpty = false then
      answer.value = .cancelled ∧ answer.state.sink = host.sink
    else
      answer.value = .documentApplied ∧
        answer.state.sink = applyDecorations host.engine.tags document .empty host.sink := by
  have hpoll : host.poll files document now = host.documentPass files document task generation := by
    rw [poll, hphase]
    exact if_neg (Nat.not_lt.2 hnow)
  let checkpoint : TaskGuard × TaskGuard := (⟨host.scheduler.tasks, task⟩, host.engine.guard generation)
  have hrefuses : (Checkpoint.consult checkpoint).1 = false := by
    rw [Checkpoint.consult_prod]
    split
    · exact hstale
    · rfl
  dsimp only
  rw [hpoll]
  split
  · next hlooks =>
    have hresult := host.engine.scan_of_refuses files (TextDocument.languageId document)
      (TextDocument.text document) 0 .empty hhost.engine hlooks.1 hlooks.2 hrefuses
    rw [documentPass]
    dsimp only
    rw [Engine.scanDocument, hresult]
    exact ⟨rfl, rfl⟩
  · next hnothing =>
    rw [not_and_or, Bool.not_eq_true, Option.isSome_eq_false_iff, Option.isNone_iff_eq_none,
      Bool.not_eq_false] at hnothing
    have hresult := host.engine.scan_of_nothing files (TextDocument.languageId document)
      (TextDocument.text document) 0 .empty checkpoint hnothing
    have htags := (host.engine.unrefreshed_scan files (TextDocument.languageId document)
      (TextDocument.text document) 0 .empty checkpoint).tags
    rw [documentPass]
    dsimp only
    rw [Engine.scanDocument, hresult, htags]
    exact ⟨rfl, rfl⟩

/-- If the engine is refreshed while a pass for the whole document is pending, the pass is void and shows
nothing, provided that the engine then has matchers for the document and the document is not empty. Otherwise
the scan ends before its first checkpoint, and the pass shows an empty list of ranges for every tag. A number
of refreshes that is a multiple of 2⁶⁴ goes unnoticed. -/
theorem poll_after_refresh (compiler : PatternCompiler) (config : ScanConfig) (languages : Registry) (sink : κ)
    (before between : List (Event δ)) (files files' : Files) (document document' : δ)
    (now now' due : Nat) :
    let shown := ((start compiler config languages sink).run before).poll files document now
    let host := shown.state.run between
    let answer := host.poll files' document' now'
    shown.value = .viewportApplied → shown.state.scheduler.nextDeadline? = some due →
    (∀ event ∈ between, event.StaysPending due) → between.countP Event.isRefresh % UInt64.size ≠ 0 →
    due ≤ now' →
    host.sink = shown.state.sink ∧
      if (host.engine.matchersFor files' (TextDocument.languageId document')).value.isSome ∧
          (TextDocument.text document').isEmpty = false then
        answer.value = .cancelled ∧ answer.state.sink = host.sink
      else
        answer.value = .documentApplied ∧
          answer.state.sink = applyDecorations host.engine.tags document' .empty host.sink := by
  intro shown host answer hshown hdue hbetween hcount hnow
  have hconsistent : shown.state.Consistent :=
    (consistent_run compiler config languages sink before).step (.poll files document now)
  have hstep := ((start compiler config languages sink).run before).pollStep files document now
  rw [hshown] at hstep
  have hphase := refining_of_viewportApplied hstep hdue
  obtain ⟨hscheduler, hsink, hrefreshes⟩ := run_staysPending hphase hbetween
  have hstale : host.engine.refreshes.isCurrent shown.state.engine.generation = false :=
    isCurrent_watch_of_add hrefreshes hcount
  have hpending : host.scheduler.phase = .refining due shown.state.scheduler.tasks.watch
      shown.state.engine.generation := by
    rw [hscheduler, hphase]
  exact ⟨hsink, poll_of_stale (hconsistent.run between) hpending hnow hstale files' document'⟩

/-- The first line of a document in plain text is shown, and the engine refreshed. If plain text is scanned as
before, the pass for the whole document is void. -/
theorem poll_after_refresh_plainText :
    let config : ScanConfig := { highlightPlainText := true, preloadLines := 0, tags := [.named "!" "red"] }
    let document : SourceDocument :=
      { languageId := Engine.plainTextLanguage, index := .ofString "! a\nb", visible := [.lines 0 0] }
    let files : Files := fun _ => none
    let before : List (Event SourceDocument) := [.requestAfter 0 0]
    let between : List (Event SourceDocument) := [.engine (.refresh config)]
    let shown := ((start .lenient config .empty ({} : DecorationMap)).run before).poll files document 0
    let answer := (shown.state.run between).poll files document 100
    shown.value = .viewportApplied ∧ shown.state.scheduler.nextDeadline? = some 100 ∧
      answer.value = .cancelled ∧ answer.state.sink = shown.state.sink := by
  intro config document files before between shown answer
  obtain ⟨hshown, hdue⟩ := poll_of_debouncing ((start .lenient config .empty ({} : DecorationMap)).run before)
    rfl (Nat.le_refl 0) files document (by decide +kernel)
  have hmatchers : ((shown.state.run between).engine.matchersFor files Engine.plainTextLanguage).value.isSome =
      true := by
    have hcompiler : shown.state.engine.compiler = .lenient :=
      (((start .lenient config .empty ({} : DecorationMap)).run before).pollStep files document
        0).unrefreshed.compiler
    show ((shown.state.engine.refresh config).state.matchersFor files _).value.isSome = true
    rw [Engine.matchersFor_refresh_plainText, hcompiler]
    decide +kernel
  have htext : (TextDocument.text document).isEmpty = false := by decide +kernel
  obtain ⟨hsink, hcancelled⟩ := poll_after_refresh .lenient config .empty ({} : DecorationMap) before between files
    files document document 0 100 100 hshown hdue (by simp [between, Event.StaysPending]) (by decide)
    (Nat.le_refl _)
  rw [if_pos ⟨hmatchers, htext⟩, hsink] at hcancelled
  exact ⟨hshown, hdue, hcancelled⟩

/-- If plain text is not scanned any more, the pass is not void: it takes away what was shown for the tag. -/
theorem not_cancelled_after_refresh :
    let config : ScanConfig := { highlightPlainText := true, preloadLines := 0, tags := [.named "!" "red"] }
    let document : SourceDocument :=
      { languageId := Engine.plainTextLanguage, index := .ofString "! a\nb", visible := [.lines 0 0] }
    let files : Files := fun _ => none
    let before : List (Event SourceDocument) := [.requestAfter 0 0]
    let between : List (Event SourceDocument) :=
      [.engine (.refresh { config with highlightPlainText := false })]
    let shown := ((start .lenient config .empty ({} : DecorationMap)).run before).poll files document 0
    let answer := (shown.state.run between).poll files document 100
    shown.value = .viewportApplied ∧ shown.state.scheduler.nextDeadline? = some 100 ∧
      answer.value = .documentApplied ∧
      answer.state.sink.updates = shown.state.sink.updates + 1 ∧ answer.state.sink.get "!" = [] := by
  intro config document files before between shown answer
  obtain ⟨hshown, hdue⟩ := poll_of_debouncing ((start .lenient config .empty ({} : DecorationMap)).run before)
    rfl (Nat.le_refl 0) files document (by decide +kernel)
  have hstep := ((start .lenient config .empty ({} : DecorationMap)).run before).pollStep files document 0
  rw [hshown] at hstep
  have hconsistent : (shown.state.run between).Consistent :=
    ((consistent_run .lenient config .empty ({} : DecorationMap) before).step (.poll files document 0)).run between
  have hpending : (shown.state.run between).scheduler.phase =
      .refining 100 shown.state.scheduler.tasks.watch shown.state.engine.generation :=
    refining_of_viewportApplied hstep hdue
  have hcount : (shown.state.run between).engine.refreshes.current =
      shown.state.engine.refreshes.current + UInt64.ofNat 1 := rfl
  have hmatchers : ((shown.state.run between).engine.matchersFor files Engine.plainTextLanguage).value =
      none :=
    Engine.matchersFor_refresh_plainText shown.state.engine _ files
  have hanswer := poll_of_stale hconsistent hpending (Nat.le_refl 100)
    (isCurrent_watch_of_add hcount (by decide)) files document
  rw [if_neg (fun hlooks => by
    rw [show TextDocument.languageId document = Engine.plainTextLanguage from rfl, hmatchers] at hlooks
    exact absurd hlooks.1 Bool.false_ne_true)] at hanswer
  have hkeys : (shown.state.run between).engine.tags.keys = ["!"] := by
    show (TagTable.build config.tags shown.state.engine.escapes).1.keys = ["!"]
    rw [TagTable.build_fst]
    decide +kernel
  have hsink : answer.state.sink = DecorationSink.setDecorations shown.state.sink "!" [] := by
    rw [hanswer.2, applyDecorations, hkeys]
    rfl
  refine ⟨hshown, hdue, hanswer.1, ?_, ?_⟩
  · rw [hsink]
    rfl
  · rw [hsink]
    exact Std.TreeMap.getD_insert_self

end Host

end CommentTags
