import CommentTags.Proofs.Poll

/-!
# Runs of a host

A host asks for scans, drops them, polls, and changes its engine, in any order and with any clock. What it
is answered depends on its last request only. Polls wait for the deadline, the first one after it shows the
visible lines, and at most one more, not before the second deadline, shows the whole document or finds that
pass void; polls have nothing to do from then on. Dropping scans leaves polls nothing to do at once.

## Main definitions

* `Event` and `Host.run`: what a host does, and the state it leaves behind;
* `Host.Consistent`: what holds in every state that a run leaves behind;
* `Quiet` and `Answers`: what polls are answered when nothing is pending and after a request;
* `GivenEach`: what a sink is given.

## Main results

* `Host.consistent_run`: the invariant of all runs;
* `Host.run_follows_protocol`: what polls are answered after a run, and what the sink is given.
-/

namespace CommentTags

/-- Something that a host does with its engine, be it for another document. -/
inductive EngineEvent where
  /-- Looks up the matchers of a language. -/
  | lookUp (files : Files) (id : String)
  /-- Replaces the configuration. -/
  | refresh (config : ScanConfig)
  /-- Has language files read again. -/
  | refreshLanguages
  /-- Registers a language. -/
  | registerLanguage (definition : LanguageDefinition)

/-- The engine afterwards. -/
def EngineEvent.apply (engine : Engine) : EngineEvent → Engine
  | lookUp files id => (engine.matchersFor files id).state
  | refresh config => (engine.refresh config).state
  | refreshLanguages => engine.refreshLanguages
  | registerLanguage definition => engine.registerLanguage definition

/-- Something that a host does. -/
inductive Event (δ : Type) where
  /-- Asks for a scan after the configured delay. -/
  | request (now : Nat)
  /-- Asks for a scan after the given delay. -/
  | requestAfter (delay now : Nat)
  /-- Drops pending scans. -/
  | cancel
  /-- Does whatever is due. -/
  | poll (files : Files) (document : δ) (now : Nat)
  /-- Does something with the engine. -/
  | engine (event : EngineEvent)

/-- A poll: when it was, the configuration at that time, and what it did. -/
structure Polled where
  /-- The time. -/
  now : Nat
  /-- The configuration. -/
  config : ScanConfig
  /-- What the poll did. -/
  outcome : PollOutcome

variable {δ κ : Type} [TextDocument δ] [DecorationSink κ]

namespace Host

/-- A host whose engine is new and whose scheduler was not asked for anything. -/
def start (compiler : PatternCompiler) (config : ScanConfig) (languages : Registry) (sink : κ) : Host κ where
  engine := (Engine.new compiler config languages).state
  scheduler := {}
  sink := sink

/-- The host after one event. -/
def step (host : Host κ) : Event δ → Host κ
  | .request now => { host with scheduler := host.scheduler.request host.engine.config now }
  | .requestAfter delay now => { host with scheduler := host.scheduler.requestAfter delay now }
  | .cancel => { host with scheduler := host.scheduler.cancel }
  | .poll files document now => (host.poll files document now).state
  | .engine event => { host with engine := event.apply host.engine }

/-- The host after `events`. -/
def run (host : Host κ) (events : List (Event δ)) : Host κ :=
  events.foldl step host

/-- The polls among `events` up to the next request or cancellation. -/
def polls (host : Host κ) : List (Event δ) → List Polled
  | .poll files document now :: rest =>
    let answer := host.poll files document now
    ⟨now, host.engine.config, answer.value⟩ :: polls answer.state rest
  | .engine event :: rest => polls (host.step (.engine event : Event δ)) rest
  | _ => []

end Host

/-! ## What holds in every state -/

/-- Whatever is done with an engine keeps it consistent. -/
theorem Engine.Consistent.apply {engine : Engine} (h : engine.Consistent) (event : EngineEvent) :
    (event.apply engine).Consistent := by
  cases event with
  | lookUp files id => exact (engine.unrefreshed_matchersFor files id).consistent h
  | refresh config => exact engine.consistent_refresh config
  | refreshLanguages => exact h.refreshLanguages
  | registerLanguage definition => exact h.registerLanguage definition

namespace Host

/-- The engine of the host is consistent, and if a pass for the whole document is pending, no later task has
been started. -/
structure Consistent (host : Host κ) : Prop where
  /-- The engine is consistent. -/
  engine : host.engine.Consistent
  /-- The task of a pending pass is current. -/
  task : ∀ {due : Nat} {task generation : TaskToken},
    host.scheduler.phase = .refining due task generation → host.scheduler.tasks.isCurrent task = true

omit [DecorationSink κ] in
theorem consistent_start (compiler : PatternCompiler) (config : ScanConfig) (languages : Registry) (sink : κ) :
    (start compiler config languages sink).Consistent :=
  ⟨Engine.consistent_new compiler config languages, fun h => by cases h⟩

/-- A poll keeps a host consistent. -/
theorem Consistent.pollStep {host host' : Host κ} {document : δ} {now : Nat} {outcome : PollOutcome}
    (h : host.Consistent) (hstep : PollStep host document now outcome host') : host'.Consistent := by
  refine ⟨hstep.unrefreshed.consistent h.engine, fun {due task generation} hrefining => ?_⟩
  cases hstep with
  | idle => exact h.task hrefining
  | waiting => exact h.task hrefining
  | @viewportApplied _ tasks =>
    replace hrefining : host.phaseAfterViewport document now tasks = .refining due task generation :=
      hrefining
    rw [phaseAfterViewport] at hrefining
    split at hrefining <;> cases hrefining
    exact tasks.isCurrent_watch
  | documentApplied => cases hrefining
  | cancelled => cases hrefining

/-- Whatever a host does, it stays consistent. -/
theorem Consistent.step {host : Host κ} (h : host.Consistent) (event : Event δ) :
    (host.step event).Consistent := by
  cases event with
  | request now => exact ⟨h.engine, fun hrefining => by cases hrefining⟩
  | requestAfter delay now => exact ⟨h.engine, fun hrefining => by cases hrefining⟩
  | cancel => exact ⟨h.engine, fun hrefining => by cases hrefining⟩
  | poll files document now => exact h.pollStep (host.pollStep files document now)
  | engine event => exact ⟨h.engine.apply event, h.task⟩

/-- Every state that a run leaves behind is consistent. -/
theorem Consistent.run {host : Host κ} (h : host.Consistent) (events : List (Event δ)) :
    (host.run events).Consistent := by
  induction events generalizing host with
  | nil => exact h
  | cons event rest ih => exact ih (h.step event)

theorem consistent_run (compiler : PatternCompiler) (config : ScanConfig) (languages : Registry) (sink : κ)
    (events : List (Event δ)) : ((start compiler config languages sink).run events).Consistent :=
  (consistent_start compiler config languages sink).run events

end Host

/-! ## What polls are answered -/

/-- The polls find nothing to do. -/
def Quiet (polls : List Polled) : Prop :=
  ∀ polled ∈ polls, polled.outcome = .idle

/-- The polls wait for `due`. The first one from then on, together with those after it, satisfies `Then`. -/
inductive WaitsFor (due : Nat) (Then : Polled → List Polled → Prop) : List Polled → Prop where
  /-- There is no poll. -/
  | nil : WaitsFor due Then []
  /-- It is too early. -/
  | waits {polled : Polled} {rest : List Polled} (hnow : polled.now < due)
      (houtcome : polled.outcome = .waiting due) (hrest : WaitsFor due Then rest) :
      WaitsFor due Then (polled :: rest)
  /-- It is time. -/
  | due {polled : Polled} {rest : List Polled} (hnow : due ≤ polled.now) (hthen : Then polled rest) :
      WaitsFor due Then (polled :: rest)

/-- While a pass for the whole document is pending, polls wait for `due`. The first one from then on shows the
document or finds the pass void, and nothing is left to do. -/
def Refines (due : Nat) : List Polled → Prop :=
  WaitsFor due fun polled rest =>
    (polled.outcome = .documentApplied ∨ polled.outcome = .cancelled) ∧ Quiet rest

/-- After a request polls wait for `due`. The first one from then on shows the visible lines; a pass for the
whole document may follow once the configured time has passed. -/
def Answers (due : Nat) : List Polled → Prop :=
  WaitsFor due fun polled rest =>
    polled.outcome = .viewportApplied ∧
      (Quiet rest ∨ Refines (polled.now + polled.config.updateDelay) rest)

/-- What polls are answered in each phase. -/
def Phase.Admits : Phase → List Polled → Prop
  | .idle => Quiet
  | .debouncing due => Answers due
  | .refining due _ _ => Refines due

namespace Phase

/-- No polls are admitted in every phase. -/
theorem admits_nil (phase : Phase) : phase.Admits [] := by
  cases phase with
  | idle => exact fun _ h => absurd h List.not_mem_nil
  | debouncing due => exact .nil
  | refining due task generation => exact .nil

/-- A poll is admitted by the phase before it, if those after it are by the phase after it. -/
theorem admits_cons {host host' : Host κ} {document : δ} {now : Nat} {outcome : PollOutcome}
    {rest : List Polled} (hstep : PollStep host document now outcome host')
    (hrest : host'.scheduler.phase.Admits rest) :
    host.scheduler.phase.Admits (⟨now, host.engine.config, outcome⟩ :: rest) := by
  cases hstep with
  | idle hphase =>
    rw [hphase] at hrest ⊢
    exact List.forall_mem_cons.2 ⟨rfl, hrest⟩
  | @waiting due hdue hnow =>
    cases hphase : host.scheduler.phase with
    | idle =>
      rw [Scheduler.nextDeadline?, hphase] at hdue
      cases hdue
    | debouncing due' =>
      rw [Scheduler.nextDeadline?, hphase] at hdue
      cases hdue
      rw [hphase] at hrest
      exact .waits hnow rfl hrest
    | refining due' task generation =>
      rw [Scheduler.nextDeadline?, hphase] at hdue
      cases hdue
      rw [hphase] at hrest
      exact .waits hnow rfl hrest
  | @viewportApplied due tasks engine ranges hphase hnow hengine =>
    rw [hphase]
    refine .due hnow ⟨rfl, ?_⟩
    replace hrest : (host.phaseAfterViewport document now tasks).Admits rest := hrest
    rw [Host.phaseAfterViewport] at hrest
    split at hrest
    · exact .inl hrest
    · exact .inr hrest
  | documentApplied hphase hnow =>
    rw [hphase]
    exact .due hnow ⟨.inl rfl, hrest⟩
  | cancelled hphase hnow =>
    rw [hphase]
    exact .due hnow ⟨.inr rfl, hrest⟩

end Phase

/-- What polls are answered depends on the phase they find alone. -/
theorem Host.admits_polls (host : Host κ) (events : List (Event δ)) :
    host.scheduler.phase.Admits (host.polls events) := by
  induction events generalizing host with
  | nil => exact host.scheduler.phase.admits_nil
  | cons event rest ih =>
    cases event with
    | poll files document now => exact Phase.admits_cons (host.pollStep files document now) (ih _)
    | engine event => exact ih (host.step (.engine event : Event δ))
    | request now => exact host.scheduler.phase.admits_nil
    | requestAfter delay now => exact host.scheduler.phase.admits_nil
    | cancel => exact host.scheduler.phase.admits_nil

/-! ## What the sink is given -/

/-- The outcome is that something was shown. -/
def PollOutcome.shows : PollOutcome → Bool
  | viewportApplied => true
  | documentApplied => true
  | _ => false

/-- Between `before` and `after` the sink was given one list of ranges for each of `keys`, in this order, and
nothing else. -/
def GivenEach (keys : List String) (before after : κ) : Prop :=
  ∃ given : List (String × List TextRange), given.map Prod.fst = keys ∧
    after = given.foldl (fun sink call => DecorationSink.setDecorations sink call.1 call.2) before

/-- Showing ranges gives the sink one list for each key of the table. -/
theorem givenEach_applyDecorations (tags : TagTable) (document : δ) (ranges : TagRanges) (sink : κ) :
    GivenEach tags.keys sink (applyDecorations tags document ranges sink) := by
  refine ⟨tags.keys.map fun key => (key, textRanges document (ranges.get key)), ?_, ?_⟩
  · rw [List.map_map]
    exact List.map_id _
  · rw [applyDecorations, List.foldl_map]

/-- A poll gives the sink one list of ranges for each tag if it shows something, and otherwise nothing. -/
theorem PollStep.givenEach {host host' : Host κ} {document : δ} {now : Nat} {outcome : PollOutcome}
    (hstep : PollStep host document now outcome host') :
    GivenEach (if outcome.shows then host.engine.tags.keys else []) host.sink host'.sink := by
  cases hstep with
  | idle => exact ⟨[], rfl, rfl⟩
  | waiting => exact ⟨[], rfl, rfl⟩
  | viewportApplied => exact givenEach_applyDecorations _ document _ host.sink
  | documentApplied => exact givenEach_applyDecorations _ document _ host.sink
  | cancelled => exact ⟨[], rfl, rfl⟩

/-- A poll that finds a pass void does so because the engine was refreshed. -/
theorem PollStep.stale_of_cancelled {host host' : Host κ} {document : δ} {now : Nat}
    (hstep : PollStep host document now .cancelled host') (hhost : host.Consistent) :
    ∃ due task generation, host.scheduler.phase = .refining due task generation ∧
      host.engine.refreshes.isCurrent generation = false := by
  cases hstep with
  | cancelled hphase hnow hengine hstale =>
    refine ⟨_, _, _, hphase, hstale.resolve_left fun htask => ?_⟩
    rw [hhost.task hphase] at htask
    cases htask

namespace Host

/-- After any run of a host:

* a poll gives the sink one list of ranges for each configured tag, in the order of the table, if it shows
  something, and otherwise nothing;
* polls after a request wait for its deadline, then show the visible lines once, and then show the whole
  document or find that pass void once at most, not before the second deadline;
* after pending scans are dropped, polls have nothing to do;
* the task of a pending pass is current, so that only a refresh of the engine makes the pass void.

So nothing that was requested before the last request or cancellation has any effect. -/
theorem run_follows_protocol (compiler : PatternCompiler) (config : ScanConfig) (languages : Registry) (sink : κ)
    (before : List (Event δ)) :
    let host := (start compiler config languages sink).run before
    (∀ (files : Files) (document : δ) (now : Nat),
      let answer := host.poll files document now
      let keys := (TagTable.ofEntries host.engine.config.tags).keys
      keys.Nodup ∧ GivenEach (if answer.value.shows then keys else []) host.sink answer.state.sink) ∧
    (∀ (now : Nat) (events : List (Event δ)),
      Answers (now + host.engine.config.debounce) ((host.step (.request now : Event δ)).polls events)) ∧
    (∀ (delay now : Nat) (events : List (Event δ)),
      Answers (now + delay) ((host.step (.requestAfter delay now : Event δ)).polls events)) ∧
    (∀ events : List (Event δ), Quiet ((host.step (.cancel : Event δ)).polls events)) ∧
    (∀ (due : Nat) (task generation : TaskToken),
      host.scheduler.phase = .refining due task generation →
        host.scheduler.tasks.isCurrent task = true) ∧
    (∀ (files : Files) (document : δ) (now : Nat),
      (host.poll files document now).value = .cancelled →
        ∃ due task generation, host.scheduler.phase = .refining due task generation ∧
          host.engine.refreshes.isCurrent generation = false) := by
  intro host
  have hhost : host.Consistent := consistent_run compiler config languages sink before
  refine ⟨fun files document now => ⟨TagTable.nodup_keys_ofEntries _, ?_⟩, ?_, ?_, ?_, ?_, ?_⟩
  · rw [← hhost.engine.tags]
    exact (host.pollStep files document now).givenEach
  · intro now events
    exact (host.step (.request now : Event δ)).admits_polls events
  · intro delay now events
    exact (host.step (.requestAfter delay now : Event δ)).admits_polls events
  · intro events
    exact (host.step (.cancel : Event δ)).admits_polls events
  · intro due task generation hphase
    exact hhost.task hphase
  · intro files document now hcancelled
    have hstep := host.pollStep files document now
    rw [hcancelled] at hstep
    exact hstep.stale_of_cancelled hhost

end Host

end CommentTags
