import CommentTags.Proofs.Engine
import CommentTags.Proofs.Plan
import CommentTags.Proofs.Registry

/-!
# An engine answers as a new one

An engine remembers matchers, the marks of documents and of languages, and the patterns of literals. These
are forgotten at different times: a refresh of the configuration keeps the marks, a refresh of the languages
or a new language keeps the patterns. All the same, matchers and scans are those of an engine that has just
been built from the current configuration and the current languages, provided that language files change
only when the languages are refreshed or registered.

## Main definitions

* `PatternBuilder.Transparent`: what is built does not depend on the cache of escaped literals;
* `EngineSource.matchers`: the matchers of a language, with nothing remembered;
* `Engine.Reachable`: the engines that a host can have;
* `Engine.Coherent`: what an engine remembers is what it would build anyway.

## Main results

* `Matchers.transparent_ofMarks`: matchers do not depend on the cache;
* `Engine.coherent_of_reachable`: the invariant of all engines;
* `Engine.answers_eq_fresh`: what an engine answers is what a new one answers.
-/

namespace CommentTags

/-! ## The cache of escaped literals -/

namespace PatternBuilder

variable {α β : Type}

/-- What is built does not depend on the literals that have been escaped before. -/
def Transparent (builder : PatternBuilder α) : Prop :=
  ∀ escapes escapes', (builder.build escapes).1 = (builder.build escapes').1

theorem transparent_pure (a : α) : Transparent (pure a) :=
  fun _ _ => rfl

theorem transparent_liftM (e : Except PatternError α) : Transparent (liftM e) :=
  fun _ _ => rfl

theorem transparent_escape (literal : String) : Transparent (escape literal) := by
  intro escapes escapes'
  rw [build_escape, build_escape]

/-- Two computations in turn do not depend on the cache if neither does. -/
theorem Transparent.bind {builder : PatternBuilder α} {next : α → PatternBuilder β} (h : builder.Transparent)
    (hnext : ∀ a, (next a).Transparent) : Transparent (builder >>= next) := by
  intro escapes escapes'
  have hsame := h escapes escapes'
  rw [build_bind, build_bind]
  rcases hbuilt : builder.build escapes with ⟨built, after⟩
  rcases hbuilt' : builder.build escapes' with ⟨built', after'⟩
  obtain rfl : built = built' := by simpa [hbuilt, hbuilt'] using hsame
  cases built with
  | error e => rfl
  | ok a => exact hnext a after after'

/-- Neither does one computation for each element of a list. -/
theorem transparent_forM {f : α → PatternBuilder Unit} (h : ∀ a, (f a).Transparent) (l : List α) :
    Transparent (l.forM f) := by
  induction l with
  | nil => exact transparent_pure _
  | cons a l ih => exact (h a).bind fun _ => ih

/-- Nor do their answers. -/
theorem transparent_mapM {f : α → PatternBuilder β} (h : ∀ a, (f a).Transparent) (l : List α) :
    Transparent (l.mapM f) := by
  induction l with
  | nil => exact transparent_pure _
  | cons a l ih =>
    rw [List.mapM_cons]
    exact (h a).bind fun b => ih.bind fun bs => transparent_pure _

end PatternBuilder

open PatternBuilder in
/-- The pattern of a kind of comments does not depend on the cache. -/
theorem Enclosure.transparent_pattern (kind : Enclosure) : kind.pattern.Transparent := by
  cases kind with
  | doc => exact transparent_pure _
  | block opening closing =>
    exact (transparent_escape _).bind fun _ => (transparent_escape _).bind fun _ => transparent_pure _

open PatternBuilder in
/-- Neither does the pattern of line comments. -/
theorem transparent_linePattern (lineMarks : List Mark) : (linePattern lineMarks).Transparent := by
  refine (transparent_mapM (fun mark => ?_) lineMarks).bind fun _ => transparent_pure _
  exact ((transparent_escape _).bind fun _ => (transparent_escape _).bind fun _ => transparent_pure _).bind
    fun _ => transparent_pure _

namespace Matchers

open PatternBuilder

/-- Matchers for source code do not depend on the cache. -/
theorem transparent_ofMarks (compiler : PatternCompiler) (tags : TagTable) (marks : CommentMarks)
    (options : MatcherOptions) : (ofMarks compiler tags marks options).Transparent := by
  have hkind (kind : Enclosure) : (compileKind compiler kind).Transparent :=
    kind.transparent_pattern.bind fun _ => transparent_liftM _
  have hlines (lineMarks : List Mark) : (compileLines compiler lineMarks).Transparent := by
    rw [compileLines]
    split
    · exact transparent_pure _
    · exact (transparent_linePattern lineMarks).bind fun _ => transparent_liftM _
  -- the patterns of names are not escaped again
  exact (transparent_forM hkind _).bind fun _ => (transparent_liftM _).bind fun _ =>
    (transparent_liftM _).bind fun _ => (hlines _).bind fun _ => transparent_pure _

end Matchers

/-! ## What an engine builds -/

/-- What the matchers of languages come from. -/
structure EngineSource where
  /-- What compiles the patterns. -/
  compiler : PatternCompiler
  /-- The configuration. -/
  config : ScanConfig
  /-- The languages and their files. -/
  languages : LanguageSource

namespace EngineSource

/-- The matchers of the language `id`, unless documents in it have no ranges. -/
def matchers (source : EngineSource) (id : String) : Option Matchers :=
  let tags := TagTable.ofEntries source.config.tags
  if Engine.isPlainText id then
    if source.config.highlightPlainText then (Engine.usable id (Matchers.plainText source.compiler tags)).1
    else none
  else
    let marks := source.languages.marks id
    if marks.isEmpty then none
    else
      let built := Matchers.ofMarks source.compiler tags marks (Engine.matcherOptions source.config)
      (Engine.usable id (built.build .empty).1).1

/-- The same configuration with the files in `files`. -/
def withFiles (source : EngineSource) (files : Files) : EngineSource :=
  { source with languages := { source.languages with files } }

/-- Matchers depend on language files only. -/
theorem matchers_withFiles {source : EngineSource} {files : Files}
    (h : source.languages.SameLanguageFiles files) (id : String) :
    (source.withFiles files).matchers id = source.matchers id := by
  have hmarks : (source.withFiles files).languages.marks id = source.languages.marks id := h.marks id
  unfold matchers
  rw [hmarks]
  rfl

end EngineSource

namespace Engine

/-- What an engine remembers is what its configuration and its languages give. -/
structure Coherent (engine : Engine) (source : EngineSource) : Prop where
  /-- The compiler is the one that counts. -/
  compiler : engine.compiler = source.compiler
  /-- The configuration is the current one. -/
  config : engine.config = source.config
  /-- The tags are those of the configuration. -/
  tags : engine.tags = .ofEntries source.config.tags
  /-- The registry is coherent. -/
  languages : engine.languages.Coherent source.languages
  /-- Remembered matchers, or that there are none, are what would be built. -/
  matchers : Remembers engine.matchers source.matchers

variable {engine : Engine} {source : EngineSource}

/-- A new engine is coherent if its registry is. -/
theorem coherent_new {languages : Registry} (h : languages.Coherent source.languages) :
    (new source.compiler source.config languages).state.Coherent source :=
  ⟨rfl, rfl, TagTable.build_fst _ _, h, remembers_of_isEmpty Std.HashMap.isEmpty_empty _⟩

/-- A refresh replaces the configuration and keeps what is remembered of the languages. -/
theorem Coherent.refresh (h : engine.Coherent source) (config : ScanConfig) :
    (engine.refresh config).state.Coherent { source with config } :=
  ⟨h.compiler, rfl, TagTable.build_fst _ _, h.languages, remembers_of_isEmpty Std.HashMap.isEmpty_empty _⟩

/-- A refresh of the languages keeps the configuration, and the files may be others. -/
theorem Coherent.refreshLanguages (h : engine.Coherent source) (files : Files) :
    engine.refreshLanguages.Coherent (source.withFiles files) :=
  ⟨h.compiler, h.config, h.tags, (h.languages.refresh files).coherent,
    remembers_of_isEmpty Std.HashMap.isEmpty_empty _⟩

/-- Registering a language keeps the configuration, and the files may be others. -/
theorem Coherent.registerLanguage (h : engine.Coherent source) (definition : LanguageDefinition)
    (files : Files) :
    (engine.registerLanguage definition).Coherent
      { source with languages := source.languages.register definition files } :=
  ⟨h.compiler, h.config, h.tags, ((h.languages.register definition files).coherent.refresh files).coherent,
    remembers_of_isEmpty Std.HashMap.isEmpty_empty _⟩

/-- Other files than those of the languages do not count. -/
theorem Coherent.otherFiles (h : engine.Coherent source) {files : Files}
    (hfiles : source.languages.SameLanguageFiles files) : engine.Coherent (source.withFiles files) :=
  ⟨h.compiler, h.config, h.tags, h.languages.otherFiles hfiles,
    fun id value hvalue => (h.matchers id value hvalue).trans (EngineSource.matchers_withFiles hfiles id).symm⟩

/-- Building matchers gives those of the language and may make the registry remember more. -/
theorem Coherent.buildMatchers (h : engine.Coherent source) (id : String) :
    (engine.buildMatchers source.languages.files id).value = source.matchers id ∧
      (engine.buildMatchers source.languages.files id).state.Coherent source := by
  obtain ⟨hmarks, hlanguages⟩ := h.languages.marks id
  unfold Engine.buildMatchers EngineSource.matchers
  rw [h.compiler, h.config, h.tags]
  -- plain text needs no marks, so the registry is not asked
  cases hplain : isPlainText id with
  | true =>
    cases hhighlight : source.config.highlightPlainText <;> exact ⟨rfl, h⟩
  | false =>
    simp only [hmarks]
    cases hempty : (source.languages.marks id).isEmpty with
    | true => exact ⟨rfl, rfl, rfl, rfl, hlanguages, h.matchers⟩
    | false =>
      refine ⟨?_, rfl, rfl, rfl, hlanguages, h.matchers⟩
      exact congrArg (fun built => (usable id built).1)
        (Matchers.transparent_ofMarks _ _ _ _ engine.escapes .empty)

/-- Matchers that are looked up are those of the language, be they remembered or built. -/
theorem Coherent.matchersFor (h : engine.Coherent source) (id : String) :
    (engine.matchersFor source.languages.files id).value = source.matchers id ∧
      (engine.matchersFor source.languages.files id).state.Coherent source := by
  unfold Engine.matchersFor
  split
  · next value hvalue => exact ⟨h.matchers id value hvalue, h⟩
  · obtain ⟨hvalue, hstate⟩ := h.buildMatchers id
    exact ⟨hvalue, hstate.compiler, hstate.config, hstate.tags, hstate.languages,
      hstate.matchers.insert hvalue⟩

/-- What a scan does depends on the matchers of its language only. -/
theorem scan_congr {σ : Type} [Checkpoint σ] {engine other : Engine} {files : Files} {id : String}
    (h : (engine.matchersFor files id).value = (other.matchersFor files id).value) (text : String)
    (offset : Nat) (claims : ClaimSet) (checkpoint : σ) :
    (engine.scan files id text offset claims checkpoint).value =
      (other.scan files id text offset claims checkpoint).value := by
  simp only [scan_eq_ofPlan, plan, h]

/-! ## All engines -/

/-- The engines that a host can have, with the configuration and the languages that count. The file of a
language changes only when the languages are refreshed or registered. -/
inductive Reachable : EngineSource → Engine → Prop
  /-- An engine is built. -/
  | new {source : EngineSource} {languages : Registry} (h : languages.Unasked source.languages) :
      Reachable source (Engine.new source.compiler source.config languages).state
  /-- Matchers are looked up. -/
  | matchersFor {source : EngineSource} {engine : Engine} (id : String) : Reachable source engine →
      Reachable source (engine.matchersFor source.languages.files id).state
  /-- A text is scanned. -/
  | scan {source : EngineSource} {engine : Engine} {σ : Type} [Checkpoint σ] (id text : String)
      (offset : Nat) (claims : ClaimSet) (checkpoint : σ) : Reachable source engine →
      Reachable source (engine.scan source.languages.files id text offset claims checkpoint).state
  /-- A document is scanned. -/
  | scanDocument {source : EngineSource} {engine : Engine} {σ δ : Type} [Checkpoint σ] [TextDocument δ]
      (document : δ) (checkpoint : σ) : Reachable source engine →
      Reachable source (engine.scanDocument source.languages.files document checkpoint).state
  /-- The configuration is replaced. -/
  | refresh {source : EngineSource} {engine : Engine} (config : ScanConfig) : Reachable source engine →
      Reachable { source with config } (engine.refresh config).state
  /-- Language files are to be read again. -/
  | refreshLanguages {source : EngineSource} {engine : Engine} (files : Files) : Reachable source engine →
      Reachable (source.withFiles files) engine.refreshLanguages
  /-- A language is registered, or its definition is replaced. -/
  | registerLanguage {source : EngineSource} {engine : Engine} (definition : LanguageDefinition)
      (files : Files) : Reachable source engine →
      Reachable { source with languages := source.languages.register definition files }
        (engine.registerLanguage definition)
  /-- Files that are no language files change. -/
  | otherFiles {source : EngineSource} {engine : Engine} {files : Files}
      (h : source.languages.SameLanguageFiles files) : Reachable source engine →
      Reachable (source.withFiles files) engine

/-- Every engine is coherent. -/
theorem coherent_of_reachable (h : Reachable source engine) : engine.Coherent source := by
  induction h with
  | new hlanguages => exact coherent_new hlanguages.coherent
  | matchersFor id _ ih => exact (ih.matchersFor id).2
  -- a scan leaves behind what looking the matchers of its language up leaves
  | scan id _ _ _ _ _ ih => exact (ih.matchersFor id).2
  | scanDocument document _ _ ih => exact (ih.matchersFor (TextDocument.languageId document)).2
  | refresh config _ ih => exact ih.refresh config
  | refreshLanguages files _ ih => exact ih.refreshLanguages files
  | registerLanguage definition files _ ih => exact ih.registerLanguage definition files
  | otherFiles hfiles _ ih => exact ih.otherFiles hfiles

/-- Whatever was done with an engine, it answers as an engine that has just been built from the current
configuration and the current languages: matchers are the same, or missing from both, scans find the same,
claim the same and are interrupted at the same point. The cache answers every literal as an empty one does,
and a table of tags that is built through it is the one that the configuration defines. -/
theorem answers_eq_fresh (h : Reachable source engine) {languages : Registry}
    (hlanguages : languages.Unasked source.languages) :
    let fresh := (Engine.new source.compiler source.config languages).state
    let files := source.languages.files
    (∀ id : String, (engine.matchersFor files id).value = (fresh.matchersFor files id).value) ∧
      (∀ (σ : Type) [Checkpoint σ] (id text : String) (offset : Nat) (claims : ClaimSet) (checkpoint : σ),
        (engine.scan files id text offset claims checkpoint).value =
          (fresh.scan files id text offset claims checkpoint).value) ∧
      (∀ (σ δ : Type) [Checkpoint σ] [TextDocument δ] (document : δ) (checkpoint : σ),
        (engine.scanDocument files document checkpoint).value =
          (fresh.scanDocument files document checkpoint).value) ∧
      engine.tags = fresh.tags ∧
      (∀ config : ScanConfig, (engine.refresh config).state.tags = .ofEntries config.tags) ∧
      ∀ literal : String, (engine.escapes.escape literal).1 = (EscapeCache.empty.escape literal).1 := by
  intro fresh files
  have hengine := coherent_of_reachable h
  have hfresh : fresh.Coherent source := coherent_new hlanguages.coherent
  have hmatchers (id : String) :
      (engine.matchersFor files id).value = (fresh.matchersFor files id).value := by
    rw [(hengine.matchersFor id).1, (hfresh.matchersFor id).1]
  refine ⟨hmatchers, ?_, ?_, ?_, ?_, ?_⟩
  · intro σ _ id text offset claims checkpoint
    exact scan_congr (hmatchers id) text offset claims checkpoint
  · intro σ δ _ _ document checkpoint
    exact scan_congr (hmatchers _) _ _ _ checkpoint
  · rw [hengine.tags, hfresh.tags]
  · intro config
    exact TagTable.build_fst config.tags engine.escapes
  · intro literal
    rw [EscapeCache.escape_fst, EscapeCache.escape_fst]

/-- A language without comment marks is looked up before it is registered with a file that gives some, and
before the configuration is replaced. -/
theorem answers_eq_fresh_registered :
    let nothing : Files := fun _ => none
    let files : Files := fun path => if path = "zig.json" then
      some "\x7b\"comments\":\x7b\"lineComment\":\"//\"\x7d\x7d".toUTF8 else none
    let definition : LanguageDefinition := { id := "zig", file := some "zig.json" }
    let config : ScanConfig := { tags := [.named "!" "#FF2D00"] }
    let source : EngineSource := ⟨.lenient, config, .register ⟨fun _ => none, nothing⟩ definition files⟩
    let first := ((Engine.new .lenient {} .empty).state.matchersFor nothing "zig").state
    let engine := ((first.registerLanguage definition).refresh config).state
    Reachable source engine ∧
      (Registry.empty.register definition).Unasked source.languages ∧
      (engine.scan files "zig" "// ! x" 0 .empty ({} : Unlimited)).value.result.map TagRanges.toList =
        .ok [("!", [⟨3, 6⟩])] := by
  intro nothing files definition config source first engine
  have hnew : Reachable ⟨.lenient, {}, ⟨fun _ => none, nothing⟩⟩ (Engine.new .lenient {} .empty).state :=
    .new (Registry.unasked_empty nothing)
  have hreachable : Reachable source engine :=
    .refresh config (.registerLanguage definition files (.matchersFor "zig" hnew))
  have hunasked : (Registry.empty.register definition).Unasked source.languages :=
    (Registry.unasked_empty nothing).coherent.register definition files
  refine ⟨hreachable, hunasked, ?_⟩
  have hscan := (answers_eq_fresh hreachable hunasked).2.1 Unlimited "zig" "// ! x" 0 .empty {}
  -- a look-up in a hash map does not evaluate, but what the new engine builds does
  have hfresh : (Engine.new .lenient config (Registry.empty.register definition)).state.Coherent source :=
    coherent_new hunasked.coherent
  rw [show (engine.scan files "zig" "// ! x" 0 .empty ({} : Unlimited)).value = _ from hscan,
    scan_eq_ofPlan, plan, (hfresh.matchersFor "zig").1]
  decide +kernel

end Engine

end CommentTags
