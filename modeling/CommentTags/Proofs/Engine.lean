import CommentTags.Engine
import CommentTags.Proofs.Scan

/-!
# The engine while nothing is refreshed

Between two refreshes an engine only remembers more: scans look matchers up and build those that are
missing, but leave the configuration, its tags and the count of refreshes alone.

A scan consults its caller's checkpoint only if there is something to look for. So a scan whose checkpoint
always agrees is never interrupted, and one whose checkpoint does not is interrupted unless the language has
no matchers or the text is empty.

## Main definitions

* `Engine.Unrefreshed`: what stays the same between two refreshes;
* `Engine.Consistent`: the tags are those of the configuration, and no remembered matchers are inert.

## Main results

* `Engine.scan_of_allows` and `Engine.scan_of_refuses`: how a scan ends for the checkpoint's answers.
-/

namespace CommentTags

namespace TagTable

/-- The names that define a tag have different keys, none of which was seen before. -/
theorem keys_sift (seen : List String) (tags : List Tag) :
    ((sift seen tags).1.map Tag.key).Nodup ∧ ∀ tag ∈ (sift seen tags).1, tag.key ∉ seen := by
  induction tags generalizing seen with
  | nil => exact ⟨List.nodup_nil, fun _ h => absurd h List.not_mem_nil⟩
  | cons tag rest ih =>
    rw [sift]
    split
    · exact ih seen
    · next hfresh =>
      obtain ⟨hnodup, hunseen⟩ := ih (tag.key :: seen)
      refine ⟨List.nodup_cons.2 ⟨fun hmem => ?_, hnodup⟩, fun other hother => ?_⟩
      · obtain ⟨other, hother, hkey⟩ := List.mem_map.1 hmem
        exact hunseen other hother (hkey ▸ List.mem_cons_self)
      · rcases List.mem_cons.1 hother with rfl | hother
        · simpa using hfresh
        · exact fun hseen => hunseen other hother (List.mem_cons_of_mem _ hseen)

/-- Nothing but the given tags is found among those with a key of their own. -/
theorem mem_of_mem_sift {seen : List String} {tags : List Tag} {tag : Tag}
    (h : tag ∈ (sift seen tags).1) : tag ∈ tags := by
  induction tags generalizing seen with
  | nil => cases h
  | cons first rest ih =>
    rw [sift] at h
    split at h
    · exact List.mem_cons_of_mem _ (ih h)
    · rcases List.mem_cons.1 h with rfl | h
      · exact List.mem_cons_self
      · exact List.mem_cons_of_mem _ (ih h)

/-- The key of a configured tag is its name in lower case. -/
theorem key_of_mem_ofEntries {entries : List TagEntry} {tag : Tag} (h : tag ∈ (ofEntries entries).tags) :
    tag.key = Unicode.lowercase tag.name := by
  obtain ⟨entry, -, htag⟩ := List.mem_flatMap.1 (mem_of_mem_sift h)
  obtain ⟨name, -, rfl⟩ := List.mem_map.1 htag
  rfl

/-- The pattern of a configured tag is its name, escaped. -/
theorem escaped_of_mem_ofEntries {entries : List TagEntry} {tag : Tag}
    (h : tag ∈ (ofEntries entries).tags) : tag.escaped = Literal.escape tag.name := by
  obtain ⟨entry, -, htag⟩ := List.mem_flatMap.1 (mem_of_mem_sift h)
  obtain ⟨name, -, rfl⟩ := List.mem_map.1 htag
  rfl

/-- The cache has the patterns that the tags have anyway. -/
theorem escapeNames_fst (escapes : EscapeCache) {tags : List Tag}
    (h : ∀ tag ∈ tags, tag.escaped = Literal.escape tag.name) : (escapeNames escapes tags).1 = tags := by
  induction tags generalizing escapes with
  | nil => rfl
  | cons tag rest ih =>
    -- the rest of the tags is looked up in the cache that the first one leaves
    rw [List.forall_mem_cons] at h
    rw [escapeNames]
    dsimp only
    rw [ih _ h.2, EscapeCache.escape_fst, ← h.1]

/-- Whatever the cache knows, the table is the one that the entries define. -/
@[simp]
theorem build_fst (entries : List TagEntry) (escapes : EscapeCache) :
    (build entries escapes).1 = ofEntries entries :=
  congrArg TagTable.mk (escapeNames_fst escapes fun _ htag => escaped_of_mem_ofEntries htag)

/-- No two tags of a configuration have the same key. -/
theorem nodup_keys_ofEntries (entries : List TagEntry) : (ofEntries entries).keys.Nodup :=
  (keys_sift [] (definitions entries)).1

end TagTable

namespace Engine

/-- What the parts of an engine have to do with one another. -/
structure Consistent (engine : Engine) : Prop where
  /-- The tags are those of the configuration. -/
  tags : engine.tags = .ofEntries engine.config.tags
  /-- Matchers that find nothing are not remembered as matchers. -/
  live : ∀ {id : String} {matchers : Matchers}, engine.matchers[id]? = some (some matchers) →
    matchers.isInert = false

/-- From `before` to `after` the configuration stays, and the engine is not refreshed. -/
structure Unrefreshed (before after : Engine) : Prop where
  /-- The compiler stays. -/
  compiler : after.compiler = before.compiler
  /-- The configuration stays. -/
  config : after.config = before.config
  /-- The tags stay. -/
  tags : after.tags = before.tags
  /-- No refresh is counted. -/
  refreshes : after.refreshes = before.refreshes
  /-- What is remembered besides fits. -/
  consistent : before.Consistent → after.Consistent

theorem Unrefreshed.refl (engine : Engine) : Unrefreshed engine engine :=
  ⟨rfl, rfl, rfl, rfl, id⟩

theorem Unrefreshed.trans {a b c : Engine} (hab : Unrefreshed a b) (hbc : Unrefreshed b c) :
    Unrefreshed a c :=
  ⟨hbc.compiler.trans hab.compiler, hbc.config.trans hab.config, hbc.tags.trans hab.tags,
    hbc.refreshes.trans hab.refreshes, hbc.consistent ∘ hab.consistent⟩

/-- A new engine is consistent. -/
theorem consistent_new (compiler : PatternCompiler) (config : ScanConfig) (languages : Registry) :
    (new compiler config languages).state.Consistent :=
  ⟨TagTable.build_fst _ _, fun h => by simp [new] at h⟩

/-- A refresh makes the tags those of the new configuration and forgets all matchers. -/
theorem consistent_refresh (engine : Engine) (config : ScanConfig) :
    (engine.refresh config).state.Consistent :=
  ⟨TagTable.build_fst _ _, fun h => by simp [refresh] at h⟩

theorem Consistent.refreshLanguages {engine : Engine} (h : engine.Consistent) :
    engine.refreshLanguages.Consistent :=
  ⟨h.tags, fun h => by simp [Engine.refreshLanguages] at h⟩

theorem Consistent.registerLanguage {engine : Engine} (h : engine.Consistent)
    (definition : LanguageDefinition) : (engine.registerLanguage definition).Consistent :=
  ⟨h.tags, fun h => by simp [Engine.registerLanguage, Engine.refreshLanguages] at h⟩

/-! ## Looking matchers up -/

variable (engine : Engine) (files : Files) (id : String)

/-- Matchers that are usable were built and find something. -/
theorem usable_eq_some {built : Except PatternError Matchers} {matchers : Matchers}
    (h : (usable id built).1 = some matchers) : built = .ok matchers ∧ matchers.isInert = false := by
  cases built with
  | error e => cases h
  | ok m =>
    rw [usable] at h
    split at h
    · cases h
    · next hlive =>
      cases h
      exact ⟨rfl, Bool.eq_false_iff.2 hlive⟩

/-- The answer of building matchers: the engine is the one from before but for what it remembers of languages and
literals, and matchers find something. -/
structure BuildsFrom (engine : Engine) (built : Answer Engine (Option Matchers)) : Prop where
  /-- The compiler stays. -/
  compiler : built.state.compiler = engine.compiler
  /-- The configuration stays. -/
  config : built.state.config = engine.config
  /-- The tags stay. -/
  tags : built.state.tags = engine.tags
  /-- No refresh is counted. -/
  refreshes : built.state.refreshes = engine.refreshes
  /-- The matchers that are remembered stay. -/
  matchers : built.state.matchers = engine.matchers
  /-- Matchers find something. -/
  live : ∀ matchers, built.value = some matchers → matchers.isInert = false

theorem buildsFrom_buildMatchers : engine.BuildsFrom (engine.buildMatchers files id) := by
  rw [buildMatchers]
  split
  · split
    · exact ⟨rfl, rfl, rfl, rfl, rfl, fun _ h => (usable_eq_some id h).2⟩
    · exact ⟨rfl, rfl, rfl, rfl, rfl, fun _ h => by cases h⟩
  · dsimp only
    split
    · exact ⟨rfl, rfl, rfl, rfl, rfl, fun _ h => by cases h⟩
    · exact ⟨rfl, rfl, rfl, rfl, rfl, fun _ h => (usable_eq_some id h).2⟩

/-- Matchers that are remembered after a look-up were remembered before, or have just been built. -/
theorem remembered_matchersFor {other : String} {matchers : Matchers}
    (h : (engine.matchersFor files id).state.matchers[other]? = some (some matchers)) :
    engine.matchers[other]? = some (some matchers) ∨
      (engine.buildMatchers files id).value = some matchers := by
  rw [matchersFor] at h
  split at h
  · exact .inl h
  · rw [Std.HashMap.getElem?_insert, (engine.buildsFrom_buildMatchers files id).matchers] at h
    split at h
    · exact .inr (Option.some.inj h)
    · exact .inl h

/-- Looking matchers up refreshes nothing. -/
theorem unrefreshed_matchersFor : Unrefreshed engine (engine.matchersFor files id).state := by
  have hbuilt := engine.buildsFrom_buildMatchers files id
  have hkeeps : (engine.matchersFor files id).state.compiler = engine.compiler ∧
      (engine.matchersFor files id).state.config = engine.config ∧
      (engine.matchersFor files id).state.tags = engine.tags ∧
      (engine.matchersFor files id).state.refreshes = engine.refreshes := by
    rw [matchersFor]
    split
    · exact ⟨rfl, rfl, rfl, rfl⟩
    · exact ⟨hbuilt.compiler, hbuilt.config, hbuilt.tags, hbuilt.refreshes⟩
  obtain ⟨hcompiler, hconfig, htags, hrefreshes⟩ := hkeeps
  refine ⟨hcompiler, hconfig, htags, hrefreshes, fun h => ⟨?_, fun hother => ?_⟩⟩
  · rw [hconfig, htags, h.tags]
  · rcases remembered_matchersFor engine files id hother with hbefore | hnew
    · exact h.live hbefore
    · exact hbuilt.live _ hnew

/-- Matchers that were looked up are remembered, whatever becomes of the files. -/
theorem matchersFor_again (files' : Files) :
    ((engine.matchersFor files id).state.matchersFor files' id).value =
      (engine.matchersFor files id).value := by
  cases hremembered : engine.matchers[id]? with
  | some value =>
    have hfound (files : Files) : engine.matchersFor files id = { value, state := engine } := by
      rw [matchersFor, hremembered]
    rw [hfound, hfound]
  | none =>
    have hbuilt : (engine.matchersFor files id).state.matchers[id]? =
        some (engine.matchersFor files id).value := by
      rw [matchersFor, hremembered]
      exact Std.HashMap.getElem?_insert_self
    rw [matchersFor, hbuilt]

variable {engine}

/-- The matchers of a language find something. -/
theorem Consistent.isInert_of_matchersFor (h : engine.Consistent) {matchers : Matchers}
    (hmatchers : (engine.matchersFor files id).value = some matchers) : matchers.isInert = false := by
  rw [Engine.matchersFor] at hmatchers
  split at hmatchers
  · next value hvalue =>
    subst hmatchers
    exact h.live hvalue
  · exact (engine.buildsFrom_buildMatchers files id).live matchers hmatchers

/-- Unless they are remembered, the matchers of plain text are those that the configuration gives. -/
theorem matchersFor_plainText {engine : Engine} (h : engine.matchers[plainTextLanguage]? = none)
    (files : Files) :
    (engine.matchersFor files plainTextLanguage).value =
      if engine.config.highlightPlainText then
        (usable plainTextLanguage (Matchers.plainText engine.compiler engine.tags)).1
      else none := by
  rw [matchersFor, h]
  dsimp only
  rw [buildMatchers, if_pos (show isPlainText plainTextLanguage = true from rfl)]
  split <;> rfl

/-- After a refresh, the matchers of plain text are those that the new configuration gives. -/
theorem matchersFor_refresh_plainText (engine : Engine) (config : ScanConfig) (files : Files) :
    ((engine.refresh config).state.matchersFor files plainTextLanguage).value =
      if config.highlightPlainText then
        (usable plainTextLanguage (Matchers.plainText engine.compiler (.ofEntries config.tags))).1
      else none := by
  rw [← TagTable.build_fst config.tags engine.escapes]
  exact matchersFor_plainText Std.HashMap.getElem?_empty files

/-! ## Scans -/

variable {σ : Type} [Checkpoint σ] (text : String) (offset : Nat) (claims : ClaimSet) {checkpoint : σ}

/-- A scan refreshes nothing. -/
theorem unrefreshed_scan (engine : Engine) (checkpoint : σ) :
    Unrefreshed engine (engine.scan files id text offset claims checkpoint).state :=
  unrefreshed_matchersFor engine files id

/-- The engine that gave out a token agrees to it until it is refreshed. -/
theorem allows_guard_generation (engine : Engine) : Checkpoint.Allows (engine.guard engine.generation) :=
  TaskGuard.allows_iff.2 (TaskTracker.isCurrent_watch _)

/-- A scan is not interrupted if its checkpoint always agrees. -/
theorem scan_of_allows (h : Checkpoint.Allows checkpoint) :
    ∃ ranges, (engine.scan files id text offset claims checkpoint).value.result = .ok ranges ∧
      Checkpoint.Allows (engine.scan files id text offset claims checkpoint).value.checkpoint := by
  rw [scan]
  dsimp only
  split
  · exact ⟨_, rfl, h⟩
  · next m _ =>
    obtain ⟨ranges, hresult, hallows⟩ := m.scan_of_allows text offset claims
      (Checkpoint.allows_prod_iff.2 ⟨allows_guard_generation (engine.matchersFor files id).state, h⟩)
    exact ⟨ranges, hresult, (Checkpoint.allows_prod_iff.1 hallows).2⟩

/-- A scan is interrupted if its checkpoint does not agree and there is something to look for. -/
theorem scan_of_refuses (hengine : engine.Consistent)
    (hmatchers : (engine.matchersFor files id).value.isSome = true) (htext : text.isEmpty = false)
    (h : (Checkpoint.consult checkpoint).1 = false) :
    (engine.scan files id text offset claims checkpoint).value.result = .error .cancelled := by
  obtain ⟨m, hm⟩ := Option.isSome_iff_exists.1 hmatchers
  rw [scan]
  dsimp only
  rw [hm]
  refine Matchers.scan_of_refuses (hengine.isInert_of_matchersFor files id hm) htext offset claims ?_
  rw [Checkpoint.consult_prod]
  split
  · exact h
  · rfl

/-- Where there is nothing to look for, a scan finds nothing and is not interrupted. -/
theorem scan_of_nothing (checkpoint : σ)
    (h : (engine.matchersFor files id).value = none ∨ text.isEmpty = true) :
    (engine.scan files id text offset claims checkpoint).value.result = .ok .empty := by
  rw [scan]
  dsimp only
  rcases h with h | h
  · rw [h]
  · split
    · rfl
    · rw [Matchers.scan, h, Bool.or_true, if_pos rfl]

end Engine

end CommentTags
