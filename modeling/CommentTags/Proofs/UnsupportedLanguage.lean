import CommentTags.Proofs.Engine
import CommentTags.Proofs.Registry

/-!
# Languages without comment marks are noticed once

An engine notices that a language has no comment marks when it is looked up, and remembers that it has. Matchers are
remembered as well, so that most look-ups notice nothing. The two are forgotten at different times: a new
configuration drops the matchers only, refreshed or registered languages drop both. So from one renewal of the
languages to the next each language is noticed at most once, namely if it is looked up while it has no marks, however
often the configuration is replaced in between.

## Main definitions

* `Engine.Request` and `Engine.run`: what a host asks of an engine, and what is noticed on the way;
* `Engine.MissesDuring`: some request looks up a language while it has no marks;
* `Engine.KeepsNoticed`: for each language with remembered matchers it is known whether it has marks;
* `Engine.Notes`: how notices and what is remembered of them go together.

## Main results

* `Engine.notes_matchersFor`: what one look-up notices;
* `Engine.notes_run`: what a run notices between two renewals of the languages;
* `Engine.unsupportedLanguage_once`: the same for every run of a new engine.
-/

namespace CommentTags

/-- The answer without its value. -/
def Answer.discard {σ α : Type} (answer : Answer σ α) : Answer σ Unit where
  value := ()
  state := answer.state
  notices := answer.notices

/-! ## What the registry notices and remembers -/

namespace Registry

/-- The marks of a single language leave those of documents alone, and are noticed only for a faulty file. -/
theorem rule_spec (registry : Registry) (files : Files) (id : String) :
    (registry.rule files id).state.merged = registry.merged ∧
      ∀ other, .unsupportedLanguage other ∉ (registry.rule files id).notices := by
  rw [rule]
  split
  · exact ⟨rfl, fun other => List.not_mem_nil⟩
  · refine ⟨rfl, fun other => ?_⟩
    dsimp only
    rw [fileRule]
    split
    · exact List.not_mem_nil
    · split
      · exact List.not_mem_nil
      · simp

/-- The same for several languages in turn. -/
theorem rulesOf_spec (registry : Registry) (files : Files) (ids : List String) :
    (registry.rulesOf files ids).state.merged = registry.merged ∧
      ∀ other, .unsupportedLanguage other ∉ (registry.rulesOf files ids).notices := by
  induction ids generalizing registry with
  | nil => exact ⟨rfl, fun other => List.not_mem_nil⟩
  | cons id ids ih =>
    obtain ⟨hmerged, hnotices⟩ := registry.rule_spec files id
    obtain ⟨hmerged', hnotices'⟩ := ih (registry.rule files id).state
    refine ⟨hmerged'.trans hmerged, fun other hmem => ?_⟩
    rw [rulesOf, List.mem_append] at hmem
    exact hmem.elim (hnotices other) (hnotices' other)

/-- After a look-up the marks of the document are remembered, besides those that were before. -/
theorem merged_marks (registry : Registry) (files : Files) (id other : String) :
    (registry.marks files id).state.merged[other]? =
      if id = other then some (registry.marks files id).value else registry.merged[other]? := by
  rw [marks]
  split
  · next marks hmarks =>
    split
    · next heq =>
      subst heq
      exact hmarks
    · rfl
  · dsimp only
    rw [Std.HashMap.getElem?_insert, (registry.rulesOf_spec files _).1]
    simp only [beq_iff_eq]

/-- A registry does not say that a language has no marks. -/
theorem not_mem_notices_marks (registry : Registry) (files : Files) (id other : String) :
    .unsupportedLanguage other ∉ (registry.marks files id).notices := by
  rw [marks]
  split
  · exact List.not_mem_nil
  · exact (registry.rulesOf_spec files _).2 other

end Registry

namespace Engine

/-! ## Requests -/

/-- What a host may ask of an engine, with the language files that are there at the time. -/
inductive Request where
  /-- Looks up the matchers of a language. -/
  | matchersFor (files : Files) (id : String)
  /-- Scans a text. -/
  | scan {σ : Type} [Checkpoint σ] (files : Files) (id text : String) (offset : Nat) (claims : ClaimSet)
      (checkpoint : σ)
  /-- Scans a document. -/
  | scanDocument {σ δ : Type} [Checkpoint σ] [TextDocument δ] (files : Files) (document : δ) (checkpoint : σ)
  /-- Replaces the configuration. -/
  | refresh (config : ScanConfig)
  /-- Has language files read again. -/
  | refreshLanguages
  /-- Registers a language, or replaces its definition. -/
  | registerLanguage (definition : LanguageDefinition)

/-- The files and the language for which the request looks matchers up, if it does. -/
def Request.lookUp? : Request → Option (Files × String)
  | matchersFor files id => some (files, id)
  | scan files id _ _ _ _ => some (files, id)
  | scanDocument files document _ => some (files, TextDocument.languageId document)
  | _ => none

/-- The request has all languages looked at anew. -/
def Request.renewsLanguages : Request → Bool
  | refreshLanguages => true
  | registerLanguage _ => true
  | _ => false

/-- Does what is asked. -/
def step (engine : Engine) : Request → Answer Engine Unit
  | .matchersFor files id => (engine.matchersFor files id).discard
  | @Request.scan _ _ files id text offset claims checkpoint =>
    (engine.scan files id text offset claims checkpoint).discard
  | @Request.scanDocument _ _ _ _ files document checkpoint => (engine.scanDocument files document checkpoint).discard
  | .refresh config => engine.refresh config
  | .refreshLanguages => { value := (), state := engine.refreshLanguages }
  | .registerLanguage definition => { value := (), state := engine.registerLanguage definition }

/-- Does one thing after the other. -/
def run (engine : Engine) : List Request → Answer Engine Unit
  | [] => { value := (), state := engine }
  | request :: rest =>
    let first := engine.step request
    let others := run first.state rest
    { value := (), state := others.state, notices := first.notices ++ others.notices }

/-- The language `id` is not plain text, and no marks count in its documents. -/
def IsUnsupported (engine : Engine) (files : Files) (id : String) : Prop :=
  isPlainText id = false ∧ (engine.languages.marks files id).value.isEmpty = true

/-- The request looks up the language `id`, which is unsupported. -/
def Misses (engine : Engine) (request : Request) (id : String) : Prop :=
  ∃ files, request.lookUp? = some (files, id) ∧ engine.IsUnsupported files id

/-- One of the requests looks up the language `id` while it is unsupported. -/
def MissesDuring (engine : Engine) (requests : List Request) (id : String) : Prop :=
  ∃ earlier request later, requests = earlier ++ request :: later ∧
    (engine.run earlier).state.Misses request id

variable {engine : Engine} {request : Request} {id other : String}

/-- A request that looks matchers up leaves behind what looking them up does. -/
theorem step_of_lookUp? {files : Files} (h : request.lookUp? = some (files, id)) :
    engine.step request = (engine.matchersFor files id).discard := by
  cases request with
  | matchersFor | scan | scanDocument =>
    cases h
    rfl
  | refresh | refreshLanguages | registerLanguage => cases h

/-- A run goes on where another one ends. -/
theorem state_run_append (engine : Engine) (earlier later : List Request) :
    (engine.run (earlier ++ later)).state = ((engine.run earlier).state.run later).state := by
  induction earlier generalizing engine with
  | nil => rfl
  | cons request earlier ih => exact ih (engine.step request).state

theorem not_missesDuring_nil : ¬engine.MissesDuring [] id := by
  rintro ⟨earlier, request, later, hnil, -⟩
  simp at hnil

/-- Either the first request looks the language up or a later one does. -/
theorem missesDuring_cons {rest : List Request} :
    engine.MissesDuring (request :: rest) id ↔
      engine.Misses request id ∨ (engine.step request).state.MissesDuring rest id := by
  constructor
  · rintro ⟨earlier, request', later, heq, hmisses⟩
    cases earlier with
    | nil =>
      cases heq
      exact .inl hmisses
    | cons first earlier =>
      cases heq
      exact .inr ⟨earlier, request', later, rfl, hmisses⟩
  · rintro (hmisses | ⟨earlier, request', later, rfl, hmisses⟩)
    · exact ⟨[], request, rest, rfl, hmisses⟩
    · exact ⟨request :: earlier, request', later, rfl, hmisses⟩

/-! ## Notices and what is remembered of them -/

/-- If the matchers of a language other than plain text are remembered, its marks are as well, and if there are none,
this has been noticed. -/
def KeepsNoticed (engine : Engine) : Prop :=
  ∀ id value, engine.matchers[id]? = some value → isPlainText id = false →
    ∃ marks, engine.languages.merged[id]? = some marks ∧ (marks.isEmpty = true → id ∈ engine.noticed)

/-- Where no matchers are remembered there is nothing to keep. -/
theorem keepsNoticed_of_isEmpty (h : engine.matchers = {}) : engine.KeepsNoticed := by
  intro id value hvalue
  rw [h, Std.HashMap.getElem?_empty] at hvalue
  cases hvalue

/-- From `engine` to `after` the language `id` is noticed once if it is missed and has not been noticed before, and
otherwise not at all. That it was missed is remembered. -/
structure Notes (engine : Engine) (after : Answer Engine Unit) (id : String) (missed : Prop) : Prop where
  remembered : id ∈ after.state.noticed ↔ id ∈ engine.noticed ∨ missed
  once : missed → id ∉ engine.noticed → after.notices.count (.unsupportedLanguage id) = 1
  silent : id ∈ engine.noticed ∨ ¬missed → after.notices.count (.unsupportedLanguage id) = 0

/-- Where nothing is missed and nothing noticed there is nothing to remember. -/
theorem Notes.of_not {after : Answer Engine Unit} {missed : Prop} (hnoticed : after.state.noticed = engine.noticed)
    (hnotices : .unsupportedLanguage id ∉ after.notices) (hmissed : ¬missed) :
    Notes engine after id missed where
  remembered := by rw [hnoticed, or_iff_left hmissed]
  once h := absurd h hmissed
  silent _ := List.count_eq_zero.2 hnotices

/-- One part of a run after another. -/
theorem Notes.trans {first rest : Answer Engine Unit} {missed missed' : Prop}
    (h : Notes engine first id missed) (h' : Notes first.state rest id missed') :
    Notes engine { value := (), state := rest.state, notices := first.notices ++ rest.notices } id
      (missed ∨ missed') where
  remembered := by rw [h'.remembered, h.remembered, or_assoc]
  once hmissed hfresh := by
    rw [List.count_append]
    by_cases hfirst : missed
    -- what is missed first is remembered for the rest
    · rw [h.once hfirst hfresh, h'.silent (.inl (h.remembered.2 (.inr hfirst)))]
    · rw [h.silent (.inr hfirst), h'.once (hmissed.resolve_left hfirst), Nat.zero_add]
      rw [h.remembered]
      exact not_or.2 ⟨hfresh, hfirst⟩
  silent hquiet := by
    rw [List.count_append, h.silent (hquiet.imp_right fun hmissed hfirst => hmissed (.inl hfirst)),
      h'.silent]
    rw [h.remembered]
    exact hquiet.imp .inl fun hmissed hrest => hmissed (.inr hrest)

/-- What has not been noticed yet is noticed at most once, and once iff it is missed. -/
theorem Notes.count_iff {after : Answer Engine Unit} {missed : Prop} (h : Notes engine after id missed)
    (hfresh : id ∉ engine.noticed) :
    after.notices.count (.unsupportedLanguage id) ≤ 1 ∧
      (after.notices.count (.unsupportedLanguage id) = 1 ↔ missed) := by
  by_cases hmissed : missed
  · simp [h.once hmissed hfresh, hmissed]
  · simp [h.silent (.inr hmissed), hmissed]

/-! ## One look-up -/

variable (engine) (files : Files)

/-- The matchers that were built are noticed only if they cannot be used. -/
theorem not_mem_notices_usable (built : Except PatternError Matchers) :
    .unsupportedLanguage other ∉ (usable id built).2 := by
  cases built <;> simp [usable]

/-- Building matchers looks the marks of a language up, unless it is plain text. -/
theorem languages_buildMatchers :
    (engine.buildMatchers files id).state.languages =
      if isPlainText id then engine.languages else (engine.languages.marks files id).state := by
  rw [buildMatchers]
  split
  · split <;> rfl
  · dsimp only
    split <;> rfl

/-- Building matchers notices a language that is unsupported, unless that has been noticed. -/
theorem notes_buildMatchers (id other : String) :
    Notes engine (engine.buildMatchers files id).discard other (other = id ∧ engine.IsUnsupported files id) := by
  rw [buildMatchers]
  split
  · next hplain =>
    have hmissed : ¬(other = id ∧ engine.IsUnsupported files id) := by
      rintro ⟨-, hnotPlain, -⟩
      rw [hplain] at hnotPlain
      cases hnotPlain
    split
    · exact .of_not rfl (not_mem_notices_usable _) hmissed
    · exact .of_not rfl List.not_mem_nil hmissed
  · next hplain =>
    rw [Bool.not_eq_true] at hplain
    dsimp only
    split
    · next hempty =>
      have hmarks := List.count_eq_zero.2 (Registry.not_mem_notices_marks engine.languages files id other)
      have hmissed : (other = id ∧ engine.IsUnsupported files id) ↔ other = id :=
        and_iff_left ⟨hplain, hempty⟩
      rw [hmissed]
      refine ⟨?_, ?_, fun hquiet => ?_⟩
      · show other ∈ engine.noticed.insert id ↔ _
        rw [Std.HashSet.mem_insert, beq_iff_eq, eq_comm, or_comm]
      · rintro rfl hfresh
        rw [Std.HashSet.mem_iff_contains] at hfresh
        show (_ ++ _ : List Notice).count _ = 1
        rw [List.count_append, hmarks, if_neg hfresh, List.count_singleton_self]
      · show (_ ++ _ : List Notice).count _ = 0
        rw [List.count_append, hmarks, Nat.zero_add]
        split
        · rfl
        · next hfresh =>
          have hne : id ≠ other := by
            rintro rfl
            exact hfresh (Std.HashSet.mem_iff_contains.1 (hquiet.resolve_right (not_not.2 rfl)))
          simp [hne]
    · next hmarks =>
      refine .of_not rfl ?_ fun hmissed => hmarks hmissed.2.2
      show _ ∉ _ ++ _
      rw [List.mem_append, not_or]
      exact ⟨Registry.not_mem_notices_marks _ files id other, not_mem_notices_usable _⟩

variable {engine}

/-- Looking matchers up notices a language that is unsupported, unless that has been noticed. -/
theorem notes_matchersFor (h : engine.KeepsNoticed) (id other : String) :
    Notes engine (engine.matchersFor files id).discard other (other = id ∧ engine.IsUnsupported files id) := by
  rw [matchersFor]
  split
  -- matchers are remembered, and so is whether the language is supported
  · next value hvalue =>
    have hnoticed : other = id ∧ engine.IsUnsupported files id → other ∈ engine.noticed := by
      rintro ⟨rfl, hplain, hempty⟩
      obtain ⟨marks, hmarks, hnoticed⟩ := h other value hvalue hplain
      rw [Registry.marks, hmarks] at hempty
      exact hnoticed hempty
    exact ⟨(or_iff_left_of_imp hnoticed).symm, fun hmissed hfresh => absurd (hnoticed hmissed) hfresh, fun _ => rfl⟩
  · obtain ⟨hremembered, honce, hsilent⟩ := engine.notes_buildMatchers files id other
    exact ⟨hremembered, honce, hsilent⟩

/-- Looking matchers up keeps what was noticed. -/
theorem KeepsNoticed.matchersFor (h : engine.KeepsNoticed) (id : String) :
    (engine.matchersFor files id).state.KeepsNoticed := by
  rw [Engine.matchersFor]
  split
  · exact h
  · intro other value hvalue hplain
    obtain ⟨hremembered, -, -⟩ := engine.notes_buildMatchers files id other
    show ∃ marks, (engine.buildMatchers files id).state.languages.merged[other]? = some marks ∧ _
    rw [Std.HashMap.getElem?_insert, (engine.buildsFrom_buildMatchers files id).matchers] at hvalue
    rw [languages_buildMatchers]
    split at hvalue
    · next heq =>
      obtain rfl := eq_of_beq heq
      rw [hplain, if_neg Bool.false_ne_true, Registry.merged_marks, if_pos rfl]
      exact ⟨_, rfl, fun hempty => hremembered.2 (.inr ⟨rfl, hplain, hempty⟩)⟩
    · next hne =>
      obtain ⟨marks, hmarks, hnoticed⟩ := h other value hvalue hplain
      refine ⟨marks, ?_, fun hempty => hremembered.2 (.inl (hnoticed hempty))⟩
      split
      · exact hmarks
      · rw [Registry.merged_marks, if_neg fun heq => hne (beq_iff_eq.2 heq)]
        exact hmarks

/-! ## Runs -/

/-- A request that does not renew the languages notices what it misses, and keeps what was noticed. -/
theorem notes_step (h : engine.KeepsNoticed) (hrequest : request.renewsLanguages = false) (id : String) :
    (engine.step request).state.KeepsNoticed ∧
      Notes engine (engine.step request) id (engine.Misses request id) := by
  cases hlookUp : request.lookUp? with
  | some lookUp =>
    obtain ⟨files, other⟩ := lookUp
    have hmisses : engine.Misses request id ↔ id = other ∧ engine.IsUnsupported files other := by
      rw [Misses, hlookUp]
      constructor
      · rintro ⟨files, heq, hunsupported⟩
        cases heq
        exact ⟨rfl, hunsupported⟩
      · rintro ⟨rfl, hunsupported⟩
        exact ⟨files, rfl, hunsupported⟩
    rw [step_of_lookUp? hlookUp, hmisses]
    exact ⟨h.matchersFor files other, notes_matchersFor files h other id⟩
  -- what is left is a new configuration
  | none =>
    have hmisses : ¬engine.Misses request id := by
      rintro ⟨files, heq, -⟩
      rw [hlookUp] at heq
      cases heq
    cases request with
    | matchersFor | scan | scanDocument => cases hlookUp
    | refresh config =>
      refine ⟨keepsNoticed_of_isEmpty rfl, .of_not rfl ?_ hmisses⟩
      simp [step, refresh, tagNotices]
    | refreshLanguages | registerLanguage => cases hrequest

/-- As long as the languages are not renewed, each one that has not been noticed is noticed once if it is missed. -/
theorem notes_run (h : engine.KeepsNoticed) {requests : List Request}
    (hrequests : ∀ request ∈ requests, request.renewsLanguages = false) (id : String) :
    Notes engine (engine.run requests) id (engine.MissesDuring requests id) := by
  induction requests generalizing engine with
  | nil => exact .of_not rfl List.not_mem_nil not_missesDuring_nil
  | cons request rest ih =>
    rw [List.forall_mem_cons] at hrequests
    obtain ⟨hkeeps, hstep⟩ := notes_step h hrequests.1 id
    rw [missesDuring_cons]
    exact hstep.trans (ih hkeeps hrequests.2)

/-- Once the languages are renewed nothing is remembered, neither matchers nor what was noticed. -/
theorem run_renewed (compiler : PatternCompiler) (config : ScanConfig) (languages : Registry)
    {requests : List Request} (h : ∀ request ∈ requests.getLast?, request.renewsLanguages = true) :
    let engine := ((new compiler config languages).state.run requests).state
    engine.matchers = {} ∧ engine.noticed = {} := by
  rcases requests.eq_nil_or_concat with rfl | ⟨earlier, request, rfl⟩
  · exact ⟨rfl, rfl⟩
  · rw [List.concat_eq_append] at h ⊢
    have hrenews := h request List.getLast?_concat
    dsimp only
    rw [state_run_append]
    cases request with
    | matchersFor | scan | scanDocument | refresh => cases hrenews
    | refreshLanguages | registerLanguage => exact ⟨rfl, rfl⟩

/-- Whatever is asked of a new engine: from its start, or from any renewal of the languages, up to the next renewal a
language without comment marks is noticed at most once, and once iff it is looked up while it is unsupported. To build
the engine notices no language. -/
theorem unsupportedLanguage_once (compiler : PatternCompiler) (config : ScanConfig) (languages : Registry)
    (before stretch : List Request)
    (hbefore : ∀ request ∈ before.getLast?, request.renewsLanguages = true)
    (hstretch : ∀ request ∈ stretch, request.renewsLanguages = false) (id : String) :
    let engine := ((new compiler config languages).state.run before).state
    let notices := (engine.run stretch).notices
    .unsupportedLanguage id ∉ (new compiler config languages).notices ∧
      notices.count (.unsupportedLanguage id) ≤ 1 ∧
      (notices.count (.unsupportedLanguage id) = 1 ↔
        ∃ earlier request later, stretch = earlier ++ request :: later ∧
          ∃ files, request.lookUp? = some (files, id) ∧ isPlainText id = false ∧
            ((engine.run earlier).state.languages.marks files id).value.isEmpty = true) := by
  intro engine notices
  obtain ⟨hmatchers, hnoticed⟩ := run_renewed compiler config languages hbefore
  refine ⟨by simp [new, tagNotices], ?_⟩
  refine (notes_run (keepsNoticed_of_isEmpty hmatchers) hstretch id).count_iff ?_
  rw [hnoticed]
  exact Std.HashSet.not_mem_empty

/-- A language without comment marks is noticed, and noticed again once languages are refreshed, but not again for a
new configuration. -/
theorem unsupportedLanguage_once_refreshed :
    let lookUp : Request := .matchersFor (fun _ => none) "zig"
    let new := (Engine.new .lenient {} .empty).state
    let refreshed := (new.run [lookUp, .refreshLanguages]).state
    (new.run [lookUp]).notices.count (.unsupportedLanguage "zig") = 1 ∧
      (refreshed.run [lookUp, .refresh {}, lookUp]).notices.count (.unsupportedLanguage "zig") = 1 := by
  intro lookUp new refreshed
  let nothing : Files := fun _ => none
  have hcoherent := (Registry.unasked_empty nothing).coherent
  have hlanguages : (new.matchersFor nothing "zig").state.languages = (Registry.empty.marks nothing "zig").state := by
    rw [matchersFor, show new.matchers = {} from rfl, Std.HashMap.getElem?_empty]
    exact languages_buildMatchers new nothing
  have hrefreshed : refreshed.languages.Unasked ⟨fun _ => none, nothing⟩ := by
    show ((new.matchersFor nothing "zig").state.languages.refresh).Unasked _
    rw [hlanguages]
    exact (hcoherent.marks "zig").2.refresh nothing
  have hempty : (LanguageSource.marks ⟨fun _ => none, nothing⟩ "zig").isEmpty = true := by decide +kernel
  constructor
  · refine ((unsupportedLanguage_once .lenient {} .empty [] [lookUp] ?_ ?_ "zig").2.2).2
      ⟨[], lookUp, [], rfl, nothing, rfl, by decide, ?_⟩
    · simp
    · simp [lookUp, Request.renewsLanguages]
    · exact (hcoherent.marks "zig").1 ▸ hempty
  · refine ((unsupportedLanguage_once .lenient {} .empty [lookUp, .refreshLanguages] [lookUp, .refresh {}, lookUp] ?_ ?_
      "zig").2.2).2 ⟨[], lookUp, _, rfl, nothing, rfl, by decide, ?_⟩
    · simp [Request.renewsLanguages]
    · simp [lookUp, Request.renewsLanguages]
    · exact (hrefreshed.coherent.marks "zig").1 ▸ hempty

end Engine

end CommentTags
