import CommentTags.Proofs.Casing
import CommentTags.Proofs.HostRun
import CommentTags.Proofs.Plan

/-!
# The keys under which ranges are reported

Every range is reported under the lower-case form of a word of the text that spells a configured tag name.
Spelled words are recognized by simple case folding, whereas the table lists the lower-case form of the name
itself. For names of steady characters the two agree, and every reported key is in the table. For other
names they may not: a tag `s` is found in a text that holds a long s, and its range is reported under a key
that the table does not have, so nothing shows it.

## Main definitions

* `Spells`: a word spells a tag name;
* `Matchers.LooksFor` and `Engine.LooksForItsTags`: matchers are built from given tags.

## Main results

* `Matchers.exists_isTag_of_mem_recorded`: every highlight is recorded for a tag;
* `Matchers.exists_spells_of_mem_keys`: the keys of a scan;
* `Engine.scan_keys`: the keys of a scan after any history of its engine, and when the table has them all.
-/

namespace CommentTags

/-- The word spells the name, letter case aside. -/
def Spells (word name : String) : Prop :=
  word.toList.map Unicode.foldCase = name.toList.map Unicode.foldCase

/-! ## Names in the text -/

/-- What is left of a text from a position on starts with the character there. -/
theorem Text.drop_toList {text : Text} {c : Char} {i : Nat} (h : text[i]? = some c) :
    text.toList.drop i = c :: text.toList.drop (i + 1) := by
  obtain ⟨hlt, rfl⟩ := Array.getElem?_eq_some_iff.1 h
  exact List.drop_eq_getElem_cons (by simpa using hlt)

namespace TagAlternation

variable {text : Text}

/-- The characters that stand where a folded name is found fold to the name. -/
theorem map_foldCase_of_foldedAt {stop : Nat} {name : List Char} {i : Nat}
    (h : foldedAt text stop name i = true) :
    (text.extract i (i + name.length)).toList.map Unicode.foldCase = name := by
  rw [Array.toList_extract, List.extract_eq_take_drop, Nat.add_sub_cancel_left]
  induction name generalizing i with
  | nil => simp
  | cons c rest ih =>
    rw [foldedAt, Bool.and_eq_true, Bool.and_eq_true, Option.any_eq_true] at h
    obtain ⟨⟨-, d, hd, hfold⟩, hrest⟩ := h
    -- the part of the text starts with the character that folds to `c`
    rw [Text.drop_toList hd, List.length_cons, List.take_succ_cons, List.map_cons, ih hrest, beq_iff_eq.1 hfold]

/-- The tags are sorted, the longest names first, but no others than before. -/
theorem longestFirst_perm (tags : List Tag) : (longestFirst tags).Perm tags :=
  List.mergeSort_perm _ _

theorem mem_longestFirst {tags : List Tag} {tag : Tag} : tag ∈ longestFirst tags ↔ tag ∈ tags :=
  (longestFirst_perm tags).mem_iff

/-- What is found of several names is a word of the text that spells one of them. -/
theorem exists_spells_of_matchAt? {tags : List Tag} {start stop length : Nat}
    (h : (ofTags tags).matchAt? text start stop = some length) :
    ∃ tag ∈ tags, Spells (text.slice start (start + length)) tag.name := by
  obtain ⟨name, hname, rfl⟩ := Option.map_eq_some_iff.1 h
  have hfound := List.find?_some hname
  obtain ⟨tag, htag, rfl⟩ := List.mem_map.1 (List.mem_of_find?_eq_some hname)
  refine ⟨tag, mem_longestFirst.1 htag, ?_⟩
  rw [Spells, Text.slice, String.toList_ofList]
  exact map_foldCase_of_foldedAt hfound

/-- The choice between the names of some tags can be built iff there are any and its pattern is accepted. -/
theorem build_eq_ok_iff {compiler : PatternCompiler} {tags : List Tag} {names : TagAlternation} :
    build compiler tags = .ok (some names) ↔
      tags ≠ [] ∧ compiler.Accepts (ofTags tags).source true ∧ names = ofTags tags := by
  rw [build, PatternCompiler.Accepts, PatternCompiler.compile, ← List.isEmpty_eq_false_iff]
  cases tags.isEmpty with
  | true => simp
  | false => cases compiler.refusal? (ofTags tags).source true <;> simp [Except.map, eq_comm]

/-- What is found of the names that were built of several tags spells one of them. -/
theorem exists_spells_of_build {compiler : PatternCompiler} {tags : List Tag} {names : TagAlternation}
    (hbuild : build compiler tags = .ok (some names)) {start stop length : Nat}
    (h : names.matchAt? text start stop = some length) :
    ∃ tag ∈ tags, Spells (text.slice start (start + length)) tag.name := by
  obtain ⟨-, -, rfl⟩ := build_eq_ok_iff.1 hbuild
  exact exists_spells_of_matchAt? h

end TagAlternation

namespace Matchers

variable {matchers : Matchers} {text : Text}

/-- Every line that shows something does so for a tag. -/
theorem exists_isTag_of_mem_taggedLines {mode : Continuation} {inlineMark : Option Mark}
    {lines : List CommentLine} {t : TaggedLine}
    (ht : some t ∈ matchers.taggedLines text mode inlineMark none lines) :
    ∃ stop, matchers.IsTag text stop t.tag := by
  obtain ⟨line, -, ⟨h, horigin, htag, -⟩ | ⟨hown, -⟩⟩ := origin_of_mem_taggedLines ht
  · obtain ⟨other, -, hfound⟩ := horigin.resolve_left (Option.not_mem_none h)
    rw [htag]
    exact ⟨other.stop, isTag_of_head? hfound⟩
  · exact ⟨line.stop, isTag_of_lineTag? hown⟩

/-- The matchers look for the names of the tags. -/
structure LooksFor (matchers : Matchers) (compiler : PatternCompiler) (tags : TagTable) : Prop where
  multiline : TagAlternation.build compiler tags.multilineTags = .ok matchers.multiline
  line : TagAlternation.build compiler tags.lineTags = .ok matchers.line

/-- What stands in the text for one of the names spells the name of a tag. -/
theorem IsTag.exists_spells {compiler : PatternCompiler} {tags : TagTable}
    (hmatchers : matchers.LooksFor compiler tags) {stop : Nat} {span : Span} (h : matchers.IsTag text stop span) :
    ∃ tag ∈ tags.tags, Spells (text.slice span.start span.stop) tag.name := by
  obtain ⟨names, length, hnames, hlength, hstop⟩ := h.named
  rw [hstop]
  rcases hnames with hnames | hnames
  · obtain ⟨tag, htag, hspells⟩ :=
      TagAlternation.exists_spells_of_build (hnames ▸ hmatchers.multiline) hlength
    exact ⟨tag, (List.mem_filter.1 htag).1, hspells⟩
  · obtain ⟨tag, htag, hspells⟩ :=
      TagAlternation.exists_spells_of_build (hnames ▸ hmatchers.line) hlength
    exact ⟨tag, (List.mem_filter.1 htag).1, hspells⟩

end Matchers

/-! ## Highlights -/

namespace ScanAction

theorem recorded_flatMap {α : Type} (actions : α → List ScanAction) (items : List α) :
    recorded (items.flatMap actions) = items.flatMap fun item => recorded (actions item) := by
  induction items with
  | nil => rfl
  | cons item items ih => rw [List.flatMap_cons, recorded_append, ih, List.flatMap_cons]

/-- What is recorded of several lines is what they show. -/
theorem recorded_recordActions (text : Text) (base : Nat) (shown : List (Option TaggedLine)) :
    recorded (recordActions text base shown) = highlightsOf text base shown := by
  induction shown with
  | nil => rfl
  | cons line rest ih =>
    cases line with
    | none => exact ih
    | some line =>
      rw [recordActions, recorded_append, highlightsOf_cons_some, ← ih]
      by_cases hhead : line.isHead = true <;> simp [hhead, recorded]

end ScanAction

namespace Matchers

variable {σ : Type} [Checkpoint σ] {matchers : Matchers}

/-- Every highlight that a scan records is shown for a tag. -/
theorem exists_isTag_of_mem_recorded {text : Text} {base : Nat} {claims : ClaimSet} {h : Highlight}
    (hmem : h ∈ ScanAction.recorded (matchers.planText text base claims)) :
    ∃ stop tag, matchers.IsTag text stop tag ∧ h.tag = text.slice tag.start tag.stop := by
  have hlines {mode : Continuation} {inlineMark : Option Mark} {lines : List CommentLine}
      (hmem : h ∈ ScanAction.recorded (recordActions text base
        (matchers.taggedLines text mode inlineMark none lines))) :
      ∃ stop tag, matchers.IsTag text stop tag ∧ h.tag = text.slice tag.start tag.stop := by
    rw [ScanAction.recorded_recordActions] at hmem
    obtain ⟨shown, hshown, hmap⟩ := List.mem_filterMap.1 hmem
    obtain ⟨t, rfl, rfl⟩ := Option.map_eq_some_iff.1 hmap
    obtain ⟨stop, htag⟩ := exists_isTag_of_mem_taggedLines hshown
    exact ⟨stop, t.tag, htag, rfl⟩
  rw [planText] at hmem
  cases hshape : matchers.shape with
  | plainText =>
    rw [hshape] at hmem
    exact hlines hmem
  | code enclosures lineMarks =>
    rw [hshape] at hmem
    dsimp only [ScanAction.recorded] at hmem
    rw [ScanAction.recorded_flatMap] at hmem
    obtain ⟨found, -, hmem⟩ := List.mem_flatMap.1 hmem
    exact hlines hmem

/-- Every key of a scan is the lower-case form of a word of the text that spells a tag. -/
theorem exists_spells_of_mem_keys {compiler : PatternCompiler} {tags : TagTable}
    (hmatchers : matchers.LooksFor compiler tags) {text : String} {offset : Nat} {claims : ClaimSet}
    {checkpoint : σ} {ranges : TagRanges}
    (h : (matchers.scan text offset claims checkpoint).result = .ok ranges) {key : String}
    (hkey : key ∈ ranges.keys) :
    ∃ tag ∈ tags.tags, ∃ word, word.toList <:+: text.toList ∧ Spells word tag.name ∧
      key = Unicode.lowercase word := by
  rw [scan_eq_ofPlan] at h
  rw [(Scanned.ranges_ofPlan h).1, TagRanges.mem_keys_collect] at hkey
  obtain ⟨highlight, hmem, -, rfl⟩ := hkey
  rw [plan] at hmem
  split at hmem
  · cases hmem
  · obtain ⟨stop, span, hspan, htag⟩ := exists_isTag_of_mem_recorded hmem
    obtain ⟨tag, hmemTag, hspells⟩ := hspan.exists_spells hmatchers
    refine ⟨tag, hmemTag, _, ?_, hspells, by rw [htag]⟩
    -- a part of the text is a prefix of what is left of it
    rw [Text.slice, String.toList_ofList, Array.toList_extract, List.extract_eq_take_drop]
    exact (List.take_prefix _ _).isInfix.trans (List.drop_suffix _ _).isInfix

end Matchers

/-! ## The engine -/

namespace Engine

/-- All matchers that the engine remembers look for its tags. -/
def LooksForItsTags (engine : Engine) : Prop :=
  ∀ (id : String) (matchers : Matchers), engine.matchers[id]? = some (some matchers) →
    matchers.LooksFor engine.compiler engine.tags

/-- Matchers that are built look for the tags of the engine. -/
theorem looksFor_of_buildMatchers {engine : Engine} {files : Files} {id : String} {matchers : Matchers}
    (h : (engine.buildMatchers files id).value = some matchers) :
    matchers.LooksFor engine.compiler engine.tags := by
  rw [buildMatchers] at h
  split at h
  · split at h
    · obtain ⟨hmultiline, hline, -⟩ := Matchers.plainText_eq_ok (usable_eq_some id h).1
      exact ⟨hmultiline, hline⟩
    · cases h
  · dsimp only at h
    split at h
    · cases h
    · obtain ⟨hmultiline, hline, -⟩ := Matchers.ofKinds_eq_ok (usable_eq_some id h).1
      exact ⟨hmultiline, hline⟩

/-- Matchers that are looked up look for the tags of the engine. -/
theorem LooksForItsTags.matchersFor {engine : Engine} (h : engine.LooksForItsTags) {files : Files}
    {id : String} {matchers : Matchers} (hmatchers : (engine.matchersFor files id).value = some matchers) :
    matchers.LooksFor engine.compiler engine.tags := by
  rw [Engine.matchersFor] at hmatchers
  split at hmatchers
  · next value hvalue =>
    subst hmatchers
    exact h id _ hvalue
  · exact looksFor_of_buildMatchers hmatchers

/-- Whatever is done with an engine, its matchers look for its tags. -/
theorem LooksForItsTags.apply {engine : Engine} (h : engine.LooksForItsTags) (event : EngineEvent) :
    (event.apply engine).LooksForItsTags := by
  intro other matchers hother
  cases event with
  | lookUp files id =>
    rw [EngineEvent.apply] at hother ⊢
    rw [(engine.unrefreshed_matchersFor files id).compiler, (engine.unrefreshed_matchersFor files id).tags]
    rcases engine.remembered_matchersFor files id hother with hbefore | hbuilt
    · exact h _ _ hbefore
    · exact looksFor_of_buildMatchers hbuilt
  | refresh config => simp [EngineEvent.apply, refresh] at hother
  | refreshLanguages => simp [EngineEvent.apply, Engine.refreshLanguages] at hother
  | registerLanguage definition =>
    simp [EngineEvent.apply, Engine.registerLanguage, Engine.refreshLanguages] at hother

/-- After any history the tags of an engine are those of its configuration, and its matchers look for them. -/
theorem looksForItsTags_of_history (compiler : PatternCompiler) (config : ScanConfig) (languages : Registry)
    (history : List EngineEvent) :
    let engine := history.foldl EngineEvent.apply (new compiler config languages).state
    engine.Consistent ∧ engine.LooksForItsTags := by
  have hkeeps : ∀ engine : Engine, engine.Consistent ∧ engine.LooksForItsTags →
      (history.foldl EngineEvent.apply engine).Consistent ∧
        (history.foldl EngineEvent.apply engine).LooksForItsTags := by
    induction history with
    | nil => exact fun engine h => h
    | cons event history ih => exact fun engine h => ih _ ⟨h.1.apply event, h.2.apply event⟩
  exact hkeeps _ ⟨consistent_new compiler config languages, fun _ _ h => by simp [new] at h⟩

/-- The first scan of a plain text reports what the plan of its configuration records. -/
theorem exists_collect_of_plainText (compiler : PatternCompiler) {config : ScanConfig}
    (hconfig : config.highlightPlainText = true) (languages : Registry) (files : Files) (text : String) :
    let engine := (new compiler config languages).state
    ∃ ranges, (engine.scan files plainTextLanguage text 0 .empty Unlimited.mk).value.result = .ok ranges ∧
      ranges = .collect (ScanAction.recorded
        (((usable plainTextLanguage (Matchers.plainText compiler (.ofEntries config.tags))).1.map
          (·.plan text 0 .empty)).getD [])) := by
  intro engine
  obtain ⟨ranges, hresult, -⟩ := engine.scan_of_allows files plainTextLanguage text 0 .empty
    (Checkpoint.allows_of_forall (fun _ : Unlimited => rfl) Unlimited.mk)
  have hmatchers : (engine.matchersFor files plainTextLanguage).value =
      (usable plainTextLanguage (Matchers.plainText compiler (.ofEntries config.tags))).1 := by
    rw [← TagTable.build_fst config.tags .empty]
    exact (matchersFor_plainText Std.HashMap.getElem?_empty files).trans (if_pos hconfig)
  refine ⟨ranges, hresult, ?_⟩
  rw [eq_collect_of_scan hresult, plan, hmatchers]

/-- After any history of its engine, a scan reports ranges only under the lower-case form of words of the text
that spell a configured name. If the names have steady characters only, these keys are keys of the table, so
that no range is lost. -/
theorem scan_keys {σ : Type} [Checkpoint σ] (compiler : PatternCompiler) (config : ScanConfig)
    (languages : Registry) (history : List EngineEvent) (files : Files) (id text : String) (offset : Nat)
    (claims : ClaimSet) (checkpoint : σ) {ranges : TagRanges} :
    let engine := history.foldl EngineEvent.apply (new compiler config languages).state
    (engine.scan files id text offset claims checkpoint).value.result = .ok ranges →
    (∀ key ∈ ranges.keys, ∃ tag ∈ engine.tags.tags, ∃ word,
      word.toList <:+: text.toList ∧ Spells word tag.name ∧ key = Unicode.lowercase word) ∧
    ((∀ tag ∈ engine.tags.tags, ∀ c ∈ tag.name.toList, Unicode.IsSteady c) →
      ∀ key ∈ ranges.keys, key ∈ engine.tags.keys) := by
  intro engine h
  obtain ⟨hconsistent, hlooks⟩ := looksForItsTags_of_history compiler config languages history
  have hwords : ∀ key ∈ ranges.keys, ∃ tag ∈ engine.tags.tags, ∃ word,
      word.toList <:+: text.toList ∧ Spells word tag.name ∧ key = Unicode.lowercase word := by
    intro key hkey
    rw [scan] at h
    dsimp only at h
    split at h
    -- in a language without matchers nothing is found
    · cases h
      simp [TagRanges.keys, TagRanges.empty] at hkey
    · next matchers hmatchers =>
      exact Matchers.exists_spells_of_mem_keys (hlooks.matchersFor hmatchers) h hkey
  refine ⟨hwords, fun hsteady key hkey => ?_⟩
  -- the key of the tag that the word spells is the lower-case form of its name, and so that of the word
  obtain ⟨tag, htag, word, -, hspells, rfl⟩ := hwords key hkey
  have hkey : tag.key = Unicode.lowercase tag.name := by
    have hconfigured := htag
    rw [hconsistent.tags] at hconfigured
    exact TagTable.key_of_mem_ofEntries hconfigured
  rw [Unicode.lowercase_eq_of_foldCase_eq (hsteady tag htag) hspells, ← hkey]
  exact List.mem_map_of_mem htag

-- the evaluation goes through the table of case foldings
set_option maxRecDepth 10000 in
/-- The Kelvin sign spells the tag `k`, whose character is steady, and its range is reported under `k`. -/
theorem scan_keys_kelvin :
    let config : ScanConfig := { highlightPlainText := true, tags := [.named "k" "red"] }
    let engine := (new .lenient config .empty).state
    let scanned := (engine.scan (fun _ => none) plainTextLanguage "\u212a x" 0 .empty Unlimited.mk).value
    ∃ ranges, scanned.result = .ok ranges ∧ ranges.keys = ["k"] ∧
      (∀ tag ∈ engine.tags.tags, ∀ c ∈ tag.name.toList, Unicode.IsSteady c) ∧
      ∀ key ∈ ranges.keys, key ∈ engine.tags.keys := by
  intro config engine scanned
  obtain ⟨ranges, hresult, hranges⟩ :=
    exists_collect_of_plainText .lenient (show config.highlightPlainText = true from rfl) .empty (fun _ => none)
      "\u212a x"
  have hkeys : ranges.keys = ["k"] := by
    rw [hranges]
    decide +kernel
  have hsteady : ∀ tag ∈ engine.tags.tags, ∀ c ∈ tag.name.toList, Unicode.IsSteady c := by
    have htags : engine.tags.tags = [Tag.ofEntry (.named "k" "red") "k"] := by
      show (TagTable.build config.tags .empty).1.tags = _
      rw [TagTable.build_fst]
      decide +kernel
    rw [htags]
    intro tag htag c hc
    obtain rfl := List.mem_singleton.1 htag
    obtain rfl : c = 'k' := by simpa [Tag.ofEntry] using hc
    exact Unicode.isSteady_of_ascii (by decide) (by decide)
  exact ⟨ranges, hresult, hkeys, hsteady,
    (scan_keys .lenient config .empty [] _ _ _ 0 .empty Unlimited.mk hresult).2 hsteady⟩

set_option maxRecDepth 10000 in
/-- A long s spells the tag `s`, but its range is reported under a key of its own, which is not in the table:
for the tag there is nothing to show. -/
theorem scan_keys_not_in_table :
    let config : ScanConfig := { highlightPlainText := true, tags := [.named "s" "red"] }
    let engine := (new .lenient config .empty).state
    let scanned := (engine.scan (fun _ => none) plainTextLanguage "\u017f x" 0 .empty Unlimited.mk).value
    ∃ ranges, scanned.result = .ok ranges ∧ "\u017f" ∈ ranges.keys ∧ "\u017f" ∉ engine.tags.keys ∧
      ranges.get "s" = [] := by
  intro config engine scanned
  obtain ⟨ranges, hresult, hranges⟩ :=
    exists_collect_of_plainText .lenient (show config.highlightPlainText = true from rfl) .empty (fun _ => none)
      "\u017f x"
  have hreported : ranges.keys = ["\u017f"] := by
    rw [hranges]
    decide +kernel
  have hkeys : engine.tags.keys = ["s"] := by
    show (TagTable.build config.tags .empty).1.keys = _
    rw [TagTable.build_fst]
    decide +kernel
  have hget : ranges.get "s" = [] := by
    rw [hranges]
    decide +kernel
  refine ⟨ranges, hresult, ?_, ?_, hget⟩
  · rw [hreported]
    exact List.mem_singleton_self _
  · rw [hkeys]
    decide

end Engine

end CommentTags
