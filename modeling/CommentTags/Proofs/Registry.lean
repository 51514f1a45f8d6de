import CommentTags.Language.Registry
import CommentTags.Proofs.CommentMarks
import CommentTags.Proofs.LanguageFile

/-!
# What a registry answers

A registry remembers the marks of single languages and those of documents. Neither can be told from its
answers: as long as the language files stay as they were when languages were last registered or refreshed,
each answer is what the current definitions and the files give, whatever was asked before.

## Main definitions

* `Remembers`: the answers that are remembered are right;
* `LanguageSource.IsOwn`: the marks of a language by itself, from what its file gives or the built-in ones;
* `LanguageSource.ownRule` and `LanguageSource.marks`: the marks of a language, with nothing remembered;
* `Registry.Reachable`: the registries that registering, refreshing and looking up lead to;
* `Registry.Coherent`: what is remembered is what would be answered anyway;
* `Registry.Unasked`: nothing is remembered.

## Main results

* `LanguageSource.isOwn_iff`: `ownRule` answers the marks of a language by itself;
* `Registry.Coherent.marks`: a coherent registry answers the marks of a document, and stays coherent;
* `Registry.coherent_of_reachable`: the invariant of all registries;
* `Registry.marks_eq_unremembered`: what a registry answers, after any look-ups.
-/

namespace CommentTags

/-- What the marks of languages come from. -/
structure LanguageSource where
  /-- The definition of each language that is registered. -/
  definition? : String → Option LanguageDefinition
  /-- The content of each language file. -/
  files : Files

/-- The marks in a language file with the given bytes, if it is a text that gives any that are usable. -/
def CommentRule.inFile? (bytes : ByteArray) : Option CommentRule := do
  let text ← String.fromUTF8? bytes
  let rule ← (CommentRule.ofText text).toOption.join
  if rule.isEmpty then none else some rule

/-- The bytes of a text are those that are read as the text. -/
theorem fromUTF8?_eq_some_iff {bytes : ByteArray} {text : String} :
    String.fromUTF8? bytes = some text ↔ bytes = text.toUTF8 := by
  constructor
  · intro h
    unfold String.fromUTF8? at h
    split at h
    · cases h
      rfl
    · cases h
  · rintro rfl
    exact dif_pos text.isValidUTF8

/-- The marks in a file are usable ones that its text gives. -/
theorem CommentRule.inFile?_eq_some_iff {bytes : ByteArray} {rule : CommentRule} :
    inFile? bytes = some rule ↔
      ∃ text, bytes = String.toUTF8 text ∧ LanguageFile.GivesRule text rule ∧
        (rule.usableLine ≠ none ∨ rule.usableBlock ≠ none) := by
  have hjoin (answer : Except LanguageFileError (Option CommentRule)) (given : CommentRule) :
      answer.toOption.join = some given ↔ answer = .ok (some given) := by
    rcases answer with _ | _ | _ <;> simp [Except.toOption]
  simp only [inFile?, Option.bind_eq_bind, Option.bind_eq_some_iff, fromUTF8?_eq_some_iff, hjoin,
    ofText_eq_ok_some_iff, Option.ite_none_left_eq_some, ← isEmpty_eq_false_iff]
  refine exists_congr fun text => and_congr_right fun _ => ?_
  constructor
  · rintro ⟨given, hgiven, hempty, ⟨⟩⟩
    exact ⟨hgiven, Bool.eq_false_iff.2 hempty⟩
  · rintro ⟨hrule, hempty⟩
    exact ⟨rule, hrule, Bool.eq_false_iff.1 hempty, rfl⟩

namespace LanguageSource

variable (source : LanguageSource)

/-- Defines one language, or defines it anew. The files are those found from then on. -/
def register (definition : LanguageDefinition) (files : Files) : LanguageSource where
  definition? id := if id = definition.id then some definition else source.definition? id
  files := files

/-- The file of each language has the content it has in `files`. -/
def SameLanguageFiles (files : Files) : Prop :=
  ∀ id definition file, source.definition? id = some definition → definition.file = some file →
    files file = source.files file

/-- The usable marks in the file of the language `id`, if it has one that is there. -/
def fileRule? (id : String) : Option CommentRule := do
  let file ← (← source.definition? id).file
  CommentRule.inFile? (← source.files file)

/-- The marks of the language `id` by itself: those of its file, or else the built-in ones. -/
def ownRule (id : String) : CommentRule :=
  ((source.fileRule? id).or (builtinRule? id)).getD {}

/-- The file of the language `id` is there, and its text gives the marks `rule`, of which some are usable. -/
def FileGives (id : String) (rule : CommentRule) : Prop :=
  ∃ definition file text, source.definition? id = some definition ∧ definition.file = some file ∧
    source.files file = some (String.toUTF8 text) ∧ LanguageFile.GivesRule text rule ∧
    (rule.usableLine ≠ none ∨ rule.usableBlock ≠ none)

/-- The marks of a language by itself: those that its file gives, or else the built-in ones, or else none. -/
inductive IsOwn (id : String) : CommentRule → Prop
  | file {rule : CommentRule} : source.FileGives id rule → IsOwn id rule
  | builtin {rule : CommentRule} : (∀ rule', ¬ source.FileGives id rule') → builtinRule? id = some rule →
      IsOwn id rule
  | none : (∀ rule', ¬ source.FileGives id rule') → builtinRule? id = .none → IsOwn id {}

/-- The languages embedded in the language `id`. -/
def embedded (id : String) : List String :=
  ((source.definition? id).map (·.embedded)).getD []

/-- The rules that count in documents of the language `id`, in order. -/
def rules (id : String) : List CommentRule :=
  source.ownRule id :: (source.embedded id).map source.ownRule ++
    if id = "php" then [.lineOnly "#"] else []

/-- The marks that count in documents of the language `id`. -/
def marks (id : String) : CommentMarks :=
  .ofRules (source.rules id)

variable {source}

/-- The file of a language is read as what it gives. -/
theorem fileRule?_eq_some_iff {id : String} {rule : CommentRule} :
    source.fileRule? id = some rule ↔ source.FileGives id rule := by
  simp only [fileRule?, Option.bind_eq_bind, Option.bind_eq_some_iff, CommentRule.inFile?_eq_some_iff, FileGives]
  constructor
  · rintro ⟨definition, hdefinition, file, hfile, _, hbytes, text, rfl, hrule⟩
    exact ⟨definition, file, text, hdefinition, hfile, hbytes, hrule⟩
  · rintro ⟨definition, file, text, hdefinition, hfile, hbytes, hrule⟩
    exact ⟨definition, hdefinition, file, hfile, _, hbytes, text, rfl, hrule⟩

theorem fileRule?_eq_none_iff {id : String} : source.fileRule? id = none ↔ ∀ rule, ¬ source.FileGives id rule := by
  simp only [Option.eq_none_iff_forall_ne_some, ne_eq, fileRule?_eq_some_iff]

/-- The marks of a language by itself are determined. -/
theorem isOwn_iff {id : String} {rule : CommentRule} : source.IsOwn id rule ↔ rule = source.ownRule id := by
  constructor
  · rintro (hfile | ⟨hnone, hbuiltin⟩ | ⟨hnone, hbuiltin⟩)
    · simp [ownRule, fileRule?_eq_some_iff.2 hfile]
    · simp [ownRule, fileRule?_eq_none_iff.2 hnone, hbuiltin]
    · simp [ownRule, fileRule?_eq_none_iff.2 hnone, hbuiltin]
  · rintro rfl
    rw [ownRule]
    cases hfile : source.fileRule? id with
    | some rule => exact .file (fileRule?_eq_some_iff.1 hfile)
    | none =>
      have hnone := fileRule?_eq_none_iff.1 hfile
      cases hbuiltin : builtinRule? id with
      | some rule => exact .builtin hnone hbuiltin
      | none => exact .none hnone hbuiltin

/-- The marks of a language depend on its own file only. -/
theorem SameLanguageFiles.ownRule {files : Files} (h : source.SameLanguageFiles files) (id : String) :
    { source with files }.ownRule id = source.ownRule id := by
  -- the built-in marks are no matter of files
  have hfile : { source with files }.fileRule? id = source.fileRule? id := by
    unfold fileRule?
    cases hdefinition : source.definition? id with
    | none => rfl
    | some definition =>
      cases hfile : definition.file with
      | none => simp [hfile]
      | some file => simp [hfile, h id definition file hdefinition hfile]
  rw [LanguageSource.ownRule, hfile, LanguageSource.ownRule]

/-- The marks of a document depend on language files only. -/
theorem SameLanguageFiles.marks {files : Files} (h : source.SameLanguageFiles files) (id : String) :
    { source with files }.marks id = source.marks id := by
  have hown : { source with files }.ownRule = source.ownRule := funext h.ownRule
  rw [LanguageSource.marks, rules, hown]
  rfl

/-- The language itself may be left out of those embedded in it. -/
theorem marks_eq_contributors (id : String) :
    source.marks id = .ofRules
      ((id :: (source.embedded id).filter (· != id)).map source.ownRule ++ Registry.extraRules id) := by
  have hextra : Registry.extraRules id = if id = "php" then [.lineOnly "#"] else [] := by
    simp [Registry.extraRules]
  rw [marks, rules, hextra, CommentMarks.ofRules, CommentMarks.ofRules, List.foldl_append,
    List.foldl_append, List.map_cons, List.foldl_cons, List.foldl_cons,
    CommentMarks.foldl_addRule_filter source.ownRule id _ (CommentMarks.knows_addRule _ _)]

end LanguageSource

/-! ## Remembered answers -/

/-- Each answer that is remembered is the one that `answer` gives. -/
def Remembers {α : Type} (memo : Std.HashMap String α) (answer : String → α) : Prop :=
  ∀ id value, memo[id]? = some value → value = answer id

/-- Nothing is remembered wrongly where nothing is remembered. -/
theorem remembers_of_isEmpty {α : Type} {memo : Std.HashMap String α} (h : memo.isEmpty)
    (answer : String → α) : Remembers memo answer := by
  intro id value hvalue
  simp [Std.HashMap.getElem?_of_isEmpty h] at hvalue

/-- One more answer is remembered. -/
theorem Remembers.insert {α : Type} {memo : Std.HashMap String α} {answer : String → α}
    (h : Remembers memo answer) {id : String} {value : α} (hvalue : value = answer id) :
    Remembers (memo.insert id value) answer := by
  intro other value' hother
  rw [Std.HashMap.getElem?_insert] at hother
  split at hother
  · next hid => rw [← Option.some.inj hother, hvalue, eq_of_beq hid]
  · exact h other value' hother

namespace Registry

/-- What a registry remembers is what its languages give. -/
structure Coherent (registry : Registry) (source : LanguageSource) : Prop where
  /-- The languages are those that were registered. -/
  definitions : ∀ id, registry.definition? id = source.definition? id
  /-- Remembered marks of a language are its own. -/
  rules : Remembers registry.rules source.ownRule
  /-- Remembered marks of a document are those that count in it. -/
  merged : Remembers registry.merged source.marks

/-- A registry that has not been asked for anything since its languages were registered. -/
structure Unasked (registry : Registry) (source : LanguageSource) : Prop where
  /-- The languages are those that were registered. -/
  definitions : ∀ id, registry.definition? id = source.definition? id
  /-- No marks of a language are remembered. -/
  rules : registry.rules.isEmpty
  /-- No marks of a document are remembered. -/
  merged : registry.merged.isEmpty

/-! ## Registering and refreshing -/

variable {registry : Registry} {source : LanguageSource}

/-- A registry that remembers nothing is coherent. -/
theorem Unasked.coherent (h : registry.Unasked source) : registry.Coherent source where
  definitions := h.definitions
  rules := remembers_of_isEmpty h.rules _
  merged := remembers_of_isEmpty h.merged _

/-- No language is registered with an empty registry. -/
theorem unasked_empty (files : Files) : empty.Unasked ⟨fun _ => none, files⟩ :=
  ⟨fun _ => Std.HashMap.getElem?_empty, Std.HashMap.isEmpty_empty, Std.HashMap.isEmpty_empty⟩

/-- After a refresh nothing is remembered, and the files may be others. -/
theorem Coherent.refresh (h : registry.Coherent source) (files : Files) :
    registry.refresh.Unasked { source with files } :=
  ⟨h.definitions, Std.HashMap.isEmpty_empty, Std.HashMap.isEmpty_empty⟩

/-- After a language has been registered nothing is remembered, and the files may be others. -/
theorem Coherent.register (h : registry.Coherent source) (definition : LanguageDefinition) (files : Files) :
    (registry.register definition).Unasked (source.register definition files) := by
  refine ⟨fun id => ?_, Std.HashMap.isEmpty_empty, Std.HashMap.isEmpty_empty⟩
  have hinsert : (registry.register definition).definition? id =
      if definition.id == id then some definition else registry.definition? id :=
    Std.HashMap.getElem?_insert
  rw [hinsert, h.definitions id]
  simp only [LanguageSource.register, beq_iff_eq, eq_comm (a := definition.id)]

/-- Other files than those of the languages do not count. -/
theorem Coherent.otherFiles (h : registry.Coherent source) {files : Files}
    (hfiles : source.SameLanguageFiles files) : registry.Coherent { source with files } where
  definitions := h.definitions
  rules id rule hrule := (h.rules id rule hrule).trans (hfiles.ownRule id).symm
  merged id marks hmarks := (h.merged id marks hmarks).trans (hfiles.marks id).symm

/-! ## Looking up -/

/-- A file gives usable marks or none, whatever its content. -/
theorem filter_ofBytes (bytes : Option ByteArray) :
    (CommentRule.ofBytes bytes).toOption.join.filter (!·.isEmpty) = bytes.bind CommentRule.inFile? := by
  have hbind : bytes.bind CommentRule.inFile? = (bytes.bind String.fromUTF8?).bind fun text =>
      (CommentRule.ofText text).toOption.join.bind fun rule =>
        if rule.isEmpty then none else some rule := by
    cases bytes <;> rfl
  rw [hbind, CommentRule.ofBytes]
  cases bytes.bind String.fromUTF8? with
  | none => rfl
  | some text =>
    simp only [Option.bind_some]
    -- a rule without usable marks counts as none
    cases (CommentRule.ofText text).toOption.join with
    | none => rfl
    | some rule => by_cases hempty : rule.isEmpty <;> simp [Option.filter, hempty]

/-- The marks in the file of a language. -/
theorem fileRule_eq (h : ∀ id, registry.definition? id = source.definition? id) (id : String) :
    (registry.fileRule source.files id).1 = source.fileRule? id := by
  unfold fileRule LanguageSource.fileRule?
  rw [h]
  cases source.definition? id with
  | none => rfl
  | some definition =>
    cases hfile : definition.file with
    | none => simp [hfile]
    | some file =>
      simp only [Option.bind_some, hfile, Option.bind_eq_bind, ← filter_ofBytes]
      cases CommentRule.ofBytes (source.files file) <;> rfl

/-- The marks of a language by itself are looked up, or read and remembered. -/
theorem Coherent.rule (h : registry.Coherent source) (id : String) :
    (registry.rule source.files id).value = source.ownRule id ∧
      (registry.rule source.files id).state.Coherent source := by
  rw [Registry.rule]
  split
  · next rule hrule => exact ⟨h.rules id rule hrule, h⟩
  · have hown : ((registry.fileRule source.files id).1.or (builtinRule? id)).getD {} =
        source.ownRule id := by
      rw [fileRule_eq h.definitions, LanguageSource.ownRule]
    exact ⟨hown, h.definitions, h.rules.insert hown, h.merged⟩

/-- The same for several languages, one after the other. -/
theorem Coherent.rulesOf (h : registry.Coherent source) (ids : List String) :
    (registry.rulesOf source.files ids).value = ids.map source.ownRule ∧
      (registry.rulesOf source.files ids).state.Coherent source := by
  induction ids generalizing registry with
  | nil => exact ⟨rfl, h⟩
  | cons id ids ih =>
    obtain ⟨hvalue, hstate⟩ := h.rule id
    obtain ⟨hvalues, hstates⟩ := ih hstate
    rw [Registry.rulesOf]
    exact ⟨by rw [hvalue, hvalues, List.map_cons], hstates⟩

/-- The marks of a document are looked up, or merged and remembered. -/
theorem Coherent.marks (h : registry.Coherent source) (id : String) :
    (registry.marks source.files id).value = source.marks id ∧
      (registry.marks source.files id).state.Coherent source := by
  rw [Registry.marks]
  split
  · next marks hmarks => exact ⟨h.merged id marks hmarks, h⟩
  -- a language that embeds itself contributes once, which gives the same marks
  · obtain ⟨hvalues, hstate⟩ := h.rulesOf (registry.contributors id)
    have hmarks : CommentMarks.ofRules ((registry.rulesOf source.files (registry.contributors id)).value ++
        extraRules id) = source.marks id := by
      rw [hvalues, LanguageSource.marks_eq_contributors, contributors, h.definitions]
      rfl
    exact ⟨hmarks, hstate.definitions, hstate.rules, hstate.merged.insert hmarks⟩

/-! ## All registries -/

/-- The registry after looking up the marks of documents in the languages `ids`, in turn. -/
def lookUpAll (registry : Registry) (files : Files) (ids : List String) : Registry :=
  ids.foldl (fun registry id => (registry.marks files id).state) registry

/-- The registries that a host can have, with the languages and files that count. The file of a language
changes only when a language is registered or the registry is refreshed. -/
inductive Reachable : LanguageSource → Registry → Prop
  /-- No language is registered. -/
  | empty (files : Files) : Reachable ⟨fun _ => none, files⟩ .empty
  /-- A language is registered, or its definition is replaced. -/
  | register {source : LanguageSource} {registry : Registry} (definition : LanguageDefinition)
      (files : Files) : Reachable source registry →
      Reachable (source.register definition files) (registry.register definition)
  /-- All answers are forgotten. -/
  | refresh {source : LanguageSource} {registry : Registry} (files : Files) : Reachable source registry →
      Reachable { source with files } registry.refresh
  /-- The marks of a document are looked up. -/
  | marks {source : LanguageSource} {registry : Registry} (id : String) : Reachable source registry →
      Reachable source (registry.marks source.files id).state
  /-- Files that are no language files change. -/
  | otherFiles {source : LanguageSource} {registry : Registry} {files : Files}
      (h : source.SameLanguageFiles files) : Reachable source registry →
      Reachable { source with files } registry

/-- Looking up keeps a registry coherent. -/
theorem Coherent.lookUpAll (h : registry.Coherent source) (ids : List String) :
    (registry.lookUpAll source.files ids).Coherent source := by
  induction ids generalizing registry with
  | nil => exact h
  | cons id ids ih => exact ih (h.marks id).2

/-- Every registry is coherent. -/
theorem coherent_of_reachable (h : Reachable source registry) : registry.Coherent source := by
  induction h with
  | empty files => exact (unasked_empty files).coherent
  | register definition files _ ih => exact (ih.register definition files).coherent
  | refresh files _ ih => exact (ih.refresh files).coherent
  | marks id _ ih => exact (ih.marks id).2
  | otherFiles hfiles _ ih => exact ih.otherFiles hfiles

/-- The marks of a document are those of its language and of the languages embedded in it, in order, each
usable mark at its first place, and do not depend on what was looked up before. -/
theorem marks_eq_unremembered (h : Reachable source registry) (id : String) (before : List String) :
    ∃ own : String → CommentRule, (∀ other rule, source.IsOwn other rule ↔ rule = own other) ∧
      let rules := own id :: (source.embedded id).map own ++ if id = "php" then [{ line := some "#" }] else []
      let answer := ((registry.lookUpAll source.files before).marks source.files id).value
      answer.line = (rules.filterMap (·.usableLine)).eraseDups ∧
        answer.block = (rules.filterMap (·.usableBlock)).eraseDups ∧
        (∀ mark ∈ answer.line, mark ≠ "") ∧ (∀ pair ∈ answer.block, pair.1 ≠ "" ∧ pair.2 ≠ "") ∧
        answer.line.Nodup ∧ answer.block.Nodup := by
  refine ⟨source.ownRule, fun other rule => LanguageSource.isOwn_iff, ?_⟩
  intro rules answer
  have hanswer : answer = .ofRules rules :=
    (((coherent_of_reachable h).lookUpAll before).marks id).1
  have hline : answer.line = (rules.filterMap (·.usableLine)).eraseDups := by
    rw [hanswer, CommentMarks.line_ofRules]
  have hblock : answer.block = (rules.filterMap (·.usableBlock)).eraseDups := by
    rw [hanswer, CommentMarks.block_ofRules]
  refine ⟨hline, hblock, fun mark hmark => ?_, fun pair hpair => ?_, ?_, ?_⟩
  · rw [hline, List.mem_eraseDups] at hmark
    obtain ⟨rule, -, hrule⟩ := List.mem_filterMap.1 hmark
    exact CommentRule.nonempty_of_usableLine hrule
  · rw [hblock, List.mem_eraseDups] at hpair
    obtain ⟨rule, -, hrule⟩ := List.mem_filterMap.1 hpair
    exact CommentRule.nonempty_of_usableBlock hrule
  · exact hline ▸ nodup_eraseDups _
  · exact hblock ▸ nodup_eraseDups _

/-- A language is looked up, and then registered with a file that gives marks. It embeds itself and languages that
are looked up before it; the file of one of them gives no marks that are usable. -/
theorem marks_eq_unremembered_embedding :
    let nothing : Files := fun _ => none
    let files : Files := fun path =>
      if path = "php.json" then some (String.toUTF8
        "\x7b\"comments\":\x7b\"lineComment\":\x7b\"comment\":\"%\"\x7d,\"blockComment\":[\"<?\",\"?>\"]\x7d\x7d")
      else if path = "html.json" then some (String.toUTF8
        "\x7b\"comments\":\x7b\"lineComment\":\"\",\"blockComment\":[\"<?\",\"\"]\x7d\x7d")
      else none
    let html : LanguageDefinition := { id := "html", file := some "html.json" }
    let php : LanguageDefinition := { id := "php", file := some "php.json", embedded := ["html", "php", "sql"] }
    let source := (LanguageSource.register ⟨fun _ => none, nothing⟩ html nothing).register php files
    let registry := ((empty.marks nothing "php").state.register html).register php
    Reachable source registry ∧ source.IsOwn "php" { line := some "%", block := some ("<?", "?>") } ∧
      source.IsOwn "html" { block := some ("<!--", "-->") } ∧
      ((registry.lookUpAll files ["sql", "html"]).marks files "php").value =
        { line := ["%", "--", "#"], block := [("<?", "?>"), ("<!--", "-->")] } := by
  intro nothing files html php source registry
  have hreachable : Reachable source registry :=
    .register php files (.register html nothing (.marks "php" (.empty nothing)))
  obtain ⟨own, hown, hline, hblock, -⟩ := marks_eq_unremembered hreachable "php" ["sql", "html"]
  have hownRule : own = source.ownRule :=
    funext fun other => ((hown other _).1 (LanguageSource.isOwn_iff.2 rfl)).symm
  subst hownRule
  have hphp : source.ownRule "php" = { line := some "%", block := some ("<?", "?>") } := by decide +kernel
  have hhtml : source.ownRule "html" = { block := some ("<!--", "-->") } := by decide +kernel
  have hsql : source.ownRule "sql" = { line := some "--" } := by decide +kernel
  have hembedded : source.embedded "php" = ["html", "php", "sql"] := by decide +kernel
  rw [hembedded, List.map_cons, List.map_cons, List.map_cons, hphp, hhtml, hsql] at hline hblock
  refine ⟨hreachable, (hown _ _).2 hphp.symm, (hown _ _).2 hhtml.symm, ?_⟩
  exact congrArg₂ CommentMarks.mk (hline.trans (by decide +kernel)) (hblock.trans (by decide +kernel))

end Registry

end CommentTags
