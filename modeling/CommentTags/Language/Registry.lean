import CommentTags.Language.Builtin
import CommentTags.Language.File
import CommentTags.Notice
import Std.Data.HashMap

/-!
# The registry of languages

A host registers languages with their language files and the languages embedded in them. The registry
answers which comment marks count in a document. Answers are remembered until the registry is refreshed or
a language is registered, so that language files are not read again for every document.

## Main definitions

* `Registry.rule`: a language's own marks, those of its language file or else the built-in ones;
* `Registry.marks`: a document's marks, those of its language and of the languages embedded in it.
-/

namespace CommentTags

/-- The content of each language file at a moment; `none` is a file that is not there. -/
abbrev Files := String → Option ByteArray

/-- A language as registered by a host. -/
structure LanguageDefinition where
  /-- The language. -/
  id : String
  /-- The language file, if there is one. -/
  file : Option String := none
  /-- The languages embedded in this one, each once. -/
  embedded : List String := []
deriving DecidableEq, Repr, Inhabited

/-- Embeds one more language, unless it is embedded already. -/
def LanguageDefinition.embed (definition : LanguageDefinition) (id : String) : LanguageDefinition :=
  if definition.embedded.contains id then definition
  else { definition with embedded := definition.embedded ++ [id] }

/-- The registered languages and the answers remembered. -/
structure Registry where
  /-- The registered languages. -/
  definitions : Std.HashMap String LanguageDefinition := {}
  /-- The marks of single languages that are remembered. -/
  rules : Std.HashMap String CommentRule := {}
  /-- The marks of documents that are remembered. -/
  merged : Std.HashMap String CommentMarks := {}

namespace Registry

/-- No language is registered; built-in marks count all the same. -/
def empty : Registry := {}

/-- The definition of the language `id`. -/
def definition? (registry : Registry) (id : String) : Option LanguageDefinition :=
  registry.definitions[id]?

/-- Forgets all answers. -/
def refresh (registry : Registry) : Registry :=
  { registry with rules := {}, merged := {} }

/-- Registers a language, or replaces its definition. -/
def register (registry : Registry) (definition : LanguageDefinition) : Registry :=
  refresh { registry with definitions := registry.definitions.insert definition.id definition }

/-- The usable marks in the file of the language `id`, and what is noticed when the file is faulty. -/
def fileRule (registry : Registry) (files : Files) (id : String) :
    Option CommentRule × List Notice :=
  match (registry.definition? id).bind (·.file) with
  | none => (none, [])
  | some file =>
    match CommentRule.ofBytes (files file) with
    | .ok rule => (rule.filter (!·.isEmpty), [])
    | .error _ => (none, [.unusableLanguageFile id])

/-- The marks of the language `id` by itself. -/
def rule (registry : Registry) (files : Files) (id : String) : Answer Registry CommentRule :=
  match registry.rules[id]? with
  | some rule => { value := rule, state := registry }
  | none =>
    let (fromFile, notices) := registry.fileRule files id
    let rule := (fromFile.or (builtinRule? id)).getD {}
    { value := rule
      state := { registry with rules := registry.rules.insert id rule }
      notices }

/-- The marks of each of the languages `ids` by itself. -/
def rulesOf (registry : Registry) (files : Files) : List String → Answer Registry (List CommentRule)
  | [] => { value := [], state := registry }
  | id :: rest =>
    let first := registry.rule files id
    let others := rulesOf first.state files rest
    { value := first.value :: others.value
      state := others.state
      notices := first.notices ++ others.notices }

/-- The language `id` and those embedded in it, in order. -/
def contributors (registry : Registry) (id : String) : List String :=
  id :: (((registry.definition? id).map (·.embedded)).getD []).filter (· != id)

/-- Marks that count in documents of the language `id` without being in its language file. -/
def extraRules (id : String) : List CommentRule :=
  if id == "php" then [.lineOnly "#"] else []

/-- The marks that count in documents of the language `id`. -/
def marks (registry : Registry) (files : Files) (id : String) : Answer Registry CommentMarks :=
  match registry.merged[id]? with
  | some marks => { value := marks, state := registry }
  | none =>
    let own := registry.rulesOf files (registry.contributors id)
    let marks := CommentMarks.ofRules (own.value ++ extraRules id)
    { value := marks
      state := { own.state with merged := own.state.merged.insert id marks }
      notices := own.notices }

end Registry

end CommentTags
