import CommentTags.Config
import CommentTags.Document
import CommentTags.Language.Registry
import CommentTags.Scan
import CommentTags.Task
import Std.Data.HashSet

/-!
# The engine

An `Engine` holds the configuration, the table of tags, the registry of languages, and the matchers of the
languages asked for so far. Literals are escaped through a cache that the engine keeps. A language without
comment marks is noticed once, until languages are refreshed.

## Main definitions

* `Engine.matchersFor`: answers the matchers of a language and remembers them;
* `Engine.scan` and `Engine.scanDocument`: scan with them;
* `Engine.refresh`, `Engine.refreshLanguages` and `Engine.registerLanguage`: drop what has become stale
  and cancel the scans under way, since every token from `Engine.generation` goes stale.
-/

namespace CommentTags

/-- A configuration and everything derived from it. -/
structure Engine where
  /-- What compiles the patterns. -/
  compiler : PatternCompiler
  /-- The configuration. -/
  config : ScanConfig
  /-- The tags of the configuration. -/
  tags : TagTable
  /-- The literals escaped so far. -/
  escapes : EscapeCache
  /-- The languages. -/
  languages : Registry
  /-- The matchers of the languages asked for; `none` if there is nothing to scan. -/
  matchers : Std.HashMap String (Option Matchers) := {}
  /-- The languages without comment marks that have been noticed. -/
  noticed : Std.HashSet String := {}
  /-- Counts the refreshes. -/
  refreshes : TaskTracker := {}

namespace Engine

/-- What is noticed about the tags of a configuration. -/
def tagNotices (config : ScanConfig) : List Notice :=
  (TagTable.ignoredNames config.tags).map .duplicateTag

/-- An engine for `config` with the given languages. -/
def new (compiler : PatternCompiler) (config : ScanConfig) (languages : Registry) : Answer Engine Unit :=
  let (tags, escapes) := TagTable.build config.tags .empty
  { value := ()
    state := { compiler, config, tags, escapes, languages }
    notices := tagNotices config }

/-- Replaces the configuration. Literals that have been escaped stay so. -/
def refresh (engine : Engine) (config : ScanConfig) : Answer Engine Unit :=
  let (tags, escapes) := TagTable.build config.tags engine.escapes
  { value := ()
    state := { engine with
      config
      tags
      escapes
      matchers := {}
      refreshes := engine.refreshes.cancelAll }
    notices := tagNotices config }

/-- Has language files read again when they are needed. -/
def refreshLanguages (engine : Engine) : Engine :=
  { engine with
    languages := engine.languages.refresh
    matchers := {}
    noticed := {}
    refreshes := engine.refreshes.cancelAll }

/-- Registers a language, or replaces its definition. -/
def registerLanguage (engine : Engine) (definition : LanguageDefinition) : Engine :=
  refreshLanguages { engine with languages := engine.languages.register definition }

/-- A token that goes stale when the engine is refreshed. -/
def generation (engine : Engine) : TaskToken :=
  engine.refreshes.watch

/-- Tells whether the engine has been refreshed since it gave out `token`. -/
def guard (engine : Engine) (token : TaskToken) : TaskGuard :=
  ⟨engine.refreshes, token⟩

/-- The language of plain text. -/
def plainTextLanguage : String := "plaintext"

/-- Documents in the language `id` are plain text. -/
def isPlainText (id : String) : Bool :=
  id == plainTextLanguage

/-- Which comments the configuration has looked for. -/
def matcherOptions (config : ScanConfig) : MatcherOptions where
  multilineComments := config.multilineComments
  docComments := config.useJSDocStyle

/-- The matchers that were built, unless they find nothing or cannot be used. -/
def usable (id : String) : Except PatternError Matchers → Option Matchers × List Notice
  | .ok matchers => (if matchers.isInert then none else some matchers, [])
  | .error _ => (none, [.unusablePatterns id])

/-- Builds the matchers of the language `id`. -/
def buildMatchers (engine : Engine) (files : Files) (id : String) :
    Answer Engine (Option Matchers) :=
  if isPlainText id then
    if engine.config.highlightPlainText then
      let (value, notices) := usable id (Matchers.plainText engine.compiler engine.tags)
      { value, state := engine, notices }
    else
      { value := none, state := engine }
  else
    let marks := engine.languages.marks files id
    let engine := { engine with languages := marks.state }
    if marks.value.isEmpty then
      { value := none
        state := { engine with noticed := engine.noticed.insert id }
        notices := marks.notices ++
          if engine.noticed.contains id then [] else [.unsupportedLanguage id] }
    else
      let (built, escapes) :=
        (Matchers.ofMarks engine.compiler engine.tags marks.value (matcherOptions engine.config)).build
          engine.escapes
      let (value, notices) := usable id built
      { value, state := { engine with escapes }, notices := marks.notices ++ notices }

/-- The matchers of the language `id`, unless documents in it have no ranges. -/
def matchersFor (engine : Engine) (files : Files) (id : String) : Answer Engine (Option Matchers) :=
  match engine.matchers[id]? with
  | some value => { value, state := engine }
  | none =>
    let built := engine.buildMatchers files id
    { built with state := { built.state with
        matchers := built.state.matchers.insert id built.value } }

/-- Scans `text`, which starts at the character `offset` of a document in the language `id`. Refreshing
the engine cancels the scan. -/
def scan {σ : Type} [Checkpoint σ] (engine : Engine) (files : Files) (id text : String)
    (offset : Nat) (claims : ClaimSet) (checkpoint : σ) : Answer Engine (Scanned σ) :=
  let matchers := engine.matchersFor files id
  let engine := matchers.state
  let scanned : Scanned σ :=
    match matchers.value with
    | none => ⟨.ok .empty, claims, checkpoint⟩
    | some m =>
      let scanned := m.scan text offset claims (engine.guard engine.generation, checkpoint)
      ⟨scanned.result, scanned.claims, scanned.checkpoint.2⟩
  { value := scanned, state := engine, notices := matchers.notices }

/-- Scans a whole document. -/
def scanDocument {σ δ : Type} [Checkpoint σ] [TextDocument δ] (engine : Engine) (files : Files)
    (document : δ) (checkpoint : σ) : Answer Engine (Scanned σ) :=
  engine.scan files (TextDocument.languageId document) (TextDocument.text document) 0 .empty
    checkpoint

end Engine

end CommentTags
