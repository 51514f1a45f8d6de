/-!
# Notices

What a host may want to tell its user although work goes on.
-/

namespace CommentTags

/-- How serious a notice is. -/
inductive Severity where
  /-- Something is left out. -/
  | warning
  /-- Something does not work. -/
  | error
deriving DecidableEq, Repr, Inhabited

/-- Something noticed on the way. -/
inductive Notice where
  /-- A tag has a name that an earlier tag has. -/
  | duplicateTag (name : String)
  /-- A language without comment marks was asked for. -/
  | unsupportedLanguage (id : String)
  /-- The file of a language gives no comment marks because of a fault. -/
  | unusableLanguageFile (id : String)
  /-- The patterns for a language cannot be built. -/
  | unusablePatterns (id : String)
deriving DecidableEq, Repr, Inhabited

namespace Notice

/-- How serious the notice is. -/
def severity : Notice → Severity
  | unusablePatterns _ => .error
  | _ => .warning

/-- What the notice says. -/
def text : Notice → String
  | duplicateTag _ => "duplicate tag definition ignored"
  | unsupportedLanguage _ => "no comment rules for language"
  | unusableLanguageFile _ => "failed to load language configuration"
  | unusablePatterns _ => "failed to build tag matchers"

/-- The tag or language that the notice is about. -/
def subject : Notice → String
  | duplicateTag name => name
  | unsupportedLanguage id => id
  | unusableLanguageFile id => id
  | unusablePatterns id => id

end Notice

/-- The answer of an operation, the state it leaves behind, and what it noticed. -/
structure Answer (σ α : Type) where
  /-- The answer. -/
  value : α
  /-- The new state. -/
  state : σ
  /-- What was noticed, in order. -/
  notices : List Notice := []

end CommentTags
