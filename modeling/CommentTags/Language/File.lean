import CommentTags.Json.Decode
import CommentTags.Language.Rule

/-!
# Language files

A language file is a JSON text whose field `comments` holds the comment marks of a language. Line comments
are given by a mark or by an object with the mark, block comments by a list of two marks.

## Main definitions

* `CommentRule.ofText`: the comment marks in the text of a language file;
* `CommentRule.ofBytes`: those in a file with given bytes.
-/

namespace CommentTags

open Json

/-- Why a language file gives no comment marks. -/
inductive LanguageFileError where
  /-- The file cannot be read as a text. -/
  | unreadable
  /-- The text is not the JSON text of a language file. -/
  | json (fault : Fault)
  /-- The marks of block comments are not two. -/
  | blockMarks (marks : List String)
deriving DecidableEq, Repr, Inhabited

/-- How a language file without comment marks is reported. -/
def LanguageFileError.message : LanguageFileError → String
  | unreadable => "I/O error"
  | json fault => "JSON parse error: " ++ fault.category
  | blockMarks marks =>
    "invalid blockComment for '" ++ ", ".intercalate marks ++ "': expected a [start, end] pair"

namespace LanguageFile

/-- The number of lists and objects around the mark of line comments. -/
def lineDepth : Nat := 2

/-- Reads the field `comment` of an object. -/
def setMark (mark : Option String) (name : String) (d : Draft) : Except Fault (Option String) :=
  if name == "comment" then once mark Draft.toText d else return mark

/-- Reads the mark of line comments. The value is kept as a whole before its shape counts. -/
def decodeLine (d : Draft) : Except Fault String := do
  let _ ← d.toJson? (Draft.maxDepth - lineDepth)
  match d with
  | .text (.ok mark) => .ok mark
  | .record fields stop =>
    match ← (Members.mk fields (stop.map Break.kept)).read setMark none with
    | some mark => .ok mark
    | none => .error .mismatch
  | d => .error d.reject

/-- The comment marks of a language file. -/
structure Comments where
  /-- The mark of line comments. -/
  line : Option (Option String) := none
  /-- The marks of block comments. -/
  block : Option (Option (List String)) := none

/-- Reads the field of the comment marks called `name`. -/
def Comments.set (comments : Comments) (name : String) (d : Draft) : Except Fault Comments :=
  match name with
  | "lineComment" => return { comments with
      line := ← once comments.line (Draft.toOption decodeLine) d }
  | "blockComment" => return { comments with
      block := ← once comments.block (Draft.toOption (Draft.toList Draft.toText)) d }
  | _ => do
    d.skip
    return comments

/-- Reads the comment marks. -/
def decodeComments (d : Draft) : Except Fault Comments := do
  let members ← d.members ["lineComment", "blockComment"] .required
  members.read Comments.set {}

/-- Reads the field of a language file called `name`. -/
def setComments (comments : Option (Option Comments)) (name : String) (d : Draft) :
    Except Fault (Option (Option Comments)) :=
  if name == "comments" then
    once comments (Draft.toOption decodeComments) d
  else do
    d.skip
    return comments

/-- Reads a language file. -/
def decode (d : Draft) : Except Fault (Option Comments) := do
  let members ← d.members ["comments"] .required
  return (← members.read setComments none).join

end LanguageFile

namespace CommentRule

/-- The comment marks in the JSON text of a language file, if it has any. -/
def ofText (s : String) : Except LanguageFileError (Option CommentRule) :=
  match decodeText LanguageFile.decode s with
  | .error fault => .error (.json fault)
  | .ok none => .ok none
  | .ok (some comments) =>
    match comments.block.join with
    | none => .ok (some { line := comments.line.join })
    | some [opening, closing] =>
      .ok (some { line := comments.line.join, block := some (opening, closing) })
    | some marks => .error (.blockMarks marks)

/-- The comment marks in a language file with the given bytes; `none` is a file that is not there. -/
def ofBytes (bytes : Option ByteArray) : Except LanguageFileError (Option CommentRule) :=
  match bytes.bind String.fromUTF8? with
  | none => .error .unreadable
  | some s => ofText s

end CommentRule

end CommentTags
