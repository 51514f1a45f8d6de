import CommentTags.Language.Rule
import CommentTags.Tag.Alternation

/-!
# What a scan looks for

`Matchers` hold all that a scan needs besides the text: the tag names of either tier, and where
comment text is found.

## Main definitions

* `Mark`: a literal that is never empty;
* `Enclosure`: a kind of comment with an opening and a closing mark;
* `CommentShape`: tells source code, whose comments are enclosed or follow line marks, from plain text,
  which is comment text throughout;
* `Matchers.ofMarks` and `Matchers.plainText`: prepare a scan; they fail if a pattern is refused.
-/

namespace CommentTags

/-- A comment mark. -/
structure Mark where
  /-- The characters of the mark. -/
  chars : List Char
  /-- A mark has at least one character. -/
  nonempty : chars ≠ []
deriving DecidableEq

namespace Mark

/-- The mark written `s`, unless `s` is empty. -/
def ofString? (s : String) : Option Mark :=
  if h : s.toList ≠ [] then some ⟨s.toList, h⟩ else none

/-- The mark as a string. -/
def toString (mark : Mark) : String :=
  String.ofList mark.chars

/-- The first character. -/
def first (mark : Mark) : Char :=
  mark.chars.head mark.nonempty

/-- The last character. -/
def last (mark : Mark) : Char :=
  mark.chars.getLast mark.nonempty

/-- The number of characters. -/
def length (mark : Mark) : Nat :=
  mark.chars.length

/-- A mark takes at least one character. -/
theorem length_pos (mark : Mark) : 0 < mark.length :=
  List.length_pos_iff.2 mark.nonempty

end Mark

/-- A kind of comment with an opening and a closing mark. -/
inductive Enclosure where
  /-- A doc comment: white space follows the opening mark, and lines may start with an asterisk. -/
  | doc
  /-- A block comment between two marks. -/
  | block (opening closing : Mark)
deriving DecidableEq

namespace Enclosure

/-- The mark at the start of the comment. -/
def opening : Enclosure → Mark
  | doc => ⟨['/', '*', '*'], by simp⟩
  | block opening _ => opening

/-- The mark at the end of the comment. -/
def closing : Enclosure → Mark
  | doc => ⟨['*', '/'], by simp⟩
  | block _ closing => closing

/-- The pattern of doc comments. -/
def docPattern : String :=
  "(?:^|[ \\t])(/\\*\\*)([ \\t\\r\\n](?s:.*?))(\\*/)"

/-- The pattern of comments of the kind. -/
def pattern : Enclosure → PatternBuilder String
  | doc => return docPattern
  | block opening closing => do
    let opening ← PatternBuilder.escape opening.toString
    let closing ← PatternBuilder.escape closing.toString
    return "(?:^|[ \\t])(" ++ opening ++ ")((?s:.*?))(" ++ closing ++ ")"

end Enclosure

/-- The pattern of a line mark, whose last character may be repeated. -/
def Mark.repeatedPattern (mark : Mark) : PatternBuilder String := do
  let escaped ← PatternBuilder.escape mark.toString
  let tail ← PatternBuilder.escape mark.last.toString
  return escaped ++ "(?:" ++ tail ++ ")*"

/-- The pattern of line comments with the given marks. -/
def linePattern (lineMarks : List Mark) : PatternBuilder String := do
  let groups ← lineMarks.mapM fun mark => return "(" ++ (← mark.repeatedPattern) ++ ")"
  return "(?:^|[ \\t])(?:" ++ "|".intercalate groups ++ ")"

/-- Where a scan finds comment text. -/
inductive CommentShape where
  /-- Source code with the given kinds of enclosed comments, in the order they are looked for, and
  marks of line comments, the first that fits being taken. -/
  | code (enclosures : List Enclosure) (lineMarks : List Mark)
  /-- Plain text, every line of which is comment text. -/
  | plainText
deriving DecidableEq

/-- Which enclosed comments are looked for. -/
structure MatcherOptions where
  /-- Look for doc comments and block comments. -/
  multilineComments : Bool := true
  /-- Look for doc comments, in languages that have them. -/
  docComments : Bool := true
deriving DecidableEq, Repr, Inhabited

/-- All that a scan needs besides the text. -/
structure Matchers where
  /-- The tags whose highlight goes on over the following lines, if there are any. -/
  multiline : Option TagAlternation
  /-- The tags that end with their line, if there are any. -/
  line : Option TagAlternation
  /-- Where comment text is found. -/
  shape : CommentShape
deriving DecidableEq

namespace Matchers

/-- The kinds of enclosed comments that `marks` give under `options`: doc comments first. -/
def enclosuresOf (marks : CommentMarks) (options : MatcherOptions) : List Enclosure :=
  if options.multilineComments then
    (if options.docComments && marks.allowDoc then [.doc] else []) ++
      marks.block.filterMap fun (opening, closing) =>
        return .block (← Mark.ofString? opening) (← Mark.ofString? closing)
  else
    []

/-- Compiles the pattern of comments of one kind. -/
def compileKind (compiler : PatternCompiler) (kind : Enclosure) : PatternBuilder Unit := do
  compiler.compile (← kind.pattern) false

/-- Compiles the pattern of line comments, if there are any marks. -/
def compileLines (compiler : PatternCompiler) (lineMarks : List Mark) : PatternBuilder Unit :=
  if lineMarks.isEmpty then
    return
  else do
    compiler.compile (← linePattern lineMarks) false

/-- Matchers for source code with comments of the given kinds and with the given line marks. The patterns of
enclosed comments are compiled first, and that of line comments last. -/
def ofKinds (compiler : PatternCompiler) (tags : TagTable) (enclosures : List Enclosure)
    (lineMarks : List Mark) : PatternBuilder Matchers := do
  enclosures.forM (compileKind compiler)
  let multiline ← TagAlternation.build compiler tags.multilineTags
  let line ← TagAlternation.build compiler tags.lineTags
  compileLines compiler lineMarks
  return { multiline, line, shape := .code enclosures lineMarks }

/-- Matchers for source code whose comments have the given `marks`. -/
def ofMarks (compiler : PatternCompiler) (tags : TagTable) (marks : CommentMarks) (options : MatcherOptions) :
    PatternBuilder Matchers :=
  ofKinds compiler tags (enclosuresOf marks options) (marks.line.filterMap Mark.ofString?)

/-- Matchers that take the whole text for comment text. -/
def plainText (compiler : PatternCompiler) (tags : TagTable) : Except PatternError Matchers :=
  return {
    multiline := ← TagAlternation.build compiler tags.multilineTags
    line := ← TagAlternation.build compiler tags.lineTags
    shape := .plainText }

variable {compiler : PatternCompiler} {tags : TagTable} {matchers : Matchers}

/-- Matchers for source code look for the names of all tags, in comments of the given kinds. -/
theorem ofKinds_eq_ok {enclosures : List Enclosure} {lineMarks : List Mark} {escapes : EscapeCache}
    (h : ((ofKinds compiler tags enclosures lineMarks).build escapes).1 = .ok matchers) :
    TagAlternation.build compiler tags.multilineTags = .ok matchers.multiline ∧
      TagAlternation.build compiler tags.lineTags = .ok matchers.line ∧
      matchers.shape = .code enclosures lineMarks := by
  obtain ⟨_, _, -, h⟩ := PatternBuilder.build_bind_eq_ok h
  obtain ⟨multiline, _, hmultiline, h⟩ := PatternBuilder.build_bind_eq_ok h
  obtain ⟨line, _, hline, h⟩ := PatternBuilder.build_bind_eq_ok h
  obtain ⟨_, _, -, h⟩ := PatternBuilder.build_bind_eq_ok h
  cases h
  exact ⟨hmultiline, hline, rfl⟩

/-- Matchers for plain text look for the names of all tags, everywhere. -/
theorem plainText_eq_ok (h : plainText compiler tags = .ok matchers) :
    TagAlternation.build compiler tags.multilineTags = .ok matchers.multiline ∧
      TagAlternation.build compiler tags.lineTags = .ok matchers.line ∧ matchers.shape = .plainText := by
  rw [plainText] at h
  cases hmultiline : TagAlternation.build compiler tags.multilineTags with
  | error e =>
    rw [hmultiline] at h
    cases h
  | ok multiline =>
    cases hline : TagAlternation.build compiler tags.lineTags with
    | error e =>
      rw [hmultiline, hline] at h
      cases h
    | ok line =>
      rw [hmultiline, hline] at h
      cases h
      exact ⟨rfl, rfl, rfl⟩

/-- No scan with these matchers finds anything: there is no tag or no comment to look for. -/
def isInert (matchers : Matchers) : Bool :=
  matchers.multiline.isNone && matchers.line.isNone ||
    match matchers.shape with
    | .code enclosures lineMarks => enclosures.isEmpty && lineMarks.isEmpty
    | .plainText => false

/-- The number of characters of the tag, of either tier, that stands in `text` at `start` and ends by
`stop`. -/
def tagAt? (matchers : Matchers) (text : Text) (start stop : Nat) : Option Nat :=
  (matchers.multiline.bind (·.matchAt? text start stop)).or
    (matchers.line.bind (·.matchAt? text start stop))

end Matchers

end CommentTags
