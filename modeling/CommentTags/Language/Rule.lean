/-!
# Comment marks of a language

Marks are literal texts. An empty mark, or a pair with an empty half, never enters a collection.

## Main definitions

* `CommentRule`: the marks of one language, at most one mark for line comments and one pair for block
  comments;
* `CommentMarks`: the marks of several languages, each mark once, at its first place.
-/

namespace CommentTags

/-- The comment marks of a single language. -/
structure CommentRule where
  /-- The mark that opens a line comment. -/
  line : Option String := none
  /-- The marks that open and close a block comment. -/
  block : Option (String × String) := none
deriving DecidableEq, Repr, Inhabited

/-- The rule gives no usable mark. -/
def CommentRule.isEmpty (rule : CommentRule) : Bool :=
  rule.line.all (·.isEmpty) && rule.block.all fun (opening, closing) =>
    opening.isEmpty || closing.isEmpty

/-- The comment marks that count in a document. -/
structure CommentMarks where
  /-- The marks of line comments. -/
  line : List String := []
  /-- The pairs of marks of block comments. -/
  block : List (String × String) := []
deriving DecidableEq, Repr, Inhabited

namespace CommentMarks

/-- No marks. -/
def empty : CommentMarks := {}

/-- Adds the mark of a line comment, unless it is empty or known. -/
def addLine (marks : CommentMarks) (mark : String) : CommentMarks :=
  if mark.isEmpty || marks.line.contains mark then marks
  else { marks with line := marks.line ++ [mark] }

/-- Adds the marks of a block comment, unless one is empty or the pair is known. -/
def addBlock (marks : CommentMarks) (opening closing : String) : CommentMarks :=
  if opening.isEmpty || closing.isEmpty || marks.block.contains (opening, closing) then marks
  else { marks with block := marks.block ++ [(opening, closing)] }

/-- Adds the marks of `rule`. -/
def addRule (marks : CommentMarks) (rule : CommentRule) : CommentMarks :=
  let marks := match rule.line with
    | some mark => marks.addLine mark
    | none => marks
  match rule.block with
  | some (opening, closing) => marks.addBlock opening closing
  | none => marks

/-- The marks of `rules`, in order. -/
def ofRules (rules : List CommentRule) : CommentMarks :=
  rules.foldl addRule empty

/-- No mark is known. -/
def isEmpty (marks : CommentMarks) : Bool :=
  marks.line.isEmpty && marks.block.isEmpty

/-- The pair of marks whose comments may be doc comments. -/
def docPair : String × String := ("/*", "*/")

/-- Doc comments exist in languages with the block comments of C. -/
def allowDoc (marks : CommentMarks) : Bool :=
  marks.block.contains docPair

end CommentMarks

end CommentTags
