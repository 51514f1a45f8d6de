/-!
# Positions by line and column

Lines and columns count from zero; columns count characters.
-/

namespace CommentTags

/-- A place in a document. -/
structure Position where
  /-- The line. -/
  line : Nat
  /-- The number of characters before the place in its line. -/
  column : Nat
deriving DecidableEq, Repr, Inhabited

namespace Position

/-- A column beyond the end of every line. -/
def endOfLine : Nat := 18446744073709551615

/-- `a` comes before `b`. -/
def before (a b : Position) : Bool :=
  a.line < b.line || (a.line == b.line && a.column < b.column)

end Position

/-- The text between two places of a document. -/
structure TextRange where
  /-- Where the text starts. -/
  start : Position
  /-- Just past the end of the text. -/
  stop : Position
deriving DecidableEq, Repr, Inhabited

namespace TextRange

/-- The whole lines from `first` to `last`. -/
def lines (first last : Nat) : TextRange :=
  ⟨⟨first, 0⟩, ⟨last, Position.endOfLine⟩⟩

/-- No text lies between the places. -/
def isEmpty (range : TextRange) : Bool :=
  !range.start.before range.stop

end TextRange

end CommentTags
