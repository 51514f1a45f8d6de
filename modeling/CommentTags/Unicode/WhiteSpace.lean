/-!
# White space

The characters with the property `White_Space`. They decide where the content of a line ends.

## Main definitions

* `isWhiteSpace`: the character has the property.

## Main results

* `isWhiteSpace_of_isWhitespace`: every ASCII blank is among them.
-/

namespace CommentTags.Unicode

/-- The characters with the property `White_Space`. -/
def whiteSpaceChars : List Char :=
  ['\t', '\n', '\x0b', '\x0c', '\r', ' ', '\u0085', '\u00a0', '\u1680', '\u2000', '\u2001',
    '\u2002', '\u2003', '\u2004', '\u2005', '\u2006', '\u2007', '\u2008', '\u2009', '\u200a',
    '\u2028', '\u2029', '\u202f', '\u205f', '\u3000']

/-- `c` has the property `White_Space`. -/
def isWhiteSpace (c : Char) : Bool :=
  whiteSpaceChars.contains c

/-- A line feed is white space. -/
@[simp]
theorem isWhiteSpace_newline : isWhiteSpace '\n' = true := rfl

/-- Every ASCII blank is white space. -/
theorem isWhiteSpace_of_isWhitespace {c : Char} (h : c.isWhitespace = true) :
    isWhiteSpace c = true := by
  simp only [Char.isWhitespace, Bool.or_eq_true, decide_eq_true_eq] at h
  rcases h with ((rfl | rfl) | rfl) | rfl <;> rfl

end CommentTags.Unicode
