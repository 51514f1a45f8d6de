import CommentTags.Search
import CommentTags.Unicode.WhiteSpace

/-!
# Scanned text

A text is scanned by character position. This module holds the questions a scan asks about a text:
whether a literal stands at a position and where it stands next, where a line ends, and where the
blanks at the start and the white space at the end of a line are.

Blanks are spaces and tabs only; the white space at the end of a line is any `White_Space`. A line
ends at a line feed and nowhere else.

## Main definitions

* `Text.occursAt` and `Text.find?`: where a literal stands;
* `Text.lineEnd` and `Text.segments`: where lines end, and the lines of a part of the text;
* `Text.skipBlanks` and `Text.trimEnd`: where the content of a line starts and ends.
-/

namespace CommentTags

/-- A text by character position. -/
abbrev Text := Array Char

/-- The text of a string. -/
def Text.ofString (s : String) : Text :=
  s.toList.toArray

/-- A space or a tab. -/
def isBlank (c : Char) : Bool :=
  c == ' ' || c == '\t'

namespace Text

/-- The string of the characters from `start` to just before `stop`. -/
def slice (text : Text) (start stop : Nat) : String :=
  String.ofList (text.extract start stop).toList

/-- The character at `i` exists and is a blank. -/
def blankAt (text : Text) (i : Nat) : Bool :=
  text[i]?.any isBlank

/-- Position `i` is the start of the text or follows a line feed. -/
def startsLine (text : Text) (i : Nat) : Bool :=
  i == 0 || text[i - 1]? == some '\n'

/-- Position `i` follows a blank. -/
def followsBlank (text : Text) (i : Nat) : Bool :=
  0 < i && text.blankAt (i - 1)

/-- The characters of `literal` stand at `i`. -/
def occursAt (text : Text) : List Char → Nat → Bool
  | [], _ => true
  | c :: rest, i => text[i]? == some c && occursAt text rest (i + 1)

/-- The first position from `start` on at which `literal` stands and ends by `stop`. -/
def find? (text : Text) (literal : List Char) (start stop : Nat) : Option Nat :=
  let length := literal.length
  firstFrom (fun i => i + length ≤ stop && text.occursAt literal i) start (stop + 1 - start)

/-- The first line feed from `i` on, or the end of the text. -/
def lineEnd (text : Text) (i : Nat) : Nat :=
  (firstFrom (fun j => text[j]? == some '\n') i (text.size - i)).getD (max i text.size)

/-- The first position from `start` on that holds no blank, at most `stop`. -/
def skipBlanks (text : Text) (start stop : Nat) : Nat :=
  (firstFrom (fun j => !text.blankAt j) start (stop - start)).getD stop

/-- The first position from `start` on that does not hold `c`, at most `stop`. -/
def skipChar (text : Text) (c : Char) (start stop : Nat) : Nat :=
  (firstFrom (fun j => text[j]? != some c) start (stop - start)).getD stop

/-- The end of `start ≤ p < stop` once the last characters that satisfy `p` are left off. -/
def dropEndWhile (text : Text) (p : Char → Bool) (start : Nat) : Nat → Nat
  | 0 => 0
  | stop + 1 =>
    if start ≤ stop && text[stop]?.any p then dropEndWhile text p start stop else stop + 1

/-- The end of `start ≤ p < stop` without the white space at its end. -/
def trimEnd (text : Text) (start stop : Nat) : Nat :=
  text.dropEndWhile Unicode.isWhiteSpace start stop

/-- A line ends no earlier than any of its positions. -/
theorem le_lineEnd (text : Text) (i : Nat) : i ≤ text.lineEnd i := by
  unfold lineEnd
  cases hf : firstFrom (fun j => text[j]? == some '\n') i (text.size - i) with
  | none => exact Nat.le_max_left _ _
  | some j => exact le_of_firstFrom hf

/-- A line ends within the text. -/
theorem lineEnd_le {text : Text} {i : Nat} (h : i ≤ text.size) : text.lineEnd i ≤ text.size := by
  unfold lineEnd
  cases hf : firstFrom (fun j => text[j]? == some '\n') i (text.size - i) with
  | none => simp only [Option.getD_none]; omega
  | some j =>
    have := lt_of_firstFrom hf
    simp only [Option.getD_some]
    omega

/-- Skipping blanks does not go back. -/
theorem le_skipBlanks {text : Text} {start stop : Nat} (h : start ≤ stop) :
    start ≤ text.skipBlanks start stop := by
  unfold skipBlanks
  cases hf : firstFrom (fun j => !text.blankAt j) start (stop - start) with
  | none => simpa using h
  | some j => simpa using le_of_firstFrom hf

/-- Skipping blanks stays within the interval. -/
theorem skipBlanks_le {text : Text} {start stop : Nat} (h : start ≤ stop) :
    text.skipBlanks start stop ≤ stop := by
  unfold skipBlanks
  cases hf : firstFrom (fun j => !text.blankAt j) start (stop - start) with
  | none => simp
  | some j =>
    have := lt_of_firstFrom hf
    simp only [Option.getD_some]
    omega

/-- Skipping a character stays within the interval. -/
theorem skipChar_le {text : Text} {c : Char} {start stop : Nat} (h : start ≤ stop) :
    text.skipChar c start stop ≤ stop := by
  unfold skipChar
  cases hf : firstFrom (fun j => text[j]? != some c) start (stop - start) with
  | none => simp
  | some j =>
    have := lt_of_firstFrom hf
    simp only [Option.getD_some]
    omega

/-- A literal that stands in the text ends within it. -/
theorem add_length_le_of_occursAt {text : Text} {literal : List Char} {i : Nat}
    (h : text.occursAt literal i = true) (hi : i ≤ text.size) : i + literal.length ≤ text.size := by
  induction literal generalizing i with
  | nil => simpa using hi
  | cons c rest ih =>
    simp only [occursAt, Bool.and_eq_true, beq_iff_eq] at h
    have hlt : i < text.size := (Array.getElem?_eq_some_iff.1 h.1).1
    have := ih h.2 hlt
    simp only [List.length_cons]
    omega

/-- The line feeds of `start ≤ p < stop`. -/
def lineFeeds (text : Text) (start stop : Nat) : List Nat :=
  (List.range' start (stop - start)).filter fun i => text[i]? == some '\n'

/-- The lines of `start ≤ p ≤ stop`, without their line feeds, as pairs of start and end. -/
def segments (text : Text) (start stop : Nat) : List (Nat × Nat) :=
  let feeds := text.lineFeeds start stop
  (start :: feeds.map (· + 1)).zip (feeds ++ [stop])

end Text

end CommentTags
