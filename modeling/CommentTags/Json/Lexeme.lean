import CommentTags.Json.Numeral.Reader
import CommentTags.Json.Quoted

/-!
# Lexemes of a JSON text

A text is split into lexemes, up to the first that is broken. A lexeme records what keeping it gives apart
from whether it can be skipped.

## Main definitions

* `Lexeme`: a word of a JSON text;
* `Lexeme.next`: the lexeme at the start of a text, and what follows it;
* `Lexeme.ofChars`: the lexemes of a text.
-/

namespace CommentTags.Json

/-- A word of a JSON text. -/
inductive Lexeme where
  /-- An opening square bracket. -/
  | openList
  /-- A closing square bracket. -/
  | closeList
  /-- An opening brace. -/
  | openRecord
  /-- A closing brace. -/
  | closeRecord
  /-- A comma. -/
  | comma
  /-- A colon. -/
  | colon
  /-- The word `null`. -/
  | null
  /-- The word `true` or `false`. -/
  | bool (b : Bool)
  /-- A number that can be skipped. -/
  | number (kept : Except Fault Numeral)
  /-- A string that can be skipped. -/
  | text (kept : Except Fault String)
  /-- A string in which reading stops. -/
  | brokenText (cause : Break)
  /-- Anything else at which reading stops. -/
  | broken (cause : Break)

namespace Lexeme

/-- Blanks between lexemes. -/
def isSpace (c : Char) : Bool :=
  c == ' ' || c == '\t' || c == '\n' || c == '\r'

/-- The fault of a text in which `word` ought to go on with `chars`. -/
def spell : List Char → List Char → Except Fault (List Char)
  | [], rest => .ok rest
  | _ :: _, [] => .error .endOfInput
  | w :: word, c :: rest => if c == w then spell word rest else .error .malformed

/-- What follows a word is no longer than the text. -/
theorem length_le_of_spell {word chars rest : List Char} (h : spell word chars = .ok rest) :
    rest.length ≤ chars.length := by
  fun_induction spell word chars with
  | case1 rest => cases h; exact Nat.le_refl _
  | case2 => cases h
  | case3 w word c chars hc ih => exact Nat.le_succ_of_le (ih h)
  | case4 => cases h

/-- The lexeme `value` if `letters` follow, and what comes after them. -/
def word (value : Lexeme) (letters rest : List Char) : Lexeme × List Char :=
  match spell letters rest with
  | .ok rest => (value, rest)
  | .error fault => (.broken (.both fault), [])

/-- What follows a word is no longer than the text after its first letter. -/
theorem length_word (value : Lexeme) (letters rest : List Char) :
    (word value letters rest).2.length ≤ rest.length := by
  unfold word
  split
  · next h => exact length_le_of_spell h
  · exact Nat.zero_le _

/-- The number that `chars` start with after its sign, and what follows. -/
def signed (negative : Bool) (chars : List Char) : Lexeme × List Char :=
  match Numeral.read negative chars with
  | .ok (n, rest) => (.number n, rest)
  | .error cause => (.broken cause, [])

/-- Reading a number takes a character, if there is one. -/
theorem length_signed (negative : Bool) (chars : List Char) :
    (signed negative chars).2.length ≤ chars.length - 1 := by
  unfold signed
  split
  · next h => exact Nat.le_sub_one_of_lt (Numeral.length_lt_of_read h)
  · exact Nat.zero_le _

/-- The string whose characters start with `rest`, and what follows. -/
def quoted (rest : List Char) : Lexeme × List Char :=
  match Quoted.keep [] rest, Quoted.skip rest with
  | kept, .ok rest => (.text kept, rest)
  | .ok _, .error fault => (.brokenText (.both fault), [])
  | .error kept, .error skipped => (.brokenText ⟨kept, skipped⟩, [])

/-- What follows a string is no longer than the text after its first quote. -/
theorem length_quoted (rest : List Char) : (quoted rest).2.length ≤ rest.length := by
  unfold quoted
  split
  · next h => exact Nat.le_of_lt (Quoted.length_lt_of_skip h)
  · exact Nat.zero_le _
  · exact Nat.zero_le _

/-- The lexeme at the start of `c :: rest`, which is no blank, and what follows it. -/
def next (c : Char) (rest : List Char) : Lexeme × List Char :=
  match c with
  | '[' => (openList, rest)
  | ']' => (closeList, rest)
  | '\x7b' => (openRecord, rest)
  | '\x7d' => (closeRecord, rest)
  | ',' => (comma, rest)
  | ':' => (colon, rest)
  | 'n' => word .null ['u', 'l', 'l'] rest
  | 't' => word (.bool true) ['r', 'u', 'e'] rest
  | 'f' => word (.bool false) ['a', 'l', 's', 'e'] rest
  | '"' => quoted rest
  | '-' => signed true rest
  | c => if c.isDigit then signed false (c :: rest) else (.broken (.both .malformed), [])

/-- What follows a lexeme is no longer than the text after its first character. -/
theorem length_next (c : Char) (rest : List Char) : (next c rest).2.length ≤ rest.length := by
  unfold next
  split <;> try exact Nat.le_refl _
  · exact length_word _ _ _
  · exact length_word _ _ _
  · exact length_word _ _ _
  · exact length_quoted _
  · exact Nat.le_trans (length_signed _ _) (Nat.sub_le _ _)
  · split
    · exact length_signed _ _
    · exact Nat.zero_le _

/-- The lexemes of `chars` after those in `done`, last first. -/
def ofCharsAfter (done : List Lexeme) : List Char → List Lexeme
  | [] => done.reverse
  | c :: rest =>
    if isSpace c then ofCharsAfter done rest
    else ofCharsAfter ((next c rest).1 :: done) (next c rest).2
termination_by chars => chars.length
decreasing_by
  · simp
  · have := length_next c rest
    simp only [List.length_cons]
    omega

/-- The lexemes of a text, up to the first that is broken. -/
def ofChars (chars : List Char) : List Lexeme :=
  ofCharsAfter [] chars

end Lexeme

end CommentTags.Json
