import CommentTags.Tag.Pattern
import CommentTags.Tag.Table
import CommentTags.Text.ByteOffsets
import CommentTags.Unicode.CaseFolding

/-!
# Looking for tag names

A `TagAlternation` looks for any of several tag names. Longer names come first, so that `??` wins over
`?`; letter case does not count, characters being compared under simple case folding.

## Main definitions

* `TagAlternation.build`: the choice between the names of some tags;
* `TagAlternation.matchAt?`: looks at one position of a text under scan;
* `TagAlternation.matchEnd?`: looks at the starts of all lines of a string and answers in bytes.
-/

namespace CommentTags

/-- A choice between tag names. -/
structure TagAlternation where
  /-- The choice as a pattern. -/
  source : String
  /-- The names under simple case folding, longest first. -/
  folded : List (List Char)
deriving DecidableEq, Repr, Inhabited

namespace TagAlternation

/-- The tags with the longest names first; tags with names of one length keep their order. -/
def longestFirst (tags : List Tag) : List Tag :=
  tags.mergeSort fun a b => b.name.length ≤ a.name.length

/-- The choice between the names of `tags`. -/
def ofTags (tags : List Tag) : TagAlternation where
  source := "^(?:" ++ "|".intercalate ((longestFirst tags).map Tag.escaped) ++ ")"
  folded := (longestFirst tags).map (·.name.toList.map Unicode.foldCase)

/-- The choice between the names of `tags`, if there are any. Its pattern is compiled, letter case aside. -/
def build (compiler : PatternCompiler) (tags : List Tag) : Except PatternError (Option TagAlternation) :=
  if tags.isEmpty then .ok none
  else (compiler.compile (ofTags tags).source true).map fun _ => some (ofTags tags)

/-- The folded characters `name` stand in `text` at `i` and end by `stop`. -/
def foldedAt (text : Text) (stop : Nat) : List Char → Nat → Bool
  | [], _ => true
  | c :: rest, i =>
    (i < stop && text[i]?.any (Unicode.foldCase · == c)) && foldedAt text stop rest (i + 1)

/-- The number of characters of the name that stands in `text` at `start` and ends by `stop`. -/
def matchAt? (names : TagAlternation) (text : Text) (start stop : Nat) : Option Nat :=
  (names.folded.find? fun name => foldedAt text stop name start).map List.length

/-- The byte offset in `s` of the end of the first name that stands at the start of a line. -/
def matchEnd? (names : TagAlternation) (s : String) : Option Nat := do
  let text := Text.ofString s
  let found (i : Nat) := names.matchAt? text i text.size
  let i ← firstFrom (fun i => text.startsLine i && (found i).isSome) 0 (text.size + 1)
  let length ← found i
  return (ByteOffsets.ofText text).byteOfChar (i + length)

end TagAlternation

end CommentTags
