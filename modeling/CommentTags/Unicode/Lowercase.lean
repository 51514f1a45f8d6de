import CommentTags.Unicode.CasedTable
import CommentTags.Unicode.LowercaseTable

/-!
# Lower case

`lowercase` maps a text to lower case. Almost every character is mapped by itself; there are two
exceptions. A capital I with a dot above becomes two characters, and a capital sigma takes its final
form `ς` when a letter comes before it and none after it, characters that carry no case of their own
being passed over.
-/

namespace CommentTags.Unicode

/-- `c` is passed over when looking for the neighbouring letter. -/
def isCaseIgnorable (c : Char) : Bool :=
  CharRange.find caseIgnorableRanges c.toNat

/-- `c` is a cased letter that is not passed over. -/
def isCased (c : Char) : Bool :=
  CharRange.find casedRanges c.toNat

/-- The first character that is not passed over is a cased letter. -/
def startsCased (chars : List Char) : Bool :=
  (chars.find? (fun c => !isCaseIgnorable c)).any isCased

/-- The lower-case form of a character that does not depend on its neighbours. -/
def lowercaseChar (c : Char) : List Char :=
  if c.toNat < 0x80 then [c.toLower]
  else if c = '\u0130' then ['i', '\u0307']
  else [CharRun.apply lowercaseMappings c]

/-- The lower-case form of a capital sigma between the characters `before`, nearest first, and
`after`. -/
def lowercaseSigma (before after : List Char) : Char :=
  if startsCased before && !startsCased after then '\u03c2' else '\u03c3'

/-- The lower-case form of `c` between the characters `before`, nearest first, and `after`. -/
def lowercaseBetween (before : List Char) (c : Char) (after : List Char) : List Char :=
  if c = '\u03a3' then [lowercaseSigma before after] else lowercaseChar c

/-- The lower-case form of `chars`, which follow the characters `before`, nearest first; `done` is
the lower-case form of those, last character first. -/
def lowercaseFrom (before done : List Char) : List Char → List Char
  | [] => done.reverse
  | c :: rest =>
    lowercaseFrom (c :: before) ((lowercaseBetween before c rest).reverse ++ done) rest

/-- `s` in lower case. -/
def lowercase (s : String) : String :=
  String.ofList (lowercaseFrom [] [] s.toList)

end CommentTags.Unicode
