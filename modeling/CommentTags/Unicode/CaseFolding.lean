import CommentTags.Unicode.CaseFoldingTable

/-!
# Simple case folding

Two characters are equal but for case when simple case folding maps them to one character. Folding
keeps the number of characters, though not the number of bytes: the Kelvin sign folds to `k`.
-/

namespace CommentTags.Unicode

/-- `c` under simple case folding. -/
def foldCase (c : Char) : Char :=
  if c.toNat < 0x80 then c.toLower else CharRun.apply caseFoldings c

end CommentTags.Unicode
