import CommentTags.Search

/-!
# Tables of characters

Sets of characters and one-to-one character mappings as ascending arrays of ranges, looked up by
bisection.

## Main definitions

* `CharRange.find`: decides membership in a set;
* `CharRun.image?`: maps a character through runs of equally spaced characters whose images are
  spaced alike.
-/

namespace CommentTags.Unicode

/-- The code points from `first` to `last`. -/
structure CharRange where
  /-- The least code point. -/
  first : Nat
  /-- The greatest code point. -/
  last : Nat
deriving Repr, Inhabited

/-- `code` lies in one of the ascending, disjoint `ranges`. -/
def CharRange.find (ranges : Array CharRange) (code : Nat) : Bool :=
  let i := partitionPoint (fun i => ranges[i]?.any (code ≤ ·.last)) 0 ranges.size
  ranges[i]?.any (·.first ≤ code)

/-- Every `step`-th code point from `first` to `last`; `first` is mapped to `image` and the others
by the same distance. -/
structure CharRun where
  /-- The least code point. -/
  first : Nat
  /-- The greatest code point. -/
  last : Nat
  /-- The distance between neighbours. -/
  step : Nat
  /-- Where `first` is mapped to. -/
  image : Nat
deriving Repr, Inhabited

/-- The code point that the ascending, disjoint `runs` map `code` to. -/
def CharRun.image? (runs : Array CharRun) (code : Nat) : Option Nat := do
  let i := partitionPoint (fun i => runs[i]?.any (code ≤ ·.last)) 0 runs.size
  let run ← runs[i]?
  if run.first ≤ code ∧ (code - run.first) % run.step = 0 then
    some (run.image + (code - run.first))
  else
    none

/-- The character `c` is mapped to by `runs`, which is `c` itself outside them. -/
def CharRun.apply (runs : Array CharRun) (c : Char) : Char :=
  match image? runs c.toNat with
  | some code => Char.ofNat code
  | none => c

end CommentTags.Unicode
