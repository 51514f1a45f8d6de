import Std.Data.TreeMap.Lemmas

/-!
# Literals in patterns

Tag names and comment marks are literals: in the pattern that looks for them every character with a
meaning of its own is escaped.

## Main definitions

* `Literal.escape`: writes a literal as a pattern;
* `EscapeCache`: remembers each literal it has escaped, with its pattern;
* `EscapeCache.escape`: looks a literal up, or escapes and remembers it.
-/

namespace CommentTags

namespace Literal

/-- The characters with a meaning of their own in a pattern. -/
def specialChars : List Char :=
  ['\\', '.', '+', '*', '?', '(', ')', '|', '[', ']', '\x7b', '\x7d', '^', '$', '#', '&', '-', '~']

/-- `literal` as a pattern: a backslash before every special character. -/
def escape (literal : String) : String :=
  String.ofList (literal.toList.flatMap fun c => if specialChars.contains c then ['\\', c] else [c])

end Literal

/-- The literals escaped so far, each with its pattern. -/
structure EscapeCache where
  /-- The pattern of each literal. -/
  patterns : Std.TreeMap String String
  /-- No literal has another pattern than its own. -/
  sound : ∀ literal pattern, patterns[literal]? = some pattern → pattern = Literal.escape literal

namespace EscapeCache

/-- A cache that has escaped nothing. -/
def empty : EscapeCache where
  patterns := {}
  sound literal pattern h := by simp at h

/-- The cache that has escaped `literal` as well. -/
def remember (cache : EscapeCache) (literal pattern : String) (hpattern : pattern = Literal.escape literal) :
    EscapeCache where
  patterns := cache.patterns.insert literal pattern
  sound other found h := by
    rw [Std.TreeMap.getElem?_insert] at h
    split at h
    · next heq => rw [← Option.some.inj h, hpattern, Std.LawfulEqCmp.eq_of_compare heq]
    · exact cache.sound other found h

/-- The pattern of `literal`, and the cache that knows it. -/
def escape (cache : EscapeCache) (literal : String) : String × EscapeCache :=
  match cache.patterns[literal]? with
  | some pattern => (pattern, cache)
  | none =>
    let pattern := Literal.escape literal
    (pattern, cache.remember literal pattern rfl)

/-- Remembered or not, the pattern of a literal is the same. -/
@[simp]
theorem escape_fst (cache : EscapeCache) (literal : String) :
    (cache.escape literal).1 = Literal.escape literal := by
  rw [escape]
  split
  · next pattern hpattern => exact cache.sound literal pattern hpattern
  · rfl

/-- The number of distinct literals escaped so far. -/
def size (cache : EscapeCache) : Nat :=
  cache.patterns.size

/-- Nothing has been escaped. -/
def isEmpty (cache : EscapeCache) : Bool :=
  cache.size == 0

end EscapeCache

end CommentTags
