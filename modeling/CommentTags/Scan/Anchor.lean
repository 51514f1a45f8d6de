import CommentTags.Text.Basic

/-!
# Where an opening mark may stand

A comment opens only where its mark is not glued to text before it: at the start of a line, or after a
blank. When a scan goes on from a position, that position itself counts as free only if a line starts
there; the blank before a mark must lie in the text still to be looked at.

## Main definitions

* `Text.freeAt`: a mark may open a comment at a position;
* `Text.findFree?`: the next such position with a given property.
-/

namespace CommentTags.Text

/-- A mark may open a comment at `i` when the text is looked at from `pos` on. -/
def freeAt (text : Text) (pos i : Nat) : Bool :=
  text.startsLine i || (pos < i && text.followsBlank i)

/-- The first position from `pos` on where a mark may open a comment and `p` holds. -/
def findFree? (text : Text) (p : Nat → Bool) (pos : Nat) : Option Nat :=
  firstFrom (fun i => text.freeAt pos i && p i) pos (text.size - pos)

/-- What is found lies in the rest of the text, is free and has the property. -/
theorem findFree?_eq_some {text : Text} {p : Nat → Bool} {pos i : Nat}
    (h : text.findFree? p pos = some i) :
    pos ≤ i ∧ i < text.size ∧ text.freeAt pos i = true ∧ p i = true := by
  obtain ⟨⟨h₁, h₂⟩, h₃, -⟩ := firstFrom_eq_some_iff.1 h
  simp only [Bool.and_eq_true] at h₃
  exact ⟨h₁, by omega, h₃.1, h₃.2⟩

end CommentTags.Text
