/-!
# Half-open spans of character offsets

A `Span` is an interval `start ≤ p < stop` of character offsets. Comments, claims and highlighted
ranges are all spans.

## Main definitions

* `Span.contains` and `Span.overlaps`: how a span lies to a position and to an interval;
* `Span.le`: spans are ordered by start and then by stop.

## Main results

* `Span.le_trans`, `Span.le_total` and `Span.le_antisymm`: the order of spans is linear.
-/

namespace CommentTags

/-- The character offsets `p` with `start ≤ p < stop`. -/
structure Span where
  /-- The first offset. -/
  start : Nat
  /-- The offset just past the last one. -/
  stop : Nat
deriving DecidableEq, Repr, Inhabited

namespace Span

/-- The number of offsets in the span. -/
def length (s : Span) : Nat :=
  s.stop - s.start

/-- A span without offsets; its ends may even be reversed. -/
def isEmpty (s : Span) : Bool :=
  s.stop ≤ s.start

/-- `p` is one of the span's offsets. -/
def contains (s : Span) (p : Nat) : Bool :=
  s.start ≤ p && p < s.stop

/-- The span starts before `stop` and ends after `start`. -/
def overlaps (s : Span) (start stop : Nat) : Bool :=
  s.start < stop && start < s.stop

/-- The span `k` offsets further on. -/
def shift (s : Span) (k : Nat) : Span :=
  ⟨s.start + k, s.stop + k⟩

/-- Order by start, then by stop. -/
protected def le (a b : Span) : Prop :=
  a.start < b.start ∨ a.start = b.start ∧ a.stop ≤ b.stop

instance : LE Span := ⟨Span.le⟩

/-- A span comes before another if it starts earlier, or starts with it and ends no later. -/
theorem le_iff {a b : Span} : a ≤ b ↔ a.start < b.start ∨ a.start = b.start ∧ a.stop ≤ b.stop :=
  Iff.rfl

instance (a b : Span) : Decidable (a ≤ b) :=
  decidable_of_iff (a.start < b.start ∨ a.start = b.start ∧ a.stop ≤ b.stop) le_iff.symm

/-- A span comes before itself. -/
theorem le_refl (a : Span) : a ≤ a := by
  simp [le_iff]

/-- The order of spans is transitive. -/
theorem le_trans {a b c : Span} (h : a ≤ b) (h' : b ≤ c) : a ≤ c := by
  simp only [le_iff] at *
  omega

/-- Of two spans one comes before the other. -/
theorem le_total (a b : Span) : a ≤ b ∨ b ≤ a := by
  simp only [le_iff]
  omega

/-- Two spans that come before each other are the same. -/
theorem le_antisymm {a b : Span} (h : a ≤ b) (h' : b ≤ a) : a = b := by
  simp only [le_iff] at *
  cases a
  cases b
  simp only [mk.injEq] at *
  omega

/-- A span that comes before another starts no later. -/
theorem start_le_of_le {a b : Span} (h : a ≤ b) : a.start ≤ b.start := by
  simp only [le_iff] at h
  omega

/-- A span is empty iff it ends no later than it starts. -/
@[simp]
theorem isEmpty_iff {s : Span} : s.isEmpty = true ↔ s.stop ≤ s.start := by
  simp [isEmpty]

/-- A span contains the positions from its start to just before its end. -/
@[simp]
theorem contains_iff {s : Span} {p : Nat} :
    s.contains p = true ↔ s.start ≤ p ∧ p < s.stop := by
  simp [contains]

/-- Two intervals overlap iff each starts before the other ends. -/
@[simp]
theorem overlaps_iff {s : Span} {start stop : Nat} :
    s.overlaps start stop = true ↔ s.start < stop ∧ start < s.stop := by
  simp [overlaps]

end Span

end CommentTags
