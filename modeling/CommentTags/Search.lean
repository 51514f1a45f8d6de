/-!
# Searching among natural numbers

Two searches that everything else rests on.

## Main definitions

* `firstFrom p start count`: the first of `count` consecutive numbers that satisfies `p`, by trying
  them in turn;
* `partitionPoint p lo hi`: where a predicate that once true stays true becomes true, by bisection.

## Main results

* `firstFrom_eq_some_iff` and `firstFrom_eq_none_iff`: what the first search answers;
* `partitionPoint_le_iff`: the second search splits its interval where the predicate becomes true.
-/

namespace CommentTags

/-- The first of the `count` numbers from `start` on that satisfies `p`. -/
def firstFrom (p : Nat → Bool) (start : Nat) : Nat → Option Nat
  | 0 => none
  | count + 1 => if p start then some start else firstFrom p (start + 1) count

/-- The search finds the least number in its interval that satisfies `p`. -/
theorem firstFrom_eq_some_iff {p : Nat → Bool} {start count i : Nat} :
    firstFrom p start count = some i ↔
      (start ≤ i ∧ i < start + count) ∧ p i = true ∧ ∀ j, start ≤ j → j < i → p j = false := by
  induction count generalizing start with
  | zero =>
    simp only [firstFrom, reduceCtorEq, false_iff]
    rintro ⟨⟨h₁, h₂⟩, -⟩
    omega
  | succ count ih =>
    rw [firstFrom]
    split
    · next h =>
      simp only [Option.some.injEq]
      constructor
      · rintro rfl
        exact ⟨⟨Nat.le_refl _, by omega⟩, h, fun j h₁ h₂ => by omega⟩
      · rintro ⟨⟨h₁, _⟩, _, h₂⟩
        rcases Nat.eq_or_lt_of_le h₁ with rfl | hlt
        · rfl
        · simp [h₂ start (Nat.le_refl _) hlt] at h
    · next h =>
      rw [ih]
      constructor
      · rintro ⟨⟨h₁, h₂⟩, hp, hmin⟩
        refine ⟨⟨by omega, by omega⟩, hp, fun j hj hji => ?_⟩
        rcases Nat.eq_or_lt_of_le hj with rfl | hlt
        · simpa using h
        · exact hmin j hlt hji
      · rintro ⟨⟨h₁, h₂⟩, hp, hmin⟩
        have hne : start ≠ i := by
          rintro rfl
          exact h hp
        exact ⟨⟨by omega, by omega⟩, hp, fun j hj hji => hmin j (by omega) hji⟩

/-- The search finds nothing iff no number in its interval satisfies `p`. -/
theorem firstFrom_eq_none_iff {p : Nat → Bool} {start count : Nat} :
    firstFrom p start count = none ↔ ∀ j, start ≤ j → j < start + count → p j = false := by
  induction count generalizing start with
  | zero =>
    simp only [firstFrom, true_iff]
    intro j h₁ h₂
    omega
  | succ count ih =>
    rw [firstFrom]
    split
    · next h =>
      simp only [reduceCtorEq, false_iff]
      intro hall
      simp [hall start (Nat.le_refl _) (by omega)] at h
    · next h =>
      rw [ih]
      constructor
      · intro hall j h₁ h₂
        rcases Nat.eq_or_lt_of_le h₁ with rfl | hlt
        · simpa using h
        · exact hall j hlt (by omega)
      · intro hall j h₁ h₂
        exact hall j (by omega) (by omega)

/-- What is found is not before the start of the search. -/
theorem le_of_firstFrom {p : Nat → Bool} {start count i : Nat}
    (h : firstFrom p start count = some i) : start ≤ i :=
  (firstFrom_eq_some_iff.1 h).1.1

/-- What is found is before the end of the search. -/
theorem lt_of_firstFrom {p : Nat → Bool} {start count i : Nat}
    (h : firstFrom p start count = some i) : i < start + count :=
  (firstFrom_eq_some_iff.1 h).1.2

/-- The least number from `lo` on, at most `hi`, at which `p` holds; `p` must stay true once it is
true. Without such a number the answer is `hi`. -/
def partitionPoint (p : Nat → Bool) (lo hi : Nat) : Nat :=
  if lo < hi then
    let mid := (lo + hi) / 2
    if p mid then partitionPoint p lo mid else partitionPoint p (mid + 1) hi
  else
    lo
termination_by hi - lo

/-- The answer is not before the interval. -/
theorem le_partitionPoint {p : Nat → Bool} {lo hi : Nat} (h : lo ≤ hi) :
    lo ≤ partitionPoint p lo hi := by
  fun_induction partitionPoint p lo hi with
  | case1 lo hi hlt mid hp ih => exact ih (by omega)
  | case2 lo hi hlt mid hp ih => exact Nat.le_trans (by omega) (ih (by omega))
  | case3 lo hi hlt => exact Nat.le_refl _

/-- The answer is at most the end of the interval. -/
theorem partitionPoint_le {p : Nat → Bool} {lo hi : Nat} (h : lo ≤ hi) :
    partitionPoint p lo hi ≤ hi := by
  fun_induction partitionPoint p lo hi with
  | case1 lo hi hlt mid hp ih => exact Nat.le_trans (ih (by omega)) (by omega)
  | case2 lo hi hlt mid hp ih => exact ih (by omega)
  | case3 lo hi hlt => exact h

/-- For a predicate that stays true, the numbers of the interval that satisfy it are those from the
answer on. -/
theorem partitionPoint_le_iff {p : Nat → Bool} {lo hi i : Nat}
    (hmono : ∀ j k, j ≤ k → k < hi → p j = true → p k = true) (h₁ : lo ≤ i) (h₂ : i < hi) :
    partitionPoint p lo hi ≤ i ↔ p i = true := by
  fun_induction partitionPoint p lo hi with
  | case1 lo hi hlt mid hp ih =>
    have hmid : partitionPoint p lo mid ≤ mid := partitionPoint_le (by omega)
    rcases Nat.lt_or_ge i mid with hi | hi
    · exact ih (fun j k hjk hk => hmono j k hjk (by omega)) h₁ hi
    -- from the middle on the predicate holds
    · exact ⟨fun _ => hmono mid i hi h₂ hp, fun _ => Nat.le_trans hmid hi⟩
  | case2 lo hi hlt mid hp ih =>
    rcases Nat.lt_or_ge mid i with him | him
    · exact ih hmono him h₂
    -- up to the middle it does not
    · have hge : mid + 1 ≤ partitionPoint p (mid + 1) hi := le_partitionPoint (by omega)
      exact ⟨fun h => by omega, fun hpi => absurd (hmono i mid him (by omega) hpi) hp⟩
  | case3 lo hi hlt => omega

end CommentTags
