import CommentTags.Scan.Claims.Lemmas

/-!
# Claiming one span after the other

A scan claims comments in turn and never takes a claim back. This module describes the claims after
several spans were claimed.

Whatever the order, the claims afterwards are those from before and the new spans that are not empty
(`toList_claimAll_perm`). Empty spans may be left out (`claimAll_filter`). The queries are described once
more, by what it means that they find nothing; two spans are `Span.Disjoint` when one of them ends before
the other starts.
-/

namespace CommentTags

namespace Span

/-- One of the spans ends before the other starts. -/
def Disjoint (a b : Span) : Prop :=
  a.stop ≤ b.start ∨ b.stop ≤ a.start

theorem Disjoint.symm {a b : Span} (h : a.Disjoint b) : b.Disjoint a :=
  Or.symm h

/-- What is disjoint from a span is disjoint from each of its parts. -/
theorem Disjoint.mono_right {a b part : Span} (h : a.Disjoint b) (hstart : b.start ≤ part.start)
    (hstop : part.stop ≤ b.stop) : a.Disjoint part := by
  rw [Disjoint] at h ⊢
  omega

/-- Two spans overlap iff they are not disjoint. -/
theorem overlaps_eq_false_iff {a b : Span} : a.overlaps b.start b.stop = false ↔ a.Disjoint b := by
  rw [← Bool.not_eq_true, overlaps_iff, Disjoint]
  omega

end Span

namespace ClaimSet

variable {set : ClaimSet}

/-- Some claim starts strictly between two positions. -/
def StartsWithin (set : ClaimSet) (after before : Nat) : Prop :=
  ∃ c ∈ set.toList, after < c.start ∧ c.start < before

/-- The claims after one more span: those from before, and the span unless it is empty. -/
theorem mem_toList_claim {s t : Span} :
    t ∈ (set.claim s).toList ↔ t ∈ set.toList ∨ t = s ∧ s.start < s.stop := by
  by_cases hs : s.start < s.stop
  · rw [(toList_claim_perm hs).mem_iff, List.mem_cons]
    constructor
    · rintro (rfl | ht)
      · exact .inr ⟨rfl, hs⟩
      · exact .inl ht
    · rintro (ht | ⟨rfl, -⟩)
      · exact .inr ht
      · exact .inl rfl
  -- an empty span is not claimed
  · rw [claim_of_isEmpty (Span.isEmpty_iff.2 (Nat.le_of_not_lt hs))]
    constructor
    · exact .inl
    · rintro (ht | ⟨-, hs'⟩)
      · exact ht
      · exact absurd hs' hs

@[simp]
theorem claimAll_nil : set.claimAll [] = set := rfl

@[simp]
theorem claimAll_cons {s : Span} {spans : List Span} :
    set.claimAll (s :: spans) = (set.claim s).claimAll spans := rfl

theorem claimAll_append {first second : List Span} :
    set.claimAll (first ++ second) = (set.claimAll first).claimAll second :=
  List.foldl_append

/-- Claiming empty spans changes nothing, so they may be left out. -/
theorem claimAll_filter {spans : List Span} :
    set.claimAll (spans.filter (!·.isEmpty)) = set.claimAll spans := by
  induction spans generalizing set with
  | nil => rfl
  | cons s spans ih =>
    rw [List.filter_cons, claimAll_cons]
    by_cases hs : s.isEmpty = true
    · rw [if_neg (by simp [hs]), ih, claim_of_isEmpty hs]
    · rw [if_pos (by simp [hs]), claimAll_cons, ih]

/-- The claims after several spans are those from before and the spans that are not empty. -/
theorem toList_claimAll_perm {spans : List Span} :
    (set.claimAll spans).toList.Perm (set.toList ++ spans.filter (!·.isEmpty)) := by
  induction spans generalizing set with
  | nil => simp
  | cons s spans ih =>
    rw [claimAll_cons, List.filter_cons]
    by_cases hs : s.isEmpty = true
    · rw [if_neg (by simp [hs]), claim_of_isEmpty hs]
      exact ih
    -- the span stands before the claims from before instead of after them
    · rw [if_pos (by simp [hs])]
      rw [Span.isEmpty_iff, Nat.not_le] at hs
      refine ih.trans ?_
      refine ((toList_claim_perm hs).append_right _).trans ?_
      exact List.perm_middle.symm

theorem mem_toList_claimAll {spans : List Span} {t : Span} :
    t ∈ (set.claimAll spans).toList ↔ t ∈ set.toList ∨ t ∈ spans ∧ t.start < t.stop := by
  rw [toList_claimAll_perm.mem_iff, List.mem_append, List.mem_filter, Bool.not_eq_true',
    ← Bool.not_eq_true, Span.isEmpty_iff, Nat.not_le]

/-- No claim is ever taken back. -/
theorem mem_toList_claimAll_of_mem {spans : List Span} {t : Span} (h : t ∈ set.toList) :
    t ∈ (set.claimAll spans).toList :=
  mem_toList_claimAll.2 (.inl h)

theorem contains_claimAll_of_contains (spans : List Span) {p : Nat} (h : set.contains p = true) :
    (set.claimAll spans).contains p = true := by
  obtain ⟨s, hs, hp⟩ := contains_iff.1 h
  exact contains_iff.2 ⟨s, mem_toList_claimAll_of_mem hs, hp⟩

theorem StartsWithin.claimAll {after before : Nat} (h : set.StartsWithin after before)
    (spans : List Span) : (set.claimAll spans).StartsWithin after before := by
  obtain ⟨s, hs, hwithin⟩ := h
  exact ⟨s, mem_toList_claimAll_of_mem hs, hwithin⟩

/-- A position that is not claimed lies in no claim. -/
theorem contains_eq_false_iff {p : Nat} :
    set.contains p = false ↔ ∀ s ∈ set.toList, p < s.start ∨ s.stop ≤ p := by
  rw [← Bool.not_eq_true, contains_iff]
  simp only [Span.contains_iff, not_exists, not_and]
  constructor
  · intro h s hs
    have := h s hs
    omega
  · intro h s hs
    have := h s hs
    omega

/-- An interval that is not empty overlaps no claim iff it is disjoint from every claim. -/
theorem overlaps_eq_false_iff {start stop : Nat} (h : start < stop) :
    set.overlaps start stop = false ↔ ∀ s ∈ set.toList, s.Disjoint ⟨start, stop⟩ := by
  rw [← Bool.not_eq_true, overlaps_iff h]
  simp only [not_exists, not_and, Bool.not_eq_true]
  constructor
  · intro h' s hs
    exact Span.overlaps_eq_false_iff.1 (h' s hs)
  · intro h' s hs
    exact Span.overlaps_eq_false_iff.2 (h' s hs)

/-- The first claim that starts strictly within an interval. -/
theorem firstStartWithin_eq_some {after before c : Nat}
    (h : set.firstStartWithin after before = some c) :
    after < c ∧ c < before ∧ (∃ s ∈ set.toList, s.start = c) ∧
      ∀ s ∈ set.toList, after < s.start → c ≤ s.start := by
  rw [firstStartWithin_eq_find?, List.find?_map, Option.map_eq_some_iff] at h
  obtain ⟨s, hs, rfl⟩ := h
  obtain ⟨hp, before', after', heq, hmin⟩ := List.find?_eq_some_iff_append.1 hs
  simp only [Function.comp_apply, Bool.and_eq_true, decide_eq_true_eq] at hp
  refine ⟨hp.1, hp.2, ⟨s, ?_, rfl⟩, ?_⟩
  · rw [heq]
    exact List.mem_append_right _ List.mem_cons_self
  · intro t ht hafter
    have hsorted := set.pairwise_toList
    rw [heq] at ht hsorted
    rw [List.pairwise_append, List.pairwise_cons] at hsorted
    rcases List.mem_append.1 ht with ht | ht
    -- a claim that comes earlier in the order does not start within the interval
    · have hnot := hmin t ht
      simp only [Function.comp_apply, Bool.not_eq_true', Bool.and_eq_false_iff,
        decide_eq_false_iff_not] at hnot
      have hle := Span.start_le_of_le (hsorted.2.2 t ht s List.mem_cons_self)
      omega
    · rcases List.mem_cons.1 ht with rfl | ht
      · exact Nat.le_refl _
      · exact Span.start_le_of_le (hsorted.2.1.1 t ht)

/-- The search fails iff no claim starts strictly within the interval. -/
theorem firstStartWithin_eq_none_iff {after before : Nat} :
    set.firstStartWithin after before = none ↔ ¬ set.StartsWithin after before := by
  rw [firstStartWithin_eq_find?, List.find?_map, Option.map_eq_none_iff, List.find?_eq_none]
  simp only [Function.comp_apply, Bool.and_eq_true, decide_eq_true_eq, StartsWithin, not_exists, not_and]

end ClaimSet

end CommentTags
