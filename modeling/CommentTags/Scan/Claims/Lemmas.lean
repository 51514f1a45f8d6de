import CommentTags.Scan.Claims

/-!
# What claims answer

The queries of a `ClaimSet` walk its claims, last start first, and stop early where the reach of a claim
rules out the rest. This module shows that they answer what a plain list of the claimed spans would.

## Main results

* `ClaimSet.contains_iff`, `ClaimSet.covers_iff` and `ClaimSet.overlaps_iff`: a query holds iff some
  claimed span satisfies it;
* `ClaimSet.firstStartWithin_eq_find?`: the least start within an interval is the first one in order;
* `ClaimSet.toList_claim_perm` and `ClaimSet.pairwise_toList`: claiming adds one span to those claimed,
  which stay in order;
* `ClaimSet.ext_toList`: claims are determined by the claimed spans.
-/

namespace CommentTags

namespace Claim

/-- No claim ends beyond the reach. -/
theorem stop_le_reachOf {claims : List Claim} (h : Ordered claims) {d : Claim} (hd : d ∈ claims) :
    d.span.stop ≤ reachOf claims := by
  induction claims with
  | nil => simp at hd
  | cons c rest ih =>
    obtain ⟨-, hreach, -, hrest⟩ := h
    rw [reachOf, hreach]
    rcases List.mem_cons.1 hd with rfl | hd
    · exact Nat.le_max_left _ _
    · exact Nat.le_trans (ih hrest hd) (Nat.le_max_right _ _)

/-- Some claim ends at the reach. -/
theorem exists_stop_eq_reach {c : Claim} {rest : List Claim} (h : Ordered (c :: rest)) :
    ∃ d ∈ c :: rest, d.span.stop = c.reach := by
  induction rest generalizing c with
  | nil =>
    obtain ⟨-, hreach, -⟩ := h
    exact ⟨c, by simp, by simp [hreach, reachOf]⟩
  | cons b rest ih =>
    obtain ⟨-, hreach, -, hrest⟩ := h
    rw [reachOf] at hreach
    rcases Nat.le_total b.reach c.span.stop with hle | hle
    · exact ⟨c, by simp, by omega⟩
    · obtain ⟨d, hd, hstop⟩ := ih hrest
      exact ⟨d, List.mem_cons_of_mem c hd, by omega⟩

/-- The claims that come later in the list start no later in the text. -/
theorem start_le_of_mem {c : Claim} {rest : List Claim} (h : Ordered (c :: rest)) {d : Claim}
    (hd : d ∈ c :: rest) : d.span.start ≤ c.span.start := by
  obtain ⟨-, -, hle, -⟩ := h
  rcases List.mem_cons.1 hd with rfl | hd
  · exact Nat.le_refl _
  · exact Span.start_le_of_le (hle d hd)

/-- The walk for a position finds a claim iff some claim contains the position. -/
theorem anyContains_iff {claims : List Claim} (h : Ordered claims) {p : Nat} :
    anyContains p claims = true ↔ ∃ d ∈ claims, d.span.contains p = true := by
  induction claims with
  | nil => simp [anyContains]
  | cons c rest ih =>
    have ih := ih h.2.2.2
    rw [anyContains]
    split
    -- the claim starts after the position
    · next hstart =>
      rw [ih]
      simp only [List.mem_cons, exists_eq_or_imp, Span.contains_iff]
      exact ⟨.inr, fun hor => hor.resolve_left fun hc => by omega⟩
    · split
      -- no claim reaches the position
      · next hreach =>
        simp only [Bool.false_eq_true, false_iff, not_exists, not_and]
        intro d hd hp
        have := stop_le_reachOf h hd
        rw [Span.contains_iff] at hp
        rw [reachOf] at this
        omega
      · next hstart _ =>
        simp only [Bool.or_eq_true, decide_eq_true_eq, List.mem_cons, exists_eq_or_imp, ih,
          Span.contains_iff]
        exact or_congr_left ⟨fun hp => ⟨by omega, hp⟩, And.right⟩

/-- The walk for an interval finds a claim iff some claim covers the interval. -/
theorem anyCovers_iff {claims : List Claim} (h : Ordered claims) {start stop : Nat} :
    anyCovers start stop claims = true ↔
      ∃ d ∈ claims, d.span.start ≤ start ∧ stop ≤ d.span.stop := by
  induction claims with
  | nil => simp [anyCovers]
  | cons c rest ih =>
    have ih := ih h.2.2.2
    rw [anyCovers]
    split
    -- the claim starts inside the interval
    · next hstart =>
      rw [ih]
      simp only [List.mem_cons, exists_eq_or_imp]
      exact ⟨.inr, fun hor => hor.resolve_left fun hc => by omega⟩
    · split
      -- no claim reaches the end of the interval
      · next hreach =>
        simp only [Bool.false_eq_true, false_iff, not_exists, not_and]
        intro d hd _ hstop
        have := stop_le_reachOf h hd
        rw [reachOf] at this
        omega
      · next hstart _ =>
        simp only [Bool.or_eq_true, decide_eq_true_eq, List.mem_cons, exists_eq_or_imp, ih]
        exact or_congr_left ⟨fun hstop => ⟨by omega, hstop⟩, And.right⟩

/-- The walk for an interval finds an overlap iff some claim overlaps the interval. -/
theorem anyOverlaps_iff {claims : List Claim} (h : Ordered claims) {start stop : Nat} :
    anyOverlaps start stop claims = true ↔ ∃ d ∈ claims, d.span.overlaps start stop = true := by
  induction claims with
  | nil => simp [anyOverlaps]
  | cons c rest ih =>
    rw [anyOverlaps]
    split
    -- the claim starts after the interval
    · next hstop =>
      rw [ih h.2.2.2]
      simp only [List.mem_cons, exists_eq_or_imp, Span.overlaps_iff]
      exact ⟨.inr, fun hor => hor.resolve_left fun hc => by omega⟩
    -- the claim and all that come before it start early enough
    · next hstop =>
      simp only [decide_eq_true_eq, Span.overlaps_iff]
      constructor
      · intro hreach
        obtain ⟨d, hd, heq⟩ := exists_stop_eq_reach h
        exact ⟨d, hd, by have := start_le_of_mem h hd; omega, by omega⟩
      · rintro ⟨d, hd, -, hd'⟩
        have := stop_le_reachOf h hd
        rw [reachOf] at this
        omega

/-- The walk for the least start answers the first start, in the order of the text, that lies strictly
between `after` and `before`. -/
theorem leastStart_eq {claims : List Claim} (h : Ordered claims) {after before : Nat}
    {best : Option Nat} :
    leastStart after before best claims =
      ((claims.reverse.map (·.span.start)).find? fun s => after < s && s < before).or best := by
  induction claims generalizing best with
  | nil => simp [leastStart]
  | cons c rest ih =>
    have ih := @ih h.2.2.2
    rw [leastStart, List.reverse_cons, List.map_append, List.find?_append, Option.or_assoc]
    split
    · next hbefore =>
      have : ¬ c.span.start < before := by omega
      simp [ih, this]
    · split
      · next hbefore hafter =>
        have : c.span.start < before := by omega
        simp [ih, this, hafter]
      -- the claims before this one start even earlier
      · next hafter =>
        have hnone : (rest.reverse.map (·.span.start)).find?
            (fun s => decide (after < s) && decide (s < before)) = none := by
          rw [List.find?_eq_none]
          intro s hs
          obtain ⟨d, hd, rfl⟩ := List.mem_map.1 hs
          have := start_le_of_mem h (List.mem_cons_of_mem c (List.mem_reverse.1 hd))
          simp only [Bool.and_eq_true, decide_eq_true_eq]
          omega
        rw [hnone]
        simp [hafter]

/-- Inserting a span adds it to the spans. -/
theorem map_span_insert_perm (s : Span) (claims : List Claim) :
    ((insert s claims).map span).Perm (s :: claims.map span) := by
  induction claims with
  | nil => simp [insert]
  | cons c rest ih =>
    rw [insert]
    split
    · simp only [List.map_cons]
      exact (List.Perm.cons _ ih).trans (List.Perm.swap _ _ _)
    · simp

/-- The spans are in descending order. -/
theorem Ordered.pairwise {claims : List Claim} (h : Ordered claims) :
    (claims.map span).Pairwise fun a b => b ≤ a := by
  induction claims with
  | nil => simp
  | cons c rest ih =>
    obtain ⟨-, -, hle, hrest⟩ := h
    simp only [List.map_cons, List.pairwise_cons, List.mem_map, forall_exists_index, and_imp,
      forall_apply_eq_imp_iff₂]
    exact ⟨hle, ih hrest⟩

/-- No claim is empty. -/
theorem Ordered.start_lt_stop {claims : List Claim} (h : Ordered claims) {d : Claim}
    (hd : d ∈ claims) : d.span.start < d.span.stop := by
  induction claims with
  | nil => simp at hd
  | cons c rest ih =>
    obtain ⟨hc, -, -, hrest⟩ := h
    rcases List.mem_cons.1 hd with rfl | hd
    · exact hc
    · exact ih hrest hd

/-- Claims in order are determined by their spans. -/
theorem Ordered.ext {claims others : List Claim} (h : Ordered claims) (h' : Ordered others)
    (heq : claims.map span = others.map span) : claims = others := by
  induction claims generalizing others with
  | nil => simpa using heq.symm
  | cons c rest ih =>
    cases others with
    | nil => simp at heq
    | cons d others =>
      simp only [List.map_cons, List.cons.injEq] at heq
      obtain ⟨-, hreach, -, hrest⟩ := h
      obtain ⟨-, hreach', -, hrest'⟩ := h'
      have htail := ih hrest hrest' heq.2
      subst htail
      rw [heq.1, ← hreach'] at hreach
      cases c
      cases d
      simp_all

end Claim

namespace ClaimSet

variable {set : ClaimSet}

/-- A span is claimed iff one of the claims holds it. -/
theorem mem_toList {s : Span} : s ∈ set.toList ↔ ∃ c ∈ set.claims, c.span = s := by
  simp [toList]

/-- Nothing is claimed at first. -/
@[simp]
theorem toList_empty : (empty : ClaimSet).toList = [] := rfl

/-- The number of claims is the number of claimed spans. -/
theorem length_toList : set.toList.length = set.size := by
  simp [toList, size]

/-- A set without claims claims no span. -/
theorem isEmpty_iff : set.isEmpty = true ↔ set.toList = [] := by
  simp [isEmpty, toList]

/-- A position is claimed iff some claimed span contains it. -/
theorem contains_iff {p : Nat} : set.contains p = true ↔ ∃ s ∈ set.toList, s.contains p = true := by
  simp only [contains, Claim.anyContains_iff set.ordered, mem_toList]
  exact ⟨fun ⟨d, hd, hp⟩ => ⟨_, ⟨d, hd, rfl⟩, hp⟩, fun ⟨_, ⟨d, hd, rfl⟩, hp⟩ => ⟨d, hd, hp⟩⟩

/-- An interval is covered iff a single claimed span covers it. -/
theorem covers_iff {start stop : Nat} :
    set.covers start stop = true ↔ ∃ s ∈ set.toList, s.start ≤ start ∧ stop ≤ s.stop := by
  simp only [covers, Claim.anyCovers_iff set.ordered, mem_toList]
  exact ⟨fun ⟨d, hd, hp⟩ => ⟨_, ⟨d, hd, rfl⟩, hp⟩, fun ⟨_, ⟨d, hd, rfl⟩, hp⟩ => ⟨d, hd, hp⟩⟩

/-- A non-empty interval is overlapped iff some claimed span overlaps it. -/
theorem overlaps_iff {start stop : Nat} (h : start < stop) :
    set.overlaps start stop = true ↔ ∃ s ∈ set.toList, s.overlaps start stop = true := by
  rw [overlaps, if_neg (by omega), Claim.anyOverlaps_iff set.ordered]
  simp only [mem_toList]
  exact ⟨fun ⟨d, hd, hp⟩ => ⟨_, ⟨d, hd, rfl⟩, hp⟩, fun ⟨_, ⟨d, hd, rfl⟩, hp⟩ => ⟨d, hd, hp⟩⟩

/-- An empty interval is overlapped iff its start is claimed. -/
theorem overlaps_of_le {start stop : Nat} (h : stop ≤ start) :
    set.overlaps start stop = set.contains start := by
  rw [overlaps, if_pos h]

/-- The least start within an interval is the first one among the claimed spans. -/
theorem firstStartWithin_eq_find? {after before : Nat} :
    set.firstStartWithin after before =
      (set.toList.map Span.start).find? fun s => after < s && s < before := by
  rw [firstStartWithin, Claim.leastStart_eq set.ordered]
  simp [toList, Function.comp_def]

/-- The claimed spans are in order. -/
theorem pairwise_toList : set.toList.Pairwise fun a b => a ≤ b := by
  rw [toList, List.map_reverse, List.pairwise_reverse]
  exact set.ordered.pairwise

/-- Claiming a span that is not empty adds it to the claimed spans. -/
theorem toList_claim_perm {s : Span} (h : s.start < s.stop) :
    (set.claim s).toList.Perm (s :: set.toList) := by
  rw [claim, dif_pos h]
  simp only [toList, List.map_reverse]
  exact (List.reverse_perm _).trans
    ((Claim.map_span_insert_perm s set.claims).trans (List.Perm.cons s (List.reverse_perm _).symm))

/-- Claiming an empty span changes nothing. -/
theorem claim_of_isEmpty {s : Span} (h : s.isEmpty = true) : set.claim s = set := by
  rw [Span.isEmpty_iff] at h
  rw [claim, dif_neg (by omega)]

/-- No claimed span is empty. -/
theorem start_lt_stop_of_mem {s : Span} (h : s ∈ set.toList) : s.start < s.stop := by
  obtain ⟨c, hc, rfl⟩ := mem_toList.1 h
  exact set.ordered.start_lt_stop hc

/-- Claims are determined by the claimed spans. -/
theorem ext_toList {other : ClaimSet} (h : set.toList = other.toList) : set = other := by
  have hclaims : set.claims = other.claims := by
    refine set.ordered.ext other.ordered ?_
    simpa [toList, List.map_reverse] using h
  cases set
  cases other
  simp_all

end ClaimSet

end CommentTags
