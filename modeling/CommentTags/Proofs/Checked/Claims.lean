import CommentTags.Proofs.Claims
import CommentTags.Search
import Mathlib.Data.List.Induction
import Mathlib.Data.List.Pairwise
import Mathlib.Order.Bounds.Defs

/-!
# Claims by index

Claims may also be kept by index, in the order of their starts, beside the furthest end of the claims up to
each place. A query then bisects to the last claim that starts early enough and walks back from there; a new
claim is put in its place, and the furthest ends are worked out anew from there on. All numbers are machine
words, and sums stop at the greatest of them. An index that lies outside the claims answers `none`.

This module shows that no index ever does, and that the answers are those of a plain list of the spans claimed
since the claims were last forgotten, as are the answers of a `ClaimSet`.

## Main definitions

* `IndexedClaims`: claims by index;
* `StartSearch`: a search that finds a place for a start among starts in order;
* `ClaimChange` and `ClaimChange.standing`: what may happen to claims, and the spans that are claimed afterwards;
* `ListAnswers`: the answers of a plain list.

## Main results

* `IndexedClaims.WellFormed.walk_eq`: walking back finds a claim that satisfies a query iff there is one;
* `IndexedClaims.WellFormed.claim`: a claim leaves the claims in order and the furthest ends right;
* `ClaimSet.answers_as_list`: after any changes, every query is answered as by a plain list.
-/

namespace CommentTags

/-- Spans in the order of their starts. -/
def SortedByStart (spans : List Span) : Prop :=
  spans.Pairwise fun s t => s.start ≤ t.start

/-- A span between those that start no later and those that start no earlier is in order. -/
theorem SortedByStart.insert {front back : List Span} {s : Span} (h : SortedByStart (front ++ back))
    (hfront : ∀ t ∈ front, t.start ≤ s.start) (hback : ∀ t ∈ back, s.start ≤ t.start) :
    SortedByStart (front ++ s :: back) := by
  rw [SortedByStart, List.pairwise_append] at h ⊢
  refine ⟨h.1, List.pairwise_cons.2 ⟨hback, h.2.1⟩, fun t ht u hu => ?_⟩
  rcases List.mem_cons.1 hu with rfl | hu
  · exact hfront t ht
  · exact h.2.2 t ht u hu

/-- A search among spans in the order of their starts. Where several spans start alike it may answer any place
that keeps them in order. -/
structure StartSearch where
  /-- A place for a span with the given start. -/
  place : List Span → Nat → Nat
  /-- The place is one of the spans, or after the last of them. -/
  place_le : ∀ spans start, SortedByStart spans → place spans start ≤ spans.length
  /-- The spans before the place start no later. -/
  start_le : ∀ spans start, SortedByStart spans → ∀ s ∈ spans.take (place spans start), s.start ≤ start
  /-- The spans from the place on start no earlier. -/
  le_start : ∀ spans start, SortedByStart spans → ∀ s ∈ spans.drop (place spans start), start ≤ s.start

/-- Claims by index. -/
structure IndexedClaims where
  /-- The claimed spans, in the order of their starts. -/
  spans : List Span
  /-- The furthest end of the spans up to each place. -/
  reach : List Nat
deriving DecidableEq, Repr

namespace IndexedClaims

/-- No claims. -/
def empty : IndexedClaims := ⟨[], []⟩

/-- The machine word after `p`, or the greatest one. -/
def nextWord (p : UInt64) : Nat :=
  min (p.toNat + 1) (UInt64.size - 1)

/-- The number of spans that start before `bound`. -/
def upper (a : IndexedClaims) (bound : Nat) : Nat :=
  partitionPoint (fun i => a.spans[i]?.any (bound ≤ ·.start)) 0 a.spans.length

/-- Walks back over the first spans, up to one that satisfies `hit`. The walk gives up where the reach is
`short`. -/
def walk (a : IndexedClaims) (short : Nat → Bool) (hit : Span → Bool) : Nat → Option Bool
  | 0 => some false
  | i + 1 => do
    if short (← a.reach[i]?) then
      return false
    else if hit (← a.spans[i]?) then
      return true
    else
      walk a short hit i

/-- Some claim contains `p`. -/
def contains (a : IndexedClaims) (p : UInt64) : Option Bool :=
  a.walk (· ≤ p.toNat) (·.contains p.toNat) (a.upper (nextWord p))

/-- A single claim covers all of `start ≤ p < stop`. -/
def covers (a : IndexedClaims) (start stop : UInt64) : Option Bool :=
  a.walk (· < stop.toNat) (fun s => s.start ≤ start.toNat && stop.toNat ≤ s.stop) (a.upper (nextWord start))

/-- Some claim overlaps `start ≤ p < stop`; an empty interval stands for the position `start`. -/
def overlaps (a : IndexedClaims) (start stop : UInt64) : Option Bool :=
  if stop ≤ start then
    a.contains start
  else
    match a.upper stop.toNat with
    | 0 => some false
    | i + 1 => a.reach[i]?.map (start.toNat < ·)

/-- The least start of a claim strictly between `after` and `before`. -/
def firstStartWithin (a : IndexedClaims) (after before : UInt64) : Option Nat :=
  (a.spans[a.upper (after.toNat + 1)]?.map Span.start).filter (· < before.toNat)

/-- `xs` with `x` put in place `i`. -/
def insertAt? {α : Type} (xs : List α) (i : Nat) (x : α) : Option (List α) :=
  if i ≤ xs.length then some (xs.take i ++ x :: xs.drop i) else none

/-- Writes down the furthest ends of `spans` from place `i` on; what is before them reaches up to `furthest`. -/
def repair : List Span → Nat → Nat → List Nat → Option (List Nat)
  | [], _, _, reach => some reach
  | s :: rest, i, furthest, reach =>
    if i < reach.length then
      repair rest (i + 1) (max furthest s.stop) (reach.set i (max furthest s.stop))
    else
      none

/-- The furthest end before place `i`. -/
def reachBefore (reach : List Nat) : Nat → Option Nat
  | 0 => some 0
  | i + 1 => reach[i]?

/-- Works out the furthest ends of `spans` anew from place `i` on. -/
def repairFrom (spans : List Span) (i : Nat) (reach : List Nat) : Option (List Nat) :=
  let reach := if reach.length = spans.length then reach else (reach.take spans.length).rightpad spans.length 0
  (reachBefore reach i).bind fun furthest => repair (spans.drop i) i furthest reach

/-- Claims `start ≤ p < stop`, unless it is empty. -/
def claim (search : StartSearch) (a : IndexedClaims) (start stop : UInt64) : Option IndexedClaims :=
  if stop ≤ start then
    some a
  else do
    let i := search.place a.spans start.toNat
    let spans ← insertAt? a.spans i ⟨start.toNat, stop.toNat⟩
    let reach ← insertAt? a.reach i 0
    return ⟨spans, ← repairFrom spans i reach⟩

/-! ## How far claims reach -/

/-- The furthest end of `spans`, or `m` if none ends beyond. -/
def furthest (m : Nat) (spans : List Span) : Nat :=
  spans.foldl (fun m s => max m s.stop) m

/-- The furthest ends up to each of `spans` where what is before them reaches up to `m`. -/
def reaches (m : Nat) : List Span → List Nat
  | [] => []
  | s :: rest => max m s.stop :: reaches (max m s.stop) rest

@[simp]
theorem length_reaches (m : Nat) (spans : List Span) : (reaches m spans).length = spans.length := by
  induction spans generalizing m with
  | nil => rfl
  | cons s rest ih => simp [reaches, ih]

theorem reaches_append (m : Nat) (first second : List Span) :
    reaches m (first ++ second) = reaches m first ++ reaches (furthest m first) second := by
  induction first generalizing m with
  | nil => rfl
  | cons s rest ih => simp [reaches, furthest, ih]

/-- The reach at a place is the furthest end up to there. -/
theorem getElem?_reaches (m : Nat) (spans : List Span) (i : Nat) :
    (reaches m spans)[i]? = spans[i]?.map fun _ => furthest m (spans.take (i + 1)) := by
  induction spans generalizing m i with
  | nil => simp [reaches]
  | cons s rest ih =>
    cases i with
    | zero => simp [reaches, furthest]
    | succ i => simp [reaches, furthest, ih]

/-- Spans reach beyond `n` iff one of them ends beyond, or what is before them does. -/
theorem lt_furthest_iff {m n : Nat} {spans : List Span} :
    n < furthest m spans ↔ n < m ∨ ∃ s ∈ spans, n < s.stop := by
  induction spans generalizing m with
  | nil => simp [furthest]
  | cons s rest ih =>
    rw [furthest, List.foldl_cons, ← furthest, ih]
    simp only [List.mem_cons, exists_eq_or_imp, ← or_assoc]
    exact or_congr_left (by omega)

/-- Repairing keeps what is before the place and writes the furthest ends from there on. -/
theorem repair_eq (m : Nat) (spans : List Span) (done old : List Nat) (h : old.length = spans.length) :
    repair spans done.length m (done ++ old) = some (done ++ reaches m spans) := by
  -- what is done grows by one place at each step, and what is old shrinks by it
  induction spans generalizing m done old with
  | nil =>
    rw [List.length_nil, List.length_eq_zero_iff] at h
    simp [repair, reaches, h]
  | cons s rest ih =>
    obtain ⟨x, old, rfl⟩ := List.exists_cons_of_length_eq_add_one h
    have hset : (done ++ x :: old).set done.length (max m s.stop) = done ++ [max m s.stop] ++ old := by
      simp
    have hrest := ih (max m s.stop) (done ++ [max m s.stop]) old (by simpa using h)
    rw [repair, if_pos (by simp), hset, reaches]
    simpa using hrest

/-- What is between two parts of a list is put there. -/
theorem insertAt?_length {α : Type} (front back : List α) (x : α) :
    insertAt? (front ++ back) front.length x = some (front ++ x :: back) := by
  simp [insertAt?]

/-- From the place of a new span on the furthest ends are written anew, whatever stood there. -/
theorem repairFrom_eq (front back : List Span) (s : Span) {old : List Nat}
    (h : old.length = back.length + 1) :
    repairFrom (front ++ s :: back) front.length (reaches 0 front ++ old) =
      some (reaches 0 (front ++ s :: back)) := by
  have hlength : (reaches 0 front ++ old).length = (front ++ s :: back).length := by simp [h]
  have hbefore : reachBefore (reaches 0 front ++ old) front.length = some (furthest 0 front) := by
    cases front with
    | nil => rfl
    | cons t front =>
      rw [List.length_cons, reachBefore, List.getElem?_append_left (by simp), getElem?_reaches]
      simp
  have hrepair := repair_eq (furthest 0 front) (s :: back) (reaches 0 front) old (by simpa using h)
  rw [length_reaches] at hrepair
  simp only [repairFrom, if_pos hlength, hbefore, List.drop_left, Option.bind_some]
  rw [hrepair, ← reaches_append]

/-! ## Nothing goes wrong -/

/-- The spans are in order, not empty and made of machine words, and the reach is right. -/
structure WellFormed (a : IndexedClaims) : Prop where
  sorted : SortedByStart a.spans
  words : ∀ s ∈ a.spans, s.start < s.stop ∧ s.stop < UInt64.size
  reach : a.reach = reaches 0 a.spans

variable {a : IndexedClaims}

theorem wellFormed_empty : empty.WellFormed where
  sorted := List.Pairwise.nil
  words := by simp [empty]
  reach := rfl

theorem upper_le (a : IndexedClaims) (bound : Nat) : a.upper bound ≤ a.spans.length :=
  partitionPoint_le (Nat.zero_le _)

/-- A span stands among the first ones iff it starts before the bound. -/
theorem lt_upper_iff (h : SortedByStart a.spans) (bound : Nat) {i : Nat} {s : Span}
    (hs : a.spans[i]? = some s) :
    i < a.upper bound ↔ s.start < bound := by
  have hi := (List.getElem?_eq_some_iff.1 hs).1
  have hsorted := List.pairwise_iff_getElem.1 h
  rw [← Nat.not_le, ← Nat.not_le, upper, partitionPoint_le_iff ?_ (Nat.zero_le i) hi, hs, Option.any_some,
    decide_eq_true_eq]
  -- once a span starts at the bound or beyond, so do the following ones
  · intro j k hjk hk hj
    rcases Nat.eq_or_lt_of_le hjk with rfl | hlt
    · exact hj
    · have hstart := hsorted j k (by omega) hk hlt
      simp only [List.getElem?_eq_getElem hk, List.getElem?_eq_getElem (Nat.lt_trans hlt hk), Option.any_some,
        decide_eq_true_eq] at hj ⊢
      omega

/-- The first spans start before the bound. -/
theorem start_lt_of_mem_take (h : SortedByStart a.spans) {bound : Nat} {s : Span}
    (hs : s ∈ a.spans.take (a.upper bound)) : s.start < bound := by
  obtain ⟨i, hi⟩ := List.mem_iff_getElem?.1 hs
  rw [List.getElem?_take] at hi
  split at hi
  · next hlt => exact (lt_upper_iff h bound hi).1 hlt
  · cases hi

/-- The following spans start at the bound or beyond. -/
theorem le_start_of_mem_drop (h : SortedByStart a.spans) {bound : Nat} {s : Span}
    (hs : s ∈ a.spans.drop (a.upper bound)) : bound ≤ s.start := by
  obtain ⟨i, hi⟩ := List.mem_iff_getElem?.1 hs
  rw [List.getElem?_drop] at hi
  rw [← Nat.not_lt, ← lt_upper_iff h bound hi]
  omega

namespace WellFormed

/-- Only the first spans need to be asked, if those that start at the bound or beyond do not count. -/
theorem any_take_upper (h : a.WellFormed) (bound : Nat) {hit : Span → Bool}
    (hbound : ∀ s ∈ a.spans, bound ≤ s.start → hit s = false) :
    (a.spans.take (a.upper bound)).any hit = a.spans.any hit := by
  have hdrop : (a.spans.drop (a.upper bound)).any hit = false := by
    rw [List.any_eq_false]
    intro s hs
    rw [hbound s (List.mem_of_mem_drop hs) (le_start_of_mem_drop h.sorted hs)]
    exact Bool.false_ne_true
  calc (a.spans.take (a.upper bound)).any hit
      = (a.spans.take (a.upper bound) ++ a.spans.drop (a.upper bound)).any hit := by
        rw [List.any_append, hdrop, Bool.or_false]
    _ = a.spans.any hit := by rw [List.take_append_drop]

/-- Walking back finds a span that satisfies the query iff there is one: where the walk gives up, no span ends
far enough. -/
theorem walk_eq (h : a.WellFormed) {short : Nat → Bool} {hit : Span → Bool}
    (hshort : ∀ r s, short r = true → s.stop ≤ r → hit s = false) {n : Nat} (hn : n ≤ a.spans.length) :
    a.walk short hit n = some ((a.spans.take n).any hit) := by
  induction n with
  | zero => simp [walk]
  | succ i ih =>
    have hspan : a.spans[i]? = some a.spans[i] := List.getElem?_eq_getElem hn
    have hreach : a.reach[i]? = some (furthest 0 (a.spans.take (i + 1))) := by
      rw [h.reach, getElem?_reaches, hspan, Option.map_some]
    simp only [walk, hreach, hspan, Option.bind_eq_bind, Option.bind_some]
    split
    -- no span up to here ends beyond the reach
    · next hgives =>
      symm
      simp only [Option.pure_def, Option.some.injEq, List.any_eq_false]
      intro s hs
      rw [hshort _ s hgives, Bool.false_eq_true]
      · exact not_false
      · refine Nat.not_lt.1 fun hlt => ?_
        exact Nat.lt_irrefl _ (lt_furthest_iff.2 (.inr ⟨s, hs, hlt⟩))
    · rw [ih (by omega), List.take_add_one, hspan, List.any_append]
      split
      · next hhit => simp [hhit]
      · next hhit => simp [hhit]

theorem start_lt_word (h : a.WellFormed) {s : Span} (hs : s ∈ a.spans) : s.start < UInt64.size - 1 := by
  have := h.words s hs
  omega

/-- Beyond the next machine word there is no start that is at most `p`, even where there is no next word. -/
theorem lt_start_of_nextWord_le (h : a.WellFormed) {p : UInt64} {s : Span} (hs : s ∈ a.spans)
    (hle : nextWord p ≤ s.start) : p.toNat < s.start := by
  have := h.start_lt_word hs
  rw [nextWord] at hle
  omega

/-- The spans are asked whether they contain a position. -/
theorem contains_eq (h : a.WellFormed) (p : UInt64) :
    a.contains p = some (a.spans.any (·.contains p.toNat)) := by
  rw [contains, h.walk_eq ?_ (upper_le a _), h.any_take_upper]
  · intro s hs hle
    have := h.lt_start_of_nextWord_le hs hle
    rw [← Bool.not_eq_true, Span.contains_iff]
    omega
  · intro r s hr hstop
    rw [decide_eq_true_eq] at hr
    rw [← Bool.not_eq_true, Span.contains_iff]
    omega

/-- The spans are asked whether they cover an interval. -/
theorem covers_eq (h : a.WellFormed) (start stop : UInt64) :
    a.covers start stop = some (a.spans.any fun s => s.start ≤ start.toNat && stop.toNat ≤ s.stop) := by
  rw [covers, h.walk_eq ?_ (upper_le a _), h.any_take_upper]
  · intro s hs hle
    have := h.lt_start_of_nextWord_le hs hle
    simp only [Bool.and_eq_false_iff, decide_eq_false_iff_not]
    omega
  · intro r s hr hstop
    rw [decide_eq_true_eq] at hr
    simp only [Bool.and_eq_false_iff, decide_eq_false_iff_not]
    omega

/-- The spans are asked whether they overlap an interval; the reach of the first ones decides that at once. -/
theorem overlaps_eq (h : a.WellFormed) (start stop : UInt64) :
    a.overlaps start stop = some (if stop.toNat ≤ start.toNat then a.spans.any (·.contains start.toNat)
      else a.spans.any (·.overlaps start.toNat stop.toNat)) := by
  rw [overlaps]
  by_cases hle : stop ≤ start
  · rw [if_pos hle, if_pos (UInt64.le_iff_toNat_le.1 hle), h.contains_eq]
  · rw [if_neg hle, if_neg (mt UInt64.le_iff_toNat_le.2 hle)]
    have hbeyond : ∀ s ∈ a.spans, stop.toNat ≤ s.start → s.overlaps start.toNat stop.toNat = false := by
      intro s _ hbeyond
      rw [← Bool.not_eq_true, Span.overlaps_iff]
      omega
    have hany := h.any_take_upper stop.toNat hbeyond
    rw [← hany]
    cases hupper : a.upper stop.toNat with
    | zero => simp
    | succ i =>
      dsimp only
      have hi : i < a.spans.length := by
        have := upper_le a stop.toNat
        omega
      rw [h.reach, getElem?_reaches, List.getElem?_eq_getElem hi, Option.map_some, Option.map_some,
        Option.some.injEq, Bool.eq_iff_iff, decide_eq_true_eq, lt_furthest_iff, List.any_eq_true]
      constructor
      · rintro (hlt | ⟨s, hs, hlt⟩)
        · exact absurd hlt (Nat.not_lt_zero _)
        -- the first spans start before the end of the interval
        · have hstart := start_lt_of_mem_take h.sorted (hupper ▸ hs)
          exact ⟨s, hs, Span.overlaps_iff.2 ⟨hstart, hlt⟩⟩
      · rintro ⟨s, hs, hoverlaps⟩
        exact .inr ⟨s, hs, (Span.overlaps_iff.1 hoverlaps).2⟩

/-- Of the starts in order the first one within the interval is answered. -/
theorem firstStartWithin_eq (h : a.WellFormed) (after before : UInt64) :
    a.firstStartWithin after before =
      (a.spans.map Span.start).find? fun c => after.toNat < c && c < before.toNat := by
  -- the first spans start too early
  have htake : ((a.spans.take (a.upper (after.toNat + 1))).map Span.start).find?
      (fun c => after.toNat < c && c < before.toNat) = none := by
    rw [List.find?_eq_none]
    intro c hc
    obtain ⟨s, hs, rfl⟩ := List.mem_map.1 hc
    have hstart := start_lt_of_mem_take h.sorted hs
    simp only [Bool.and_eq_true, decide_eq_true_eq]
    omega
  have hsorted : SortedByStart (a.spans.drop (a.upper (after.toNat + 1))) :=
    h.sorted.sublist (List.drop_sublist _ _)
  have hsplit := congrArg (List.map Span.start) (List.take_append_drop (a.upper (after.toNat + 1)) a.spans)
  rw [List.map_append] at hsplit
  rw [← hsplit, List.find?_append, htake, Option.none_or, firstStartWithin, ← List.head?_drop]
  cases hdrop : a.spans.drop (a.upper (after.toNat + 1)) with
  | nil => rfl
  | cons s rest =>
    have hafter : after.toNat < s.start :=
      le_start_of_mem_drop h.sorted (hdrop ▸ List.mem_cons_self)
    rw [hdrop, SortedByStart, List.pairwise_cons] at hsorted
    by_cases hbefore : s.start < before.toNat
    · simp [hafter, hbefore, Option.filter]
    -- the following spans do not start before it either
    · have hnone : ((s :: rest).map Span.start).find?
          (fun c => after.toNat < c && c < before.toNat) = none := by
        rw [List.find?_eq_none]
        intro c hc
        obtain ⟨t, ht, rfl⟩ := List.mem_map.1 hc
        have hle : s.start ≤ t.start := by
          rcases List.mem_cons.1 ht with rfl | ht
          · exact Nat.le_refl _
          · exact hsorted.1 t ht
        simp only [Bool.and_eq_true, decide_eq_true_eq]
        omega
      rw [hnone]
      simp [hbefore, Option.filter]

/-- Claiming leaves the claims in order and the furthest ends right, and adds the span unless it is empty. -/
theorem claim (h : a.WellFormed) (search : StartSearch) (start stop : UInt64) :
    ∃ b, a.claim search start stop = some b ∧ b.WellFormed ∧
      b.spans.Perm ([⟨start.toNat, stop.toNat⟩].filter (!Span.isEmpty ·) ++ a.spans) := by
  rw [IndexedClaims.claim]
  by_cases hle : stop ≤ start
  · have hempty : (⟨start.toNat, stop.toNat⟩ : Span).isEmpty = true :=
      Span.isEmpty_iff.2 (UInt64.le_iff_toNat_le.1 hle)
    refine ⟨a, if_pos hle, h, ?_⟩
    simp [hempty]
  · have hlt : start.toNat < stop.toNat := Nat.not_le.1 (mt UInt64.le_iff_toNat_le.2 hle)
    have hempty : (⟨start.toNat, stop.toNat⟩ : Span).isEmpty = false := by
      rw [← Bool.not_eq_true, Span.isEmpty_iff]
      exact Nat.not_le.2 hlt
    -- the claims before the place and those from the place on
    obtain ⟨front, back, hspans, hplace, hfront, hback⟩ :
        ∃ front back, a.spans = front ++ back ∧ search.place a.spans start.toNat = front.length ∧
          (∀ s ∈ front, s.start ≤ start.toNat) ∧ ∀ s ∈ back, start.toNat ≤ s.start :=
      ⟨a.spans.take _, a.spans.drop _, (List.take_append_drop _ _).symm,
        (List.length_take_of_le (search.place_le _ _ h.sorted)).symm,
        search.start_le _ _ h.sorted, search.le_start _ _ h.sorted⟩
    have hreach : a.reach = reaches 0 front ++ reaches (furthest 0 front) back := by
      rw [h.reach, hspans, reaches_append]
    have hinsert := insertAt?_length (reaches 0 front) (reaches (furthest 0 front) back) 0
    rw [length_reaches] at hinsert
    refine ⟨⟨front ++ ⟨start.toNat, stop.toNat⟩ :: back,
      reaches 0 (front ++ ⟨start.toNat, stop.toNat⟩ :: back)⟩, ?_, ⟨?_, ?_, rfl⟩, ?_⟩
    · rw [if_neg hle, hplace, hspans, hreach]
      simp only [insertAt?_length, hinsert, Option.bind_eq_bind, Option.bind_some]
      rw [repairFrom_eq _ _ _ (by simp)]
      rfl
    · have hsorted := h.sorted
      rw [hspans] at hsorted
      exact hsorted.insert hfront hback
    · intro s hs
      have hwords := h.words s
      rw [hspans] at hwords
      simp only [List.mem_append, List.mem_cons] at hs hwords
      rcases hs with hs | rfl | hs
      · exact hwords (.inl hs)
      · exact ⟨hlt, stop.toNat_lt⟩
      · exact hwords (.inr hs)
    · simp only [hempty, Bool.not_false, List.filter_cons_of_pos, List.filter_nil, hspans]
      exact List.perm_middle

end WellFormed

end IndexedClaims

/-- Looking for the first span that does not start earlier is such a search. -/
def StartSearch.bisect : StartSearch where
  place spans start := (IndexedClaims.mk spans []).upper start
  place_le spans _ _ := IndexedClaims.upper_le ⟨spans, []⟩ _
  start_le spans _ h _ hs := Nat.le_of_lt (@IndexedClaims.start_lt_of_mem_take ⟨spans, []⟩ h _ _ hs)
  le_start spans _ h _ hs := @IndexedClaims.le_start_of_mem_drop ⟨spans, []⟩ h _ _ hs

/-! ## Any changes -/

/-- What may happen to claims. -/
inductive ClaimChange where
  /-- A span is claimed. -/
  | claim (start stop : UInt64)
  /-- All claims are forgotten. -/
  | clear
deriving DecidableEq

namespace ClaimChange

/-- The span that is claimed, unless it is empty. -/
def spans : ClaimChange → List Span
  | claim start stop => [⟨start.toNat, stop.toNat⟩].filter (!Span.isEmpty ·)
  | clear => []

/-- The spans claimed since the claims were last forgotten. -/
def standing (changes : List ClaimChange) : List Span :=
  (changes.reverse.takeWhile (· ≠ clear)).flatMap spans

theorem standing_claim (changes : List ClaimChange) (start stop : UInt64) :
    standing (changes ++ [claim start stop]) = (claim start stop).spans ++ standing changes := by
  simp [standing]

theorem standing_clear (changes : List ClaimChange) : standing (changes ++ [clear]) = [] := by
  simp [standing]

end ClaimChange

/-- The claims after a change. -/
def ClaimSet.change (set : ClaimSet) : ClaimChange → ClaimSet
  | .claim start stop => set.claim ⟨start.toNat, stop.toNat⟩
  | .clear => .empty

/-- The claims by index after a change. -/
def IndexedClaims.change (search : StartSearch) (a : IndexedClaims) : ClaimChange → Option IndexedClaims
  | .claim start stop => a.claim search start stop
  | .clear => some .empty

/-- The claims after several changes. -/
def ClaimSet.after (changes : List ClaimChange) : ClaimSet :=
  changes.foldl change .empty

/-- The claims by index after several changes. -/
def IndexedClaims.after (search : StartSearch) (changes : List ClaimChange) : Option IndexedClaims :=
  changes.foldlM (change search) .empty

/-- The claims are those of the spans claimed since they were last forgotten. -/
theorem ClaimSet.toList_after_perm (changes : List ClaimChange) :
    (after changes).toList.Perm (ClaimChange.standing changes) := by
  induction changes using List.reverseRecOn with
  | nil => exact List.Perm.refl _
  | append_singleton changes c ih =>
    rw [after, List.foldl_append, List.foldl_cons, List.foldl_nil, ← after]
    cases c with
    | claim start stop =>
      rw [ClaimChange.standing_claim]
      exact (@toList_claimAll_perm _ [⟨start.toNat, stop.toNat⟩]).trans
        ((ih.append_right _).trans List.perm_append_comm)
    | clear =>
      rw [ClaimChange.standing_clear]
      exact List.Perm.refl _

/-- No index goes wrong in any changes, and the claims by index are those of the spans claimed since they were
last forgotten. -/
theorem IndexedClaims.exists_after (search : StartSearch) (changes : List ClaimChange) :
    ∃ a, after search changes = some a ∧ a.WellFormed ∧ a.spans.Perm (ClaimChange.standing changes) := by
  induction changes using List.reverseRecOn with
  | nil => exact ⟨.empty, rfl, wellFormed_empty, List.Perm.refl _⟩
  | append_singleton changes c ih =>
    obtain ⟨a, ha, hform, hperm⟩ := ih
    cases c with
    | claim start stop =>
      obtain ⟨b, hb, hform', hperm'⟩ := hform.claim search start stop
      refine ⟨b, ?_, hform', ?_⟩
      · rw [after, List.foldlM_append, ← after, ha]
        simp [change, hb]
      · rw [ClaimChange.standing_claim]
        exact hperm'.trans (hperm.append_left _)
    | clear =>
      refine ⟨.empty, ?_, wellFormed_empty, ?_⟩
      · rw [after, List.foldlM_append, ← after, ha]
        rfl
      · rw [ClaimChange.standing_clear]
        exact List.Perm.refl _

/-- The answers of a plain list of spans. -/
structure ListAnswers (spans : List Span) (contains : Nat → Bool) (covers overlaps : Nat → Nat → Bool)
    (firstStartWithin : Nat → Nat → Option Nat) : Prop where
  contains_iff : ∀ p, contains p = true ↔ ∃ s ∈ spans, s.start ≤ p ∧ p < s.stop
  covers_iff : ∀ start stop, covers start stop = true ↔ ∃ s ∈ spans, s.start ≤ start ∧ stop ≤ s.stop
  overlaps_iff : ∀ start stop, overlaps start stop = true ↔
    if start < stop then ∃ s ∈ spans, s.start < stop ∧ start < s.stop else contains start = true
  firstStartWithin_iff : ∀ after before c, firstStartWithin after before = some c ↔
    IsLeast {x | (∃ s ∈ spans, s.start = x) ∧ after < x ∧ x < before} c

namespace ClaimSet

variable {set : ClaimSet}

/-- The least start within an interval is least among the starts of the claims. -/
theorem firstStartWithin_eq_some_iff {after before c : Nat} :
    set.firstStartWithin after before = some c ↔
      IsLeast {x | (∃ s ∈ set.toList, s.start = x) ∧ after < x ∧ x < before} c := by
  have hleast {d : Nat} (h : set.firstStartWithin after before = some d) :
      IsLeast {x | (∃ s ∈ set.toList, s.start = x) ∧ after < x ∧ x < before} d := by
    obtain ⟨hafter, hbefore, hstart, hmin⟩ := firstStartWithin_eq_some h
    refine ⟨⟨hstart, hafter, hbefore⟩, ?_⟩
    rintro x ⟨⟨s, hs, rfl⟩, hx, -⟩
    exact hmin s hs hx
  refine ⟨hleast, fun h => ?_⟩
  cases hfirst : set.firstStartWithin after before with
  | none =>
    obtain ⟨⟨s, hs, rfl⟩, hwithin⟩ := h.1
    exact absurd ⟨s, hs, hwithin⟩ (firstStartWithin_eq_none_iff.1 hfirst)
  | some d =>
    have hd := hleast hfirst
    rw [Nat.le_antisymm (hd.2 h.1) (h.2 hd.1)]

/-- Claims answer as the plain list of the claimed spans does. -/
theorem listAnswers {spans : List Span} (h : set.toList.Perm spans) :
    ListAnswers spans set.contains set.covers set.overlaps set.firstStartWithin where
  contains_iff p := by simp [contains_iff, h.mem_iff]
  covers_iff start stop := by simp [covers_iff, h.mem_iff]
  overlaps_iff start stop := by
    split
    · next hlt => simp [overlaps_iff hlt, h.mem_iff]
    · next hle => rw [overlaps_of_le (Nat.not_lt.1 hle)]
  firstStartWithin_iff after before c := by simp [firstStartWithin_eq_some_iff, h.mem_iff]

/-- After any claims, and any times that the claims were forgotten, exactly the spans claimed since the last
time stand claimed, empty ones left out, in the order of their starts, and every query is answered as by a plain
list of them. Claims by index give the same answers to all queries in machine words, and no index ever lies
outside the claims, whichever of several places alike a new claim is put in. -/
theorem answers_as_list (search : StartSearch) (changes : List ClaimChange) :
    let set := after changes
    let spans := ClaimChange.standing changes
    set.toList.Perm spans ∧ SortedByStart set.toList ∧
      ListAnswers spans set.contains set.covers set.overlaps set.firstStartWithin ∧
      ∃ a, IndexedClaims.after search changes = some a ∧ a.spans.Perm spans ∧ SortedByStart a.spans ∧
        ∀ p q : UInt64, a.contains p = some (set.contains p.toNat) ∧
          a.covers p q = some (set.covers p.toNat q.toNat) ∧
          a.overlaps p q = some (set.overlaps p.toNat q.toNat) ∧
          a.firstStartWithin p q = set.firstStartWithin p.toNat q.toNat := by
  intro set spans
  have hset : set.toList.Perm spans := toList_after_perm changes
  have hsorted : SortedByStart set.toList := set.pairwise_toList.imp Span.start_le_of_le
  obtain ⟨a, ha, hform, hperm⟩ := IndexedClaims.exists_after search changes
  have hsame : a.spans.Perm set.toList := hperm.trans hset.symm
  -- the starts are the same in order, although spans that start alike may stand in another order
  have hstarts : a.spans.map Span.start = set.toList.map Span.start :=
    (hsame.map _).eq_of_pairwise (fun _ _ _ _ => Nat.le_antisymm)
      (List.pairwise_map.2 hform.sorted) (List.pairwise_map.2 hsorted)
  have hcontains (p : Nat) : a.spans.any (·.contains p) = set.contains p := by
    rw [Bool.eq_iff_iff, List.any_eq_true, contains_iff]
    simp only [hsame.mem_iff]
  refine ⟨hset, hsorted, listAnswers hset, a, ha, hperm, hform.sorted, fun p q => ⟨?_, ?_, ?_, ?_⟩⟩
  · rw [hform.contains_eq, hcontains]
  · rw [hform.covers_eq, Option.some.injEq, Bool.eq_iff_iff, List.any_eq_true, covers_iff]
    simp only [hsame.mem_iff, Bool.and_eq_true, decide_eq_true_eq]
  · rw [hform.overlaps_eq, Option.some.injEq]
    split
    · next hle => rw [hcontains, overlaps_of_le hle]
    · next hlt =>
      rw [Bool.eq_iff_iff, List.any_eq_true, overlaps_iff (Nat.not_le.1 hlt)]
      simp only [hsame.mem_iff]
  · rw [hform.firstStartWithin_eq, hstarts, firstStartWithin_eq_find?]

-- a long claim with shorter ones inside it, one that starts alike and an empty one; the last machine word counts
example :
    let a := IndexedClaims.after .bisect [.claim 3 4, .clear, .claim 50 60, .claim 0 100, .claim 7 7, .claim 50 51]
    a.map IndexedClaims.reach = some [100, 100, 100] ∧
      a.bind (·.covers 55 90) = some true ∧ a.bind (·.covers 90 101) = some false ∧
      a.bind (·.contains 18446744073709551615) = some false ∧
      a.bind (·.firstStartWithin 0 51) = some 50 := by
  decide +kernel

end ClaimSet

end CommentTags
