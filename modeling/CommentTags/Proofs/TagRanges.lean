import CommentTags.Proofs.Claims
import CommentTags.Scan.Ranges
import Mathlib.Data.List.Pairwise
import Mathlib.Data.List.Sort

/-!
# The ranges of each tag

A scan records its highlights in the order in which it finds them. This module says which spans its
outcome holds for each tag, and that highlights which do not overlap leave ranges that are in order.

## Main definitions

* `TagRanges.spansAt`: the spans that are recorded under a key.

## Main results

* `TagRanges.spansAt_append` and `TagRanges.spansAt_normalize`: the spans of two outcomes together, and of
  a normalized outcome;
* `TagRanges.mem_flat_collect` and `TagRanges.mem_keys_collect`: the ranges are the highlights that are not
  empty, under lower-case keys;
* `TagRanges.pairwise_flat_collect`: disjoint highlights give disjoint ranges;
* `TagRanges.sorted_of_mem_collect`: the ranges of each key are in strict order.
-/

namespace CommentTags

/-! ## Repetitions in a sorted list -/

section Repetitions

variable {α : Type} [BEq α]

private theorem eraseReps_loop (a : α) (l acc : List α) :
    List.eraseRepsBy.loop (· == ·) a l acc =
      acc.reverse ++ List.eraseRepsBy.loop (· == ·) a l [] := by
  induction l generalizing a acc with
  | nil => simp [List.eraseRepsBy.loop]
  | cons b l ih =>
    rw [List.eraseRepsBy.loop, List.eraseRepsBy.loop]
    split
    · exact ih a acc
    · rw [ih b (a :: acc), ih b [a], List.reverse_cons, List.append_assoc]
      rfl

variable [LawfulBEq α]

/-- Of two repetitions next to each other one is left. -/
theorem eraseReps_cons_cons (a b : α) (l : List α) :
    (a :: b :: l).eraseReps = if a == b then (b :: l).eraseReps else a :: (b :: l).eraseReps := by
  show List.eraseRepsBy.loop (· == ·) a (b :: l) [] = _
  rw [List.eraseRepsBy.loop]
  split
  · next heq =>
    rw [if_pos heq, eq_of_beq heq]
    rfl
  · next hne =>
    rw [if_neg (by simp [hne]), eraseReps_loop]
    rfl

/-- Without its repetitions a list has the same members. -/
theorem mem_eraseReps {a : α} {l : List α} : a ∈ l.eraseReps ↔ a ∈ l := by
  induction l with
  | nil => rfl
  | cons b l ih =>
    cases l with
    | nil => rfl
    | cons c l =>
      rw [eraseReps_cons_cons]
      split
      -- the first of two repetitions is left out, and the second is a member as well
      · next heq =>
        rw [ih, eq_of_beq heq]
        exact ⟨List.mem_cons_of_mem c, fun h => (List.mem_cons.1 h).elim (· ▸ List.mem_cons_self) id⟩
      · rw [List.mem_cons, ih]
        exact List.mem_cons.symm

/-- Without its repetitions a sorted list of spans has no span twice. -/
theorem Span.pairwise_eraseReps {spans : List Span} (h : spans.Pairwise (· ≤ ·)) :
    spans.eraseReps.Pairwise fun a b => a ≤ b ∧ a ≠ b := by
  induction spans with
  | nil => exact List.Pairwise.nil
  | cons a spans ih =>
    obtain ⟨hfirst, hrest⟩ := List.pairwise_cons.1 h
    cases spans with
    | nil => exact List.pairwise_singleton _ a
    | cons b spans =>
      rw [eraseReps_cons_cons]
      split
      · exact ih hrest
      · next hne =>
        refine List.Pairwise.cons (fun c hc => ?_) (ih hrest)
        rw [mem_eraseReps] at hc
        refine ⟨hfirst c hc, ?_⟩
        rintro rfl
        -- a repetition further on would have `b` between itself and the first one
        have hle : b ≤ a := by
          rcases List.mem_cons.1 hc with rfl | hc
          · exact Span.le_refl a
          · exact (List.pairwise_cons.1 hrest).1 a hc
        exact hne (beq_iff_eq.2 (Span.le_antisymm (hfirst b List.mem_cons_self) hle))

/-- Where nothing is repeated, nothing is left out. -/
theorem eraseReps_of_pairwise {l : List α} (h : l.Pairwise (· ≠ ·)) : l.eraseReps = l := by
  induction l with
  | nil => rfl
  | cons a l ih =>
    rw [List.pairwise_cons] at h
    cases l with
    | nil => rfl
    | cons b l =>
      have hne : (a == b) = false := beq_eq_false_iff_ne.2 (h.1 b List.mem_cons_self)
      rw [eraseReps_cons_cons, hne, if_neg Bool.false_ne_true, ih h.2]

end Repetitions

namespace TagRanges

/-- The spans that are recorded under a key. -/
def spansAt (ranges : TagRanges) (key : String) : List Span :=
  (ranges.groups.getD key #[]).toList

/-- The spans of several highlights that belong under a key: empty ones are left out. -/
def spansOf (highlights : List Highlight) (key : String) : List Span :=
  (highlights.filter fun h => Unicode.lowercase h.tag == key && !h.span.isEmpty).map Highlight.span

variable {ranges : TagRanges} {highlights : List Highlight}

/-- Each key is listed with the spans that are recorded under it. -/
theorem eq_spansAt_of_mem_toList {key : String} {spans : List Span} (h : (key, spans) ∈ ranges.toList) :
    spans = ranges.spansAt key := by
  obtain ⟨⟨key', array⟩, hmem, heq⟩ := List.mem_map.1 h
  cases heq
  rw [Std.TreeMap.mem_toList_iff_getElem?_eq_some] at hmem
  rw [spansAt, Std.TreeMap.getD_eq_getD_getElem?, hmem, Option.getD_some]

/-- The ranges hold a span with its key iff it is recorded under this key. -/
theorem mem_flat {h : Highlight} : h ∈ ranges.flat ↔ h.span ∈ ranges.spansAt h.tag := by
  rw [flat, List.mem_flatMap]
  constructor
  -- each span is listed under the key that it has
  · rintro ⟨⟨key, spans⟩, hmem, hspan⟩
    have hspans := eq_spansAt_of_mem_toList hmem
    obtain ⟨span, hs, rfl⟩ := List.mem_map.1 hspan
    show span ∈ ranges.spansAt key
    rw [← hspans]
    exact hs
  · intro hspan
    rw [spansAt, Std.TreeMap.getD_eq_getD_getElem?] at hspan
    cases hget : ranges.groups[h.tag]? with
    | none =>
      rw [hget] at hspan
      exact absurd hspan (by simp)
    | some array =>
      rw [hget, Option.getD_some] at hspan
      refine ⟨(h.tag, array.toList), ?_, List.mem_map.2 ⟨h.span, hspan, rfl⟩⟩
      exact List.mem_map.2 ⟨(h.tag, array), Std.TreeMap.mem_toList_iff_getElem?_eq_some.2 hget, rfl⟩

theorem spansAt_push {tag key : String} {span : Span} :
    (ranges.push tag span).spansAt key = ranges.spansAt key ++ spansOf [⟨tag, span⟩] key := by
  by_cases hempty : span.isEmpty = true
  · rw [push, if_pos hempty]
    simp [spansOf, hempty]
  · rw [push, if_neg hempty, spansAt, Std.TreeMap.getD_alter]
    by_cases hkey : Unicode.lowercase tag = key
    · subst hkey
      rw [if_pos Std.ReflCmp.compare_self, spansAt, Std.TreeMap.getD_eq_getD_getElem?]
      simp [spansOf, hempty]
    · rw [if_neg (fun heq => hkey (Std.LawfulEqCmp.eq_of_compare heq)), spansAt]
      simp [spansOf, hkey]

/-- Highlights are recorded in turn under the keys they belong to. -/
theorem spansAt_pushAll {key : String} :
    (ranges.pushAll highlights).spansAt key = ranges.spansAt key ++ spansOf highlights key := by
  induction highlights generalizing ranges with
  | nil => simp [pushAll, spansOf]
  | cons h highlights ih =>
    have hcons : spansOf (h :: highlights) key = spansOf [h] key ++ spansOf highlights key := by
      rw [spansOf, spansOf, spansOf, ← List.map_append, ← List.filter_append, List.singleton_append]
    show ((ranges.push h.tag h.span).pushAll highlights).spansAt key = _
    rw [ih, spansAt_push, hcons, List.append_assoc]

theorem spansAt_normalize {key : String} :
    ranges.normalize.spansAt key =
      ((ranges.spansAt key).mergeSort fun a b => decide (a ≤ b)).eraseReps := by
  rw [spansAt, spansAt, normalize, Std.TreeMap.getD_eq_getD_getElem?, Std.TreeMap.getD_eq_getD_getElem?,
    Std.TreeMap.getElem?_map]
  cases ranges.groups[key]? with
  | none => simp [List.eraseReps, List.eraseRepsBy]
  | some array => rfl

/-- Spans that are normalized are in order, none of them twice. -/
theorem pairwise_spansAt_normalize {key : String} :
    (ranges.normalize.spansAt key).Pairwise fun a b => a ≤ b ∧ a ≠ b := by
  rw [spansAt_normalize]
  refine Span.pairwise_eraseReps (List.Pairwise.imp of_decide_eq_true
    (List.pairwise_mergeSort ?_ ?_ (ranges.spansAt key)))
  · intro a b c hab hbc
    exact decide_eq_true (Span.le_trans (of_decide_eq_true hab) (of_decide_eq_true hbc))
  · intro a b
    rw [Bool.or_eq_true, decide_eq_true_eq, decide_eq_true_eq]
    exact Span.le_total a b

/-- Spans that are in order already, none of them twice, are normalized. -/
theorem spansAt_normalize_of_pairwise {key : String}
    (h : (ranges.spansAt key).Pairwise fun a b => a ≤ b ∧ a ≠ b) :
    ranges.normalize.spansAt key = ranges.spansAt key := by
  have hsorted : (ranges.spansAt key).mergeSort (fun a b => decide (a ≤ b)) = ranges.spansAt key :=
    List.mergeSort_of_pairwise (h.imp fun hab => decide_eq_true hab.1)
  rw [spansAt_normalize, hsorted, eraseReps_of_pairwise (h.imp And.right)]

/-- The spans may be sorted by insertion as well, which can be evaluated. -/
theorem normalize_eq_insertionSort (ranges : TagRanges) :
    ranges.normalize = ⟨ranges.groups.map fun _ spans =>
      ((spans.toList.insertionSort (· ≤ ·)).eraseReps).toArray⟩ := by
  have htotal : Std.Total fun a b : Span => a ≤ b := ⟨Span.le_total⟩
  have htrans : IsTrans Span fun a b => a ≤ b := ⟨fun _ _ _ => Span.le_trans⟩
  have hantisymm : Std.Antisymm fun a b : Span => a ≤ b := ⟨fun _ _ => Span.le_antisymm⟩
  simp only [normalize, List.mergeSort_eq_insertionSort (fun a b : Span => a ≤ b)]

/-! ## Two outcomes together -/

/-- Entries are added in turn to the spans of their keys. -/
private theorem toList_getD_foldl_alter (entries : List (String × Array Span))
    (groups : Std.TreeMap String (Array Span)) (key : String) :
    ((entries.foldl (fun groups entry => groups.alter entry.1 fun old => some (old.getD #[] ++ entry.2))
        groups).getD key #[]).toList =
      (groups.getD key #[]).toList ++
        (entries.filter (·.1 == key)).flatMap (·.2.toList) := by
  induction entries generalizing groups with
  | nil => simp
  | cons entry entries ih =>
    rw [List.foldl_cons, ih, Std.TreeMap.getD_alter]
    by_cases hkey : entry.1 = key
    · subst hkey
      simp [Std.TreeMap.getD_eq_getD_getElem?]
    · have hcompare : compare entry.1 key ≠ .eq := fun heq => hkey (Std.LawfulEqCmp.eq_of_compare heq)
      simp [hkey, hcompare]

/-- A key is listed once, with its spans. -/
private theorem flatMap_filter_toList (groups : Std.TreeMap String (Array Span)) (key : String) :
    (groups.toList.filter (·.1 == key)).flatMap (·.2.toList) = (groups.getD key #[]).toList := by
  rw [Std.TreeMap.getD_eq_getD_getElem?]
  cases hget : groups[key]? with
  | none =>
    rw [List.filter_eq_nil_iff.2]
    · rfl
    · rintro ⟨key', spans⟩ hmem heq
      obtain rfl : key' = key := beq_iff_eq.1 heq
      rw [Std.TreeMap.mem_toList_iff_getElem?_eq_some, hget] at hmem
      cases hmem
  | some spans =>
    have hmem : (key, spans) ∈ groups.toList :=
      Std.TreeMap.mem_toList_iff_getElem?_eq_some.2 hget
    obtain ⟨before, after, heq⟩ := List.append_of_mem hmem
    have hdistinct := groups.distinct_keys_toList
    rw [heq, List.pairwise_append, List.pairwise_cons] at hdistinct
    -- no other entry has this key
    have hbefore : before.filter (·.1 == key) = [] := by
      rw [List.filter_eq_nil_iff]
      intro entry hentry hkey
      refine hdistinct.2.2 entry hentry _ List.mem_cons_self ?_
      rw [beq_iff_eq.1 hkey]
      exact Std.ReflCmp.compare_self
    have hafter : after.filter (·.1 == key) = [] := by
      rw [List.filter_eq_nil_iff]
      intro entry hentry hkey
      refine hdistinct.2.1.1 entry hentry ?_
      rw [beq_iff_eq.1 hkey]
      exact Std.ReflCmp.compare_self
    rw [heq, List.filter_append, hbefore, List.filter_cons, hafter]
    simp

/-- What two outcomes together hold under a key: the spans of the first and then those of the second. -/
theorem spansAt_append {other : TagRanges} {key : String} :
    (ranges ++ other).spansAt key = ranges.spansAt key ++ other.spansAt key := by
  show (ranges.append other).spansAt key = _
  rw [spansAt, append, Std.TreeMap.foldl_eq_foldl_toList, toList_getD_foldl_alter, flatMap_filter_toList]
  rfl

/-- Without highlights nothing is held under any key. -/
theorem spansAt_empty {key : String} : (empty : TagRanges).spansAt key = [] := by
  simp [spansAt, empty]

/-! ## What is collected -/

/-- What is collected under a key: the spans that belong there, sorted and without repetitions. -/
theorem spansAt_collect {key : String} :
    (collect highlights).spansAt key =
      ((spansOf highlights key).mergeSort fun a b => decide (a ≤ b)).eraseReps := by
  rw [collect, spansAt_normalize, spansAt_pushAll, spansAt_empty, List.nil_append]

/-- Without highlights there are no ranges. -/
theorem collect_nil : collect [] = empty := rfl

/-- The ranges are the highlights that are not empty, under their tags in lower case. -/
theorem mem_flat_collect {h : Highlight} :
    h ∈ (collect highlights).flat ↔
      ∃ h' ∈ highlights, h'.span.start < h'.span.stop ∧ Unicode.lowercase h'.tag = h.tag ∧
        h'.span = h.span := by
  rw [mem_flat, spansAt_collect, mem_eraseReps, (List.mergeSort_perm _ _).mem_iff, spansOf, List.mem_map]
  simp only [List.mem_filter, Bool.and_eq_true, beq_iff_eq, Bool.not_eq_true', ← Bool.not_eq_true,
    Span.isEmpty_iff, Nat.not_le]
  constructor
  · rintro ⟨h', ⟨hmem, hkey, hlt⟩, hspan⟩
    exact ⟨h', hmem, hlt, hkey, hspan⟩
  · rintro ⟨h', hmem, hlt, hkey, hspan⟩
    exact ⟨h', ⟨hmem, hkey, hlt⟩, hspan⟩

/-- A key is listed from the first span on that is recorded for its tag and is not empty. -/
theorem mem_keys_push {tag key : String} {span : Span} :
    key ∈ (ranges.push tag span).keys ↔
      key ∈ ranges.keys ∨ span.start < span.stop ∧ Unicode.lowercase tag = key := by
  by_cases hempty : span.isEmpty = true
  · rw [push, if_pos hempty]
    rw [Span.isEmpty_iff] at hempty
    simp [Nat.not_lt.2 hempty]
  · have hlt : span.start < span.stop := by simpa using hempty
    rw [push, if_neg hempty, keys, keys, Std.TreeMap.mem_keys, Std.TreeMap.mem_keys,
      Std.TreeMap.mem_alter]
    by_cases hkey : Unicode.lowercase tag = key
    · simp [hkey, hlt]
    · simp [hkey]

/-- The keys are the tags of the highlights that are not empty, in lower case. -/
theorem mem_keys_collect {key : String} :
    key ∈ (collect highlights).keys ↔
      ∃ h ∈ highlights, h.span.start < h.span.stop ∧ Unicode.lowercase h.tag = key := by
  have hpushAll (ranges : TagRanges) : key ∈ (ranges.pushAll highlights).keys ↔ key ∈ ranges.keys ∨
      ∃ h ∈ highlights, h.span.start < h.span.stop ∧ Unicode.lowercase h.tag = key := by
    induction highlights generalizing ranges with
    | nil => simp [pushAll]
    | cons h highlights ih =>
      show key ∈ ((ranges.push h.tag h.span).pushAll highlights).keys ↔ _
      rw [ih, mem_keys_push]
      simp [or_assoc]
  have hempty : key ∉ (empty : TagRanges).keys := by
    simp [empty, keys]
  -- to normalize the spans of a key leaves the key
  rw [collect, normalize, keys, Std.TreeMap.mem_keys, Std.TreeMap.mem_map, ← Std.TreeMap.mem_keys]
  show key ∈ (empty.pushAll highlights).keys ↔ _
  rw [hpushAll]
  simp [hempty]

/-- No range is empty. -/
theorem start_lt_stop_of_mem_flat_collect {h : Highlight} (hmem : h ∈ (collect highlights).flat) :
    h.span.start < h.span.stop := by
  obtain ⟨h', -, hlt, -, hspan⟩ := mem_flat_collect.1 hmem
  rw [← hspan]
  exact hlt

/-- Different ranges of disjoint highlights are disjoint. -/
theorem disjoint_of_mem_flat_collect (hdisjoint : highlights.Pairwise fun a b => a.span.Disjoint b.span)
    {a b : Highlight} (ha : a ∈ (collect highlights).flat) (hb : b ∈ (collect highlights).flat)
    (hne : a ≠ b) : a.span.Disjoint b.span := by
  obtain ⟨a', ha', -, hkeya, hspana⟩ := mem_flat_collect.1 ha
  obtain ⟨b', hb', -, hkeyb, hspanb⟩ := mem_flat_collect.1 hb
  have : Std.Symm fun a b : Highlight => a.span.Disjoint b.span := ⟨fun _ _ h => h.symm⟩
  -- one highlight gives one range
  have hne' : a' ≠ b' := by
    rintro rfl
    apply hne
    cases a
    cases b
    simp only at hkeya hkeyb hspana hspanb
    rw [Highlight.mk.injEq, ← hkeya, ← hspana]
    exact ⟨hkeyb, hspanb⟩
  rw [← hspana, ← hspanb]
  exact hdisjoint.forall ha' hb' hne'

/-- The ranges of each key are in strict order if the highlights are disjoint. -/
theorem sorted_of_mem_collect (hdisjoint : highlights.Pairwise fun a b => a.span.Disjoint b.span)
    {key : String} {spans : List Span} (h : (key, spans) ∈ (collect highlights).toList) :
    spans.Pairwise fun a b => a.start < b.start := by
  have hspans := eq_spansAt_of_mem_toList h
  have hsorted : spans.Pairwise fun a b => a ≤ b ∧ a ≠ b := by
    rw [hspans]
    exact pairwise_spansAt_normalize
  refine hsorted.imp_of_mem fun {a b} ha hb hab => ?_
  -- two spans that start together are not disjoint
  have hmem {s : Span} (hs : s ∈ spans) : ⟨key, s⟩ ∈ (collect highlights).flat := by
    rw [mem_flat, ← hspans]
    exact hs
  have hapart := disjoint_of_mem_flat_collect hdisjoint (hmem ha) (hmem hb)
    (fun heq => hab.2 (congrArg Highlight.span heq))
  have hlt : a.start < a.stop := start_lt_stop_of_mem_flat_collect (hmem ha)
  have hlt' : b.start < b.stop := start_lt_stop_of_mem_flat_collect (hmem hb)
  have hle := Span.start_le_of_le hab.1
  rw [Span.Disjoint] at hapart
  simp only at hapart
  omega

/-- Ranges of disjoint highlights, be they of one tag or of several, are disjoint. -/
theorem pairwise_flat_collect (hdisjoint : highlights.Pairwise fun a b => a.span.Disjoint b.span) :
    (collect highlights).flat.Pairwise fun a b => a.span.Disjoint b.span := by
  have hne : (collect highlights).flat.Pairwise (· ≠ ·) := by
    rw [flat, List.pairwise_flatMap]
    constructor
    · rintro ⟨key, spans⟩ hmem
      refine List.Pairwise.map _ (fun a b hlt heq => ?_) (sorted_of_mem_collect hdisjoint hmem)
      rw [Highlight.mk.injEq] at heq
      rw [heq.2] at hlt
      exact Nat.lt_irrefl _ hlt
    -- the keys differ
    · refine List.Pairwise.map _ ?_ Std.TreeMap.distinct_keys_toList
      rintro ⟨key, spans⟩ ⟨key', spans'⟩ hkeys x hx y hy rfl
      obtain ⟨s, -, rfl⟩ := List.mem_map.1 hx
      obtain ⟨s', -, heq⟩ := List.mem_map.1 hy
      cases heq
      exact hkeys Std.ReflCmp.compare_self
  refine hne.imp_of_mem fun {a b} ha hb hab => ?_
  exact disjoint_of_mem_flat_collect hdisjoint ha hb hab

end TagRanges

end CommentTags
