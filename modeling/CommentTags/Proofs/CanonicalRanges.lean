import CommentTags.Proofs.Lowercase
import CommentTags.Proofs.NormalRanges
import Mathlib.Data.Set.Insert

/-!
# Canonical ranges

Ranges are built up step by step: a span is recorded, other ranges are taken over, or what there is is normalized.
Whatever the history, no key is without spans, no span is empty, and the keys are in lower case. Normalized ranges
are a canonical form of the set of spans that were recorded, each with its key: the order of the steps, repetitions,
and what was taken over from elsewhere leave no trace.

## Main definitions

* `TagRanges.History`: how ranges were built up, with `History.ranges` and `History.recorded`;
* `TagRanges.IsProper`: the keys are in lower case, and each has spans, none of them empty.

## Main results

* `TagRanges.History.isProper_ranges`: whatever the history, ranges are proper;
* `TagRanges.History.mem_recorded_iff`: the spans of ranges are those recorded;
* `TagRanges.IsProper.toList_collect`: the highlights of proper ranges, collected, give them back in normal form;
* `TagRanges.History.canonical`: normalized ranges are determined by what was recorded.
-/

namespace CommentTags.TagRanges

section Proper

variable {ranges other : TagRanges} {highlights : List Highlight} {key : String}

/-- The keys are in lower case, and each has spans, none of them empty. -/
structure IsProper (ranges : TagRanges) : Prop where
  nonempty : ∀ key ∈ ranges.keys, ranges.spansAt key ≠ []
  start_lt_stop : ∀ key, ∀ span ∈ ranges.spansAt key, span.start < span.stop
  lowercase_eq : ∀ key ∈ ranges.keys, Unicode.lowercase key = key

/-! ## Steps -/

theorem mem_spansAt_push {tag : String} {span s : Span} :
    s ∈ (ranges.push tag span).spansAt key ↔
      s ∈ ranges.spansAt key ∨ span.start < span.stop ∧ Unicode.lowercase tag = key ∧ s = span := by
  rw [spansAt_push, List.mem_append, spansOf, List.mem_map]
  simp only [List.mem_filter, List.mem_singleton, Bool.and_eq_true, beq_iff_eq, Bool.not_eq_true',
    ← Bool.not_eq_true, Span.isEmpty_iff, Nat.not_le]
  refine or_congr_right ⟨?_, ?_⟩
  · rintro ⟨h, ⟨rfl, hkey, hlt⟩, rfl⟩
    exact ⟨hlt, hkey, rfl⟩
  · rintro ⟨hlt, hkey, rfl⟩
    exact ⟨⟨tag, s⟩, ⟨rfl, hkey, hlt⟩, rfl⟩

theorem isProper_empty : (empty : TagRanges).IsProper where
  nonempty key hkey := by simp [keys, empty] at hkey
  start_lt_stop key span hspan := by simp [spansAt_empty] at hspan
  lowercase_eq key hkey := by simp [keys, empty] at hkey

/-- A span that is not empty is recorded under its tag in lower case. -/
theorem IsProper.push (h : ranges.IsProper) (tag : String) (span : Span) : (ranges.push tag span).IsProper where
  nonempty key hkey := by
    rcases mem_keys_push.1 hkey with hkey | ⟨hlt, hkey⟩
    · obtain ⟨s, hs⟩ := List.exists_mem_of_ne_nil _ (h.nonempty key hkey)
      exact List.ne_nil_of_mem (mem_spansAt_push.2 (.inl hs))
    · exact List.ne_nil_of_mem (mem_spansAt_push.2 (.inr ⟨hlt, hkey, rfl⟩))
  start_lt_stop key s hs := by
    rcases mem_spansAt_push.1 hs with hs | ⟨hlt, -, rfl⟩
    · exact h.start_lt_stop key s hs
    · exact hlt
  lowercase_eq key hkey := by
    rcases mem_keys_push.1 hkey with hkey | ⟨-, rfl⟩
    · exact h.lowercase_eq key hkey
    · exact Unicode.lowercase_lowercase tag

/-- Keys that are taken over are in lower case already. -/
theorem IsProper.append (h : ranges.IsProper) (hother : other.IsProper) : (ranges ++ other).IsProper where
  nonempty key hkey := by
    rw [spansAt_append, Ne, List.append_eq_nil_iff, not_and_or]
    exact (mem_keys_append.1 hkey).imp (h.nonempty key) (hother.nonempty key)
  start_lt_stop key span hspan := by
    rw [spansAt_append, List.mem_append] at hspan
    exact hspan.elim (h.start_lt_stop key span) (hother.start_lt_stop key span)
  lowercase_eq key hkey := (mem_keys_append.1 hkey).elim (h.lowercase_eq key) (hother.lowercase_eq key)

theorem IsProper.normalize (h : ranges.IsProper) : ranges.normalize.IsProper where
  nonempty := (isNormal_normalize h.nonempty).nonempty
  start_lt_stop key span hspan := h.start_lt_stop key span (mem_spansAt_normalize.1 hspan)
  lowercase_eq key hkey := h.lowercase_eq key (keys_normalize ▸ hkey)

/-! ## Proper ranges -/

/-- Each entry of proper ranges has spans, none of them empty. -/
theorem IsProper.of_mem_toList (h : ranges.IsProper) {spans : List Span} (hmem : (key, spans) ∈ ranges.toList) :
    spans ≠ [] ∧ ∀ span ∈ spans, span.start < span.stop := by
  rw [eq_spansAt_of_mem_toList hmem]
  rw [toList_eq_map_keys, List.mem_map] at hmem
  obtain ⟨key', hkey, heq⟩ := hmem
  cases heq
  exact ⟨h.nonempty key hkey, h.start_lt_stop key⟩

/-- Proper ranges that hold no span hold nothing at all. -/
theorem IsProper.isEmpty_iff (h : ranges.IsProper) : ranges.isEmpty = true ↔ ranges.count = 0 := by
  have hkeys : ranges.isEmpty = ranges.keys.isEmpty := Std.TreeMap.isEmpty_keys.symm
  rw [hkeys, List.isEmpty_iff, count, List.length_eq_zero_iff]
  constructor
  · intro hnil
    rw [flat, toList_eq_map_keys, hnil, List.map_nil, List.flatMap_nil]
  · intro hflat
    rw [List.eq_nil_iff_forall_not_mem]
    intro key hkey
    obtain ⟨span, hspan⟩ := List.exists_mem_of_ne_nil _ (h.nonempty key hkey)
    have hmem : (⟨key, span⟩ : Highlight) ∈ ranges.flat := mem_flat.2 hspan
    rw [hflat] at hmem
    cases hmem

/-- To normalize once more changes nothing. -/
theorem toList_normalize_normalize (ranges : TagRanges) :
    ranges.normalize.normalize.toList = ranges.normalize.toList := by
  rw [toList_eq_map_keys, toList_eq_map_keys, keys_normalize]
  exact List.map_congr_left fun key _ => by rw [spansAt_normalize_of_pairwise pairwise_spansAt_normalize]

/-- The highlights of proper ranges, collected in any order, give the ranges back in normal form. -/
theorem IsProper.toList_collect (h : ranges.IsProper) (hperm : highlights.Perm ranges.flat) :
    (collect highlights).toList = ranges.normalize.toList := by
  refine (isNormal_collect _).toList_eq (isNormal_normalize h.nonempty) fun key span => ?_
  rw [mem_spansAt_collect, mem_spansAt_normalize]
  constructor
  · rintro ⟨x, hx, -, hkey, rfl⟩
    have hspan := mem_flat.1 (hperm.mem_iff.1 hx)
    -- the tag is a key and so in lower case
    rw [h.lowercase_eq x.tag (mem_keys_of_mem_spansAt hspan)] at hkey
    rwa [← hkey]
  · intro hspan
    exact ⟨⟨key, span⟩, hperm.mem_iff.2 (mem_flat.2 hspan), h.start_lt_stop key span hspan,
      h.lowercase_eq key (mem_keys_of_mem_spansAt hspan), rfl⟩

end Proper

/-! ## Histories -/

/-- How ranges were built up. -/
inductive History where
  /-- Nothing is recorded yet. -/
  | empty
  /-- A span was recorded for a tag. -/
  | push (history : History) (tag : String) (span : Span)
  /-- Ranges with a history of their own were taken over. -/
  | append (history other : History)
  /-- The ranges were normalized. -/
  | normalize (history : History)

namespace History

/-- The ranges with this history. -/
def ranges : History → TagRanges
  | empty => .empty
  | push history tag span => history.ranges.push tag span
  | append history other => history.ranges ++ other.ranges
  | normalize history => history.ranges.normalize

/-- The spans that were recorded and are not empty, each with its tag in lower case. -/
def recorded : History → Set (String × Span)
  | empty => ∅
  | push history tag span =>
    if span.isEmpty then history.recorded else insert (Unicode.lowercase tag, span) history.recorded
  | append history other => history.recorded ∪ other.recorded
  | normalize history => history.recorded

/-- Whatever the history, ranges are proper. -/
theorem isProper_ranges (history : History) : history.ranges.IsProper := by
  induction history with
  | empty => exact isProper_empty
  | push history tag span ih => exact ih.push tag span
  | append history other ih ihOther => exact ih.append ihOther
  | normalize history ih => exact ih.normalize

/-- The spans of ranges are those recorded. -/
theorem mem_recorded_iff (history : History) {key : String} {span : Span} :
    (key, span) ∈ history.recorded ↔ span ∈ history.ranges.spansAt key := by
  induction history with
  | empty => simp [recorded, ranges, spansAt_empty]
  | push history tag s ih =>
    rw [recorded, ranges, mem_spansAt_push, ← ih]
    split
    · next hempty =>
      rw [Span.isEmpty_iff] at hempty
      simp [Nat.not_lt.2 hempty]
    · next hempty =>
      rw [Span.isEmpty_iff, Nat.not_le] at hempty
      rw [Set.mem_insert_iff, Prod.mk.injEq, or_comm, eq_comm (a := key)]
      simp [hempty]
  | append history other ih ihOther =>
    rw [recorded, ranges, spansAt_append, List.mem_append, Set.mem_union, ih, ihOther]
  | normalize history ih => rw [recorded, ranges, mem_spansAt_normalize, ih]

/-- Normalized ranges still hold the spans recorded. -/
theorem mem_flat_normalize_iff (history : History) {key : String} {span : Span} :
    ⟨key, span⟩ ∈ history.ranges.normalize.flat ↔ (key, span) ∈ history.recorded := by
  rw [mem_flat, mem_spansAt_normalize, mem_recorded_iff]

/-- What was recorded can be read off normalized ranges, and determines them. -/
theorem toList_normalize_eq_iff (history other : History) :
    history.ranges.normalize.toList = other.ranges.normalize.toList ↔ history.recorded = other.recorded := by
  constructor
  · intro heq
    ext ⟨key, span⟩
    calc (key, span) ∈ history.recorded
      _ ↔ ⟨key, span⟩ ∈ history.ranges.normalize.flat := history.mem_flat_normalize_iff.symm
      _ ↔ ⟨key, span⟩ ∈ other.ranges.normalize.flat := by rw [flat, flat, heq]
      _ ↔ (key, span) ∈ other.recorded := other.mem_flat_normalize_iff
  · intro heq
    refine (isNormal_normalize history.isProper_ranges.nonempty).toList_eq
      (isNormal_normalize other.isProper_ranges.nonempty) fun key span => ?_
    rw [mem_spansAt_normalize, mem_spansAt_normalize, ← mem_recorded_iff, ← mem_recorded_iff, heq]

/-- Whatever the history of ranges, no key is without spans and no span is empty, so that they are empty iff they
hold no span. Normalized, they hold the spans recorded for each tag in lower case and are determined by them, those of
a key are in strict order, and to normalize them once more changes nothing. Their highlights, collected in any order,
give the normalized ranges. -/
theorem canonical (history : History) :
    (∀ key spans, (key, spans) ∈ history.ranges.toList →
      spans ≠ [] ∧ ∀ span ∈ spans, span.start < span.stop) ∧
    (history.ranges.isEmpty = true ↔ history.ranges.count = 0) ∧
    (∀ key span, ⟨key, span⟩ ∈ history.ranges.normalize.flat ↔ (key, span) ∈ history.recorded) ∧
    (∀ other : History, history.ranges.normalize.toList = other.ranges.normalize.toList ↔
      history.recorded = other.recorded) ∧
    (∀ key spans, (key, spans) ∈ history.ranges.normalize.toList → spans.Pairwise fun a b => a ≤ b ∧ a ≠ b) ∧
    history.ranges.normalize.normalize.toList = history.ranges.normalize.toList ∧
    ∀ highlights, highlights.Perm history.ranges.flat →
      (collect highlights).toList = history.ranges.normalize.toList := by
  have hproper := history.isProper_ranges
  refine ⟨fun key spans => hproper.of_mem_toList, hproper.isEmpty_iff,
    fun key span => history.mem_flat_normalize_iff, history.toList_normalize_eq_iff,
    fun key spans hmem => ?_, toList_normalize_normalize _, fun highlights => hproper.toList_collect⟩
  rw [eq_spansAt_of_mem_toList hmem]
  exact pairwise_spansAt_normalize

/-- Two histories with the same outcome: once span by span in order, and once backwards, with a repetition and an
empty span, the tag in other letters, and one part taken over. -/
theorem canonical_of_two_histories :
    let first := (empty.push "todo" ⟨1, 2⟩).push "todo" ⟨10, 12⟩
    let second := ((empty.push "TODO" ⟨10, 12⟩).push "Todo" ⟨4, 4⟩).append
      ((empty.push "todo" ⟨10, 12⟩).push "todo" ⟨1, 2⟩).normalize
    first.recorded = second.recorded ∧
      first.ranges.normalize.toList = second.ranges.normalize.toList ∧
      (collect [⟨"todo", ⟨10, 12⟩⟩, ⟨"todo", ⟨1, 2⟩⟩]).toList = first.ranges.normalize.toList := by
  intro first second
  have hupper : Unicode.lowercase "TODO" = "todo" := by decide +kernel
  have hlower : Unicode.lowercase "todo" = "todo" := by decide +kernel
  have hrecorded : first.recorded = second.recorded := by
    ext entry
    simp [first, second, recorded, Span.isEmpty, hupper, hlower, or_comm]
  have hflat : first.ranges.flat = [⟨"todo", ⟨1, 2⟩⟩, ⟨"todo", ⟨10, 12⟩⟩] := by decide +kernel
  obtain ⟨-, -, -, hnormal, -, -, hcollect⟩ := canonical first
  refine ⟨hrecorded, (hnormal second).2 hrecorded, hcollect _ ?_⟩
  rw [hflat]
  exact List.Perm.swap _ _ _

end History

end CommentTags.TagRanges
