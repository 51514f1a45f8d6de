import CommentTags.Proofs.TagRanges
import Mathlib.Data.List.Sort
import Mathlib.Data.Nat.Basic
import Mathlib.Order.Monotone.Basic

/-!
# Normal ranges

What a scan answers is normal: the spans of each key are in strict order, and no key is without spans. Two
normal outcomes with the same spans under each key list the same keys with the same spans in the same order.
So whether two scans find the same can be told from single spans.

## Main definitions

* `TagRanges.IsNormal`: the spans of each key are in strict order, and no key is without spans;
* `Span.relocate`, `Highlight.relocate` and `TagRanges.relocate`: every offset is moved to another place;
* `TagRanges.union`: several outcomes together, in order.

## Main results

* `TagRanges.IsNormal.toList_eq`: normal ranges are determined by the spans under each key;
* `TagRanges.toList_collect_relocate`: highlights that are moved, their order kept, give ranges that are
  moved;
* `TagRanges.toList_union_perm`: outcomes can be put together in any order.
-/

namespace CommentTags

/-- The span between the places to which its ends are moved. -/
def Span.relocate (place : Nat → Nat) (span : Span) : Span :=
  ⟨place span.start, place span.stop⟩

/-- The highlight between the places to which its ends are moved. -/
def Highlight.relocate (place : Nat → Nat) (h : Highlight) : Highlight :=
  ⟨h.tag, h.span.relocate place⟩

/-- Moved to places in the same order, the ends of a span stay in order. -/
theorem Span.start_lt_stop_relocate {place : Nat → Nat} (hplace : StrictMono place) {span : Span} :
    (span.relocate place).start < (span.relocate place).stop ↔ span.start < span.stop :=
  hplace.lt_iff_lt

/-- Moved to places in the same order, spans stay in order, and different spans stay different. -/
theorem Span.relocate_strict {place : Nat → Nat} (hplace : StrictMono place) {a b : Span}
    (h : a ≤ b ∧ a ≠ b) : a.relocate place ≤ b.relocate place ∧ a.relocate place ≠ b.relocate place := by
  obtain ⟨hle, hne⟩ := h
  constructor
  · rw [Span.le_iff] at hle ⊢
    rcases hle with hlt | ⟨hstart, hstop⟩
    · exact .inl (hplace hlt)
    · exact .inr ⟨congrArg place hstart, hplace.monotone hstop⟩
  · intro heq
    rw [relocate, relocate, Span.mk.injEq, hplace.injective.eq_iff, hplace.injective.eq_iff] at heq
    cases a
    cases b
    exact hne (by rw [Span.mk.injEq]; exact heq)

namespace TagRanges

variable {ranges other : TagRanges} {highlights : List Highlight} {key : String}

/-- The ranges with every offset moved to another place. -/
def relocate (place : Nat → Nat) (ranges : TagRanges) : TagRanges :=
  ⟨ranges.groups.map fun _ spans => spans.map (·.relocate place)⟩

/-- The spans of each key are in strict order, and no key is without spans. -/
structure IsNormal (ranges : TagRanges) : Prop where
  sorted : ∀ key, (ranges.spansAt key).Pairwise fun a b => a ≤ b ∧ a ≠ b
  nonempty : ∀ key ∈ ranges.keys, ranges.spansAt key ≠ []

/-! ## Keys and their spans -/

/-- A key with spans is listed. -/
theorem mem_keys_of_mem_spansAt {span : Span} (h : span ∈ ranges.spansAt key) : key ∈ ranges.keys := by
  rw [spansAt, Std.TreeMap.getD_eq_getD_getElem?] at h
  rw [keys, Std.TreeMap.mem_keys, Std.TreeMap.mem_iff_isSome_getElem?]
  cases hget : ranges.groups[key]? with
  | none =>
    rw [hget] at h
    exact absurd h (by simp)
  | some spans => rfl

/-- The keys are listed in order, each with its spans. -/
theorem toList_eq_map_keys (ranges : TagRanges) :
    ranges.toList = ranges.keys.map fun key => (key, ranges.spansAt key) := by
  rw [keys, ← Std.TreeMap.map_fst_toList_eq_keys, List.map_map]
  refine List.map_congr_left ?_
  rintro ⟨key, spans⟩ hmem
  have hentry : (key, spans.toList) ∈ ranges.toList := List.mem_map.2 ⟨(key, spans), hmem, rfl⟩
  show (key, spans.toList) = (key, ranges.spansAt key)
  rw [← eq_spansAt_of_mem_toList hentry]

/-- The keys of two outcomes together are those of either. -/
theorem mem_keys_append : key ∈ (ranges ++ other).keys ↔ key ∈ ranges.keys ∨ key ∈ other.keys := by
  have hfold (entries : List (String × Array Span)) (groups : Std.TreeMap String (Array Span)) :
      key ∈ entries.foldl (fun groups entry =>
        groups.alter entry.1 fun old => some (old.getD #[] ++ entry.2)) groups ↔
      key ∈ groups ∨ key ∈ entries.map Prod.fst := by
    induction entries generalizing groups with
    | nil => simp
    | cons entry entries ih =>
      rw [List.foldl_cons, ih, Std.TreeMap.mem_alter]
      by_cases hkey : entry.1 = key
      · simp [hkey]
      · have hne : compare entry.1 key ≠ .eq := fun heq => hkey (Std.LawfulEqCmp.eq_of_compare heq)
        simp [hne, Ne.symm hkey]
  show key ∈ (ranges.append other).keys ↔ _
  rw [append, keys, keys, keys, Std.TreeMap.mem_keys, Std.TreeMap.foldl_eq_foldl_toList, hfold,
    Std.TreeMap.mem_keys, Std.TreeMap.map_fst_toList_eq_keys]

/-- To normalize the spans of each key leaves the keys. -/
@[simp]
theorem keys_normalize : ranges.normalize.keys = ranges.keys := Std.TreeMap.keys_map

/-- To move spans leaves the keys. -/
@[simp]
theorem keys_relocate {place : Nat → Nat} : (ranges.relocate place).keys = ranges.keys :=
  Std.TreeMap.keys_map

theorem spansAt_relocate {place : Nat → Nat} :
    (ranges.relocate place).spansAt key = (ranges.spansAt key).map (·.relocate place) := by
  rw [spansAt, spansAt, relocate, Std.TreeMap.getD_eq_getD_getElem?, Std.TreeMap.getD_eq_getD_getElem?,
    Std.TreeMap.getElem?_map]
  cases ranges.groups[key]? with
  | none => rfl
  | some spans => simp

theorem toList_relocate {place : Nat → Nat} :
    (ranges.relocate place).toList =
      ranges.toList.map fun entry => (entry.1, entry.2.map (·.relocate place)) := by
  rw [toList_eq_map_keys, toList_eq_map_keys, List.map_map, keys_relocate]
  exact List.map_congr_left fun key _ => by rw [spansAt_relocate]; rfl

theorem mem_spansAt_normalize {span : Span} :
    span ∈ ranges.normalize.spansAt key ↔ span ∈ ranges.spansAt key := by
  rw [spansAt_normalize, mem_eraseReps, (List.mergeSort_perm _ _).mem_iff]

/-- What is collected under a key are the spans of the highlights that belong there. -/
theorem mem_spansAt_collect {span : Span} :
    span ∈ (collect highlights).spansAt key ↔
      ∃ h ∈ highlights, h.span.start < h.span.stop ∧ Unicode.lowercase h.tag = key ∧ h.span = span := by
  have hflat := @mem_flat_collect highlights ⟨key, span⟩
  rw [mem_flat] at hflat
  exact hflat

/-! ## Normal ranges are determined by their spans -/

/-- The keys of normal ranges are those with spans. -/
theorem IsNormal.mem_keys (h : ranges.IsNormal) : key ∈ ranges.keys ↔ ∃ span, span ∈ ranges.spansAt key := by
  constructor
  · intro hkey
    exact List.exists_mem_of_ne_nil _ (h.nonempty key hkey)
  · rintro ⟨span, hspan⟩
    exact mem_keys_of_mem_spansAt hspan

/-- Normal ranges with the same spans under each key are listed alike. -/
theorem IsNormal.toList_eq (h : ranges.IsNormal) (h' : other.IsNormal)
    (hmem : ∀ key span, span ∈ ranges.spansAt key ↔ span ∈ other.spansAt key) :
    ranges.toList = other.toList := by
  have : Std.Antisymm fun a b : Span => a ≤ b ∧ a ≠ b :=
    ⟨fun _ _ hab hba => Span.le_antisymm hab.1 hba.1⟩
  have : Std.Irrefl fun a b : Span => a ≤ b ∧ a ≠ b := ⟨fun _ haa => haa.2 rfl⟩
  have : Std.Antisymm fun a b : String => compare a b = .lt :=
    ⟨fun _ _ hab hba => absurd hba (Std.OrientedCmp.not_lt_of_lt hab)⟩
  have : Std.Irrefl fun a b : String => compare a b = .lt := ⟨fun a => by simp⟩
  have hspans (key : String) : ranges.spansAt key = other.spansAt key :=
    (h.sorted key).eq_of_mem_iff (h'.sorted key) (hmem key)
  have hkeys : ranges.keys = other.keys := by
    refine Std.TreeMap.ordered_keys.eq_of_mem_iff Std.TreeMap.ordered_keys fun key => ?_
    show key ∈ ranges.keys ↔ key ∈ other.keys
    rw [h.mem_keys, h'.mem_keys]
    exact exists_congr fun span => hmem key span
  rw [toList_eq_map_keys, toList_eq_map_keys, hkeys]
  exact List.map_congr_left fun key _ => by rw [hspans]

/-- Ranges without an idle key are normal once they are normalized. -/
theorem isNormal_normalize (h : ∀ key ∈ ranges.keys, ranges.spansAt key ≠ []) :
    ranges.normalize.IsNormal where
  sorted _ := pairwise_spansAt_normalize
  nonempty key hkey := by
    rw [keys_normalize] at hkey
    obtain ⟨span, hspan⟩ := List.exists_mem_of_ne_nil _ (h key hkey)
    exact List.ne_nil_of_mem (mem_spansAt_normalize.2 hspan)

/-- What is collected is normal. -/
theorem isNormal_collect (highlights : List Highlight) : (collect highlights).IsNormal where
  sorted _ := pairwise_spansAt_normalize
  nonempty key hkey := by
    obtain ⟨h, hmem, hlt, htag⟩ := mem_keys_collect.1 hkey
    exact List.ne_nil_of_mem (mem_spansAt_collect.2 ⟨h, hmem, hlt, htag, rfl⟩)

/-- Normal ranges that are moved to places in the same order are normal. -/
theorem IsNormal.relocate (h : ranges.IsNormal) {place : Nat → Nat} (hplace : StrictMono place) :
    (ranges.relocate place).IsNormal where
  sorted key := by
    rw [spansAt_relocate]
    exact (h.sorted key).map _ fun _ _ hab => Span.relocate_strict hplace hab
  nonempty key hkey := by
    rw [keys_relocate] at hkey
    rw [spansAt_relocate, Ne, List.map_eq_nil_iff]
    exact h.nonempty key hkey

/-- Highlights that are moved to places in the same order give ranges that are moved. -/
theorem toList_collect_relocate {place : Nat → Nat} (hplace : StrictMono place)
    (highlights : List Highlight) :
    (collect (highlights.map (·.relocate place))).toList =
      ((collect highlights).relocate place).toList := by
  refine (isNormal_collect _).toList_eq ((isNormal_collect _).relocate hplace) fun key span => ?_
  rw [mem_spansAt_collect, spansAt_relocate, List.mem_map]
  constructor
  · rintro ⟨h', hmem, hlt, htag, rfl⟩
    obtain ⟨h, hh, rfl⟩ := List.mem_map.1 hmem
    rw [Highlight.relocate, Span.start_lt_stop_relocate hplace] at hlt
    exact ⟨h.span, mem_spansAt_collect.2 ⟨h, hh, hlt, htag, rfl⟩, rfl⟩
  · rintro ⟨span, hspan, rfl⟩
    obtain ⟨h, hmem, hlt, htag, rfl⟩ := mem_spansAt_collect.1 hspan
    exact ⟨h.relocate place, List.mem_map.2 ⟨h, hmem, rfl⟩, (Span.start_lt_stop_relocate hplace).2 hlt,
      htag, rfl⟩

/-! ## Several outcomes together -/

/-- The spans of several outcomes by key, in order and without repetitions. -/
def union (parts : List TagRanges) : TagRanges :=
  (parts.foldl (· ++ ·) empty).normalize

theorem mem_spansAt_foldl_append {parts : List TagRanges} {span : Span} :
    span ∈ (parts.foldl (· ++ ·) ranges).spansAt key ↔
      span ∈ ranges.spansAt key ∨ ∃ part ∈ parts, span ∈ part.spansAt key := by
  induction parts generalizing ranges with
  | nil => simp
  | cons part parts ih =>
    rw [List.foldl_cons, ih, spansAt_append, List.mem_append, or_assoc, List.exists_mem_cons_iff]

theorem mem_keys_foldl_append {parts : List TagRanges} :
    key ∈ (parts.foldl (· ++ ·) ranges).keys ↔ key ∈ ranges.keys ∨ ∃ part ∈ parts, key ∈ part.keys := by
  induction parts generalizing ranges with
  | nil => simp
  | cons part parts ih =>
    rw [List.foldl_cons, ih, mem_keys_append, or_assoc, List.exists_mem_cons_iff]

/-- Under each key there are the spans of all parts. -/
theorem mem_spansAt_union {parts : List TagRanges} {span : Span} :
    span ∈ (union parts).spansAt key ↔ ∃ part ∈ parts, span ∈ part.spansAt key := by
  rw [union, mem_spansAt_normalize, mem_spansAt_foldl_append, spansAt_empty]
  simp

/-- Normal outcomes are normal together. -/
theorem isNormal_union {parts : List TagRanges} (h : ∀ part ∈ parts, part.IsNormal) :
    (union parts).IsNormal := by
  refine isNormal_normalize fun key hkey => ?_
  rw [mem_keys_foldl_append] at hkey
  have hempty : key ∉ (empty : TagRanges).keys := by
    simp [empty, keys]
  obtain ⟨part, hpart, hkey⟩ := hkey.resolve_left hempty
  obtain ⟨span, hspan⟩ := (h part hpart).mem_keys.1 hkey
  exact List.ne_nil_of_mem (mem_spansAt_foldl_append.2 (.inr ⟨part, hpart, hspan⟩))

/-- What is collected of two lists of highlights is what is collected of each, together. -/
theorem toList_collect_append (above below : List Highlight) :
    (collect (above ++ below)).toList = (union [collect above, collect below]).toList := by
  have hparts : ∀ part ∈ [collect above, collect below], part.IsNormal := by
    simp [isNormal_collect]
  refine (isNormal_collect _).toList_eq (isNormal_union hparts) fun key span => ?_
  simp only [mem_spansAt_union, List.mem_cons, List.not_mem_nil, or_false, exists_eq_left,
    mem_spansAt_collect, List.mem_append, or_and_right, exists_or]

/-- It does not matter in which order outcomes are put together. -/
theorem toList_union_perm {parts others : List TagRanges} (hperm : parts.Perm others)
    (h : ∀ part ∈ parts, part.IsNormal) : (union parts).toList = (union others).toList := by
  have hothers : ∀ part ∈ others, part.IsNormal := fun part hpart => h part (hperm.mem_iff.2 hpart)
  refine (isNormal_union h).toList_eq (isNormal_union hothers) fun key span => ?_
  rw [mem_spansAt_union, mem_spansAt_union]
  exact exists_congr fun part => and_congr_left fun _ => hperm.mem_iff

/-- Normal ranges hold no span twice under one key. -/
theorem IsNormal.nodup_flat (h : ranges.IsNormal) : ranges.flat.Nodup := by
  rw [List.Nodup, flat, List.pairwise_flatMap]
  constructor
  · rintro ⟨key, spans⟩ hmem
    rw [eq_spansAt_of_mem_toList hmem]
    refine (h.sorted key).map _ fun a b hab heq => hab.2 ?_
    exact congrArg Highlight.span heq
  -- the keys differ
  · refine List.Pairwise.map _ ?_ Std.TreeMap.distinct_keys_toList
    rintro ⟨key, spans⟩ ⟨key', spans'⟩ hkeys x hx y hy rfl
    obtain ⟨s, -, rfl⟩ := List.mem_map.1 hx
    obtain ⟨s', -, heq⟩ := List.mem_map.1 hy
    cases heq
    exact hkeys Std.ReflCmp.compare_self

end TagRanges

end CommentTags
