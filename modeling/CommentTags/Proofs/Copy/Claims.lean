import CommentTags.Proofs.Copy.Text
import CommentTags.Proofs.Relocation

/-!
# Claims in a copy

A text lies in one document and a copy of it in another. A comment starts at a character, which has its
place in the copy. It may end with its line, before the line feed in either text, so its end in the copy
stands for its end in the text. With claims that correspond in this way, the copy is claimed where the
text is.

## Main definitions

* `Text.CopiesAt`: a text in a document, a copy of it in another, and where the offsets are moved;
* `Span.Copied` and `ClaimSet.Copied`: a claim, and all claims in the text, are copied.

## Main results

* `Text.CopiesAt.contains_eq` and `Text.CopiesAt.overlaps_eq`: the copy is claimed where the text is;
* `Text.CopiesAt.cutAt_copied`: a line of the copy is cut at the claim that cuts the line of the text.
-/

namespace CommentTags

/-- `copy` contains a copy of `text`. The two start at `base` and `base'` in their documents, and the
offset of a position in the one document is moved by `spot` to that of its place in the other. -/
structure Text.CopiesAt (text copy : Text) (ending : LineEnding) (place : Nat → Nat) (base base' : Nat)
    (spot : Nat → Nat) : Prop extends text.Copies copy ending place where
  spot_mono : StrictMono spot
  spot_add : ∀ i, spot (base + i) = base' + place i

/-- The span `s'` is copied from `s`: it starts at the place of a character, and its end stands for the other
end. -/
def Span.Copied (text copy : Text) (place : Nat → Nat) (base base' : Nat) (s s' : Span) : Prop :=
  ∃ i e p, text.SolidAt i ∧ e ≤ text.size ∧ text.Stands copy place e p ∧
    s = ⟨base + i, base + e⟩ ∧ s' = ⟨base' + place i, base' + p⟩

/-- The claims of `claims` are copied to `others`, which has no other claims beyond the start of the copy. -/
structure ClaimSet.Copied (text copy : Text) (place : Nat → Nat) (base base' : Nat) (claims others : ClaimSet) :
    Prop where
  kept : ∀ s ∈ claims.toList, ∃ s' ∈ others.toList, s.Copied text copy place base base' s'
  real : ∀ s' ∈ others.toList, s'.stop ≤ base' + place 0 ∨
    ∃ s ∈ claims.toList, s.Copied text copy place base base' s'

variable {text copy : Text} {ending : LineEnding} {place : Nat → Nat} {base base' : Nat} {spot : Nat → Nat}

/-- If nothing is claimed, nothing is claimed in a copy that follows all claims. -/
theorem ClaimSet.copied_empty {others : ClaimSet} (h : ∀ s' ∈ others.toList, s'.stop ≤ base' + place 0) :
    ClaimSet.Copied text copy place base base' .empty others where
  kept _ hs := absurd hs List.not_mem_nil
  real s' hs' := .inl (h s' hs')

namespace Text.CopiesAt

variable (h : text.CopiesAt copy ending place base base' spot)
include h

/-! ## Claims -/

/-- A copied span is empty iff the span is. -/
theorem start_lt_stop_iff {s s' : Span} (hs : s.Copied text copy place base base' s') :
    s.start < s.stop ↔ s'.start < s'.stop := by
  obtain ⟨i, e, p, hi, -, hp, rfl, rfl⟩ := hs
  have hlt := h.lt_stands_iff hp hi
  dsimp only
  omega

/-- A copied span contains the places of the same characters. -/
theorem contains_span {s s' : Span} (hs : s.Copied text copy place base base' s') {j : Nat}
    (hj : text.SolidAt j) : s'.contains (base' + place j) = s.contains (base + j) := by
  obtain ⟨i, e, p, -, -, hp, rfl, rfl⟩ := hs
  have hlt := h.lt_stands_iff hp hj
  have hle : i ≤ j ↔ place i ≤ place j := h.mono.le_iff_le.symm
  rw [Bool.eq_iff_iff, Span.contains_iff, Span.contains_iff]
  dsimp only
  omega

/-- A copied span overlaps the places of the same parts of the text. -/
theorem overlaps_span {s s' : Span} (hs : s.Copied text copy place base base' s') {j stop : Nat}
    (hj : text.SolidAt j) :
    s'.overlaps (base' + place j) (base' + place stop) = s.overlaps (base + j) (base + stop) := by
  obtain ⟨i, e, p, -, -, hp, rfl, rfl⟩ := hs
  have hlt := h.lt_stands_iff hp hj
  have hlt' : i < stop ↔ place i < place stop := h.mono.lt_iff_lt.symm
  rw [Bool.eq_iff_iff, Span.overlaps_iff, Span.overlaps_iff]
  dsimp only
  omega

variable {claims others : ClaimSet} (hclaims : claims.Copied text copy place base base' others)
include hclaims

/-- Claims are copied still after one more claim that is copied. -/
theorem copied_claim {s s' : Span} (hs : s.Copied text copy place base base' s') :
    (claims.claim s).Copied text copy place base base' (others.claim s') where
  kept t ht := by
    rcases ClaimSet.mem_toList_claim.1 ht with ht | ⟨rfl, hlt⟩
    · obtain ⟨t', ht', hcopied⟩ := hclaims.kept t ht
      exact ⟨t', ClaimSet.mem_toList_claim.2 (.inl ht'), hcopied⟩
    · exact ⟨s', ClaimSet.mem_toList_claim.2 (.inr ⟨rfl, (h.start_lt_stop_iff hs).1 hlt⟩), hs⟩
  real t' ht' := by
    rcases ClaimSet.mem_toList_claim.1 ht' with ht' | ⟨rfl, hlt⟩
    · refine (hclaims.real t' ht').imp_right ?_
      rintro ⟨t, ht, hcopied⟩
      exact ⟨t, ClaimSet.mem_toList_claim.2 (.inl ht), hcopied⟩
    · exact .inr ⟨s, ClaimSet.mem_toList_claim.2 (.inr ⟨rfl, (h.start_lt_stop_iff hs).2 hlt⟩), hs⟩

/-- A character is claimed iff it is claimed in the copy. -/
theorem contains_eq {j : Nat} (hj : text.SolidAt j) :
    others.contains (base' + place j) = claims.contains (base + j) := by
  have hle : place 0 ≤ place j := h.mono.monotone (Nat.zero_le j)
  rw [Bool.eq_iff_iff, ClaimSet.contains_iff, ClaimSet.contains_iff]
  constructor
  · rintro ⟨s', hs', hcontains⟩
    rcases hclaims.real s' hs' with hbefore | ⟨s, hs, hcopied⟩
    -- a claim before the copy does not reach into it
    · rw [Span.contains_iff] at hcontains
      omega
    · exact ⟨s, hs, by rwa [← h.contains_span hcopied hj]⟩
  · rintro ⟨s, hs, hcontains⟩
    obtain ⟨s', hs', hcopied⟩ := hclaims.kept s hs
    exact ⟨s', hs', by rwa [h.contains_span hcopied hj]⟩

/-- A part of the text overlaps claims iff its copy does. -/
theorem overlaps_eq {j stop : Nat} (hj : text.SolidAt j) (hlt : j < stop) :
    others.overlaps (base' + place j) (base' + place stop) = claims.overlaps (base + j) (base + stop) := by
  have hle : place 0 ≤ place j := h.mono.monotone (Nat.zero_le j)
  have hlt' : place j < place stop := h.mono hlt
  rw [Bool.eq_iff_iff, ClaimSet.overlaps_iff (by omega), ClaimSet.overlaps_iff (by omega)]
  constructor
  · rintro ⟨s', hs', hoverlaps⟩
    rcases hclaims.real s' hs' with hbefore | ⟨s, hs, hcopied⟩
    · rw [Span.overlaps_iff] at hoverlaps
      omega
    · exact ⟨s, hs, by rwa [← h.overlaps_span hcopied hj]⟩
  · rintro ⟨s, hs, hoverlaps⟩
    obtain ⟨s', hs', hcopied⟩ := hclaims.kept s hs
    exact ⟨s', hs', by rwa [h.overlaps_span hcopied hj]⟩

/-- A comment is cut at the same claim, or it ends with its line in either text. -/
theorem cutAt_copied {j eol eol' : Nat} (heol : text.Stands copy place eol eol') :
    text.Stands copy place (LineRun.cutAt base claims j eol) (LineRun.cutAt base' others (place j) eol') ∧
      (LineRun.cutAt base claims j eol < eol ↔ LineRun.cutAt base' others (place j) eol' < eol') := by
  -- claims start at characters, so those that start in the line start at the places of these characters
  have hfirst : others.firstStartWithin (base' + place j) (base' + eol') =
      (claims.firstStartWithin (base + j) (base + eol)).map spot := by
    refine ClaimSet.firstStartWithin_eq_map h.spot_mono ?_ ?_
    · intro s hs hafter hbefore
      obtain ⟨s', hs', hcopied⟩ := hclaims.kept s hs
      obtain ⟨i, e, p, hi, -, -, rfl, rfl⟩ := hcopied
      have hlt := h.lt_stands_iff heol hi
      have hlt' : j < i ↔ place j < place i := h.mono.lt_iff_lt.symm
      dsimp only at hafter hbefore ⊢
      rw [h.spot_add]
      exact ⟨by omega, by omega, _, hs', rfl⟩
    · intro s' hs' hafter hbefore
      have hle : place 0 ≤ place j := h.mono.monotone (Nat.zero_le j)
      have hstop := ClaimSet.start_lt_stop_of_mem hs'
      obtain ⟨s, hs, hcopied⟩ := (hclaims.real s' hs').resolve_left (by omega)
      obtain ⟨i, e, p, hi, -, -, rfl, rfl⟩ := hcopied
      have hlt := h.lt_stands_iff heol hi
      have hlt' : j < i ↔ place j < place i := h.mono.lt_iff_lt.symm
      dsimp only at hafter hbefore
      exact ⟨_, hs, (h.spot_add i).symm, show base + j < base + i by omega,
        show base + i < base + eol by omega⟩
  rw [LineRun.cutAt, LineRun.cutAt, hfirst]
  cases hc : claims.firstStartWithin (base + j) (base + eol) with
  | none => exact ⟨heol, iff_of_false (Nat.lt_irrefl _) (Nat.lt_irrefl _)⟩
  | some c =>
    obtain ⟨hafter, hbefore, ⟨s, hs, rfl⟩, -⟩ := ClaimSet.firstStartWithin_eq_some hc
    obtain ⟨s', -, hcopied⟩ := hclaims.kept s hs
    obtain ⟨i, e, p, hi, -, -, rfl, -⟩ := hcopied
    dsimp only [Option.map_some]
    rw [h.spot_add, Nat.add_sub_cancel_left, Nat.add_sub_cancel_left]
    exact ⟨.inl rfl, h.lt_stands_iff heol hi⟩

end Text.CopiesAt

end CommentTags
