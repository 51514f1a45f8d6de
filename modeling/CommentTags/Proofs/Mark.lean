import CommentTags.Proofs.Text
import CommentTags.Scan.Matchers

/-!
# Where marks do not overlap

A mark without blanks and line feeds leaves no room for another comment to open inside it: an opening
mark stands at the start of a line or after a blank, and no position inside such a mark, or right after
it, does.

## Main definitions

* `Mark.Compact`: the mark contains neither a blank nor a line feed.

## Main results

* `Mark.Compact.not_anchored`: no position inside a compact mark is anchored;
* `Mark.Compact.lt_of_anchored`: an anchored position after the start of a compact mark lies beyond the
  mark.
-/

namespace CommentTags

/-- The mark contains no space, no tab and no line feed. -/
def Mark.Compact (mark : Mark) : Prop :=
  ∀ c ∈ mark.chars, isBlank c = false ∧ c ≠ '\n'

instance (mark : Mark) : Decidable mark.Compact :=
  decidable_of_iff (mark.chars.all fun c => !isBlank c && c != '\n') (by simp [Mark.Compact])

namespace Text

variable {text : Text}

/-- A position after the start of the text that is anchored follows a blank or a line feed. -/
theorem anchored_iff_of_pos {i : Nat} (h : 0 < i) :
    text.anchored i = true ↔ text[i - 1]? = some '\n' ∨ text.blankAt (i - 1) = true := by
  rw [anchored, Bool.or_eq_true, startsLine, followsBlank, Bool.or_eq_true, Bool.and_eq_true,
    beq_iff_eq, beq_iff_eq, decide_eq_true_eq]
  constructor
  · rintro ((rfl | hn) | ⟨-, hb⟩)
    · exact absurd h (Nat.lt_irrefl 0)
    · exact .inl hn
    · exact .inr hb
  · rintro (hn | hb)
    · exact .inl (.inr hn)
    · exact .inr ⟨h, hb⟩

/-- A mark that may open a comment in the rest of the text is anchored. -/
theorem anchored_of_freeAt {pos i : Nat} (h : text.freeAt pos i = true) : text.anchored i = true := by
  rw [freeAt, Bool.or_eq_true, Bool.and_eq_true] at h
  rw [anchored, Bool.or_eq_true]
  rcases h with h | ⟨-, h⟩
  · exact .inl h
  · exact .inr h

/-- Beyond `pos` every anchored position is free. -/
theorem freeAt_of_lt {pos i : Nat} (h : text.anchored i = true) (hlt : pos < i) :
    text.freeAt pos i = true := by
  rw [anchored, Bool.or_eq_true] at h
  rw [freeAt, Bool.or_eq_true, Bool.and_eq_true, decide_eq_true_eq]
  rcases h with h | h
  · exact .inl h
  · exact .inr ⟨hlt, h⟩

/-- When the whole text is looked at, every anchored position is free. -/
theorem freeAt_zero {i : Nat} (h : text.anchored i = true) : text.freeAt 0 i = true := by
  cases i with
  | zero => rfl
  | succ i => exact freeAt_of_lt h (Nat.succ_pos i)

end Text

/-- A mark that stands in a text ends within it. -/
theorem Mark.add_length_le_of_occursAt {text : Text} (mark : Mark) {i : Nat}
    (h : text.occursAt mark.chars i = true) : i + mark.length ≤ text.size := by
  obtain ⟨c, hc⟩ : ∃ c, mark.chars[0]? = some c := ⟨_, List.getElem?_eq_getElem mark.length_pos⟩
  have hin := Text.occursAt_iff.1 h 0 c hc
  exact Text.add_length_le_of_occursAt h (Nat.le_of_lt (Array.getElem?_eq_some_iff.1 hin).1)

namespace Mark.Compact

variable {text : Text} {mark : Mark}

/-- The characters of a compact mark that stands in a text are no blanks and no line feeds. -/
theorem not_blankAt (hmark : mark.Compact) {i p : Nat} (hocc : text.occursAt mark.chars i = true)
    (h₁ : i ≤ p) (h₂ : p < i + mark.length) : text.blankAt p = false ∧ text[p]? ≠ some '\n' := by
  have hlt : p - i < mark.chars.length := by
    rw [Mark.length] at h₂
    omega
  have hp : text[p]? = some mark.chars[p - i] := by
    rw [Text.getElem?_of_occursAt hocc h₁ h₂, List.getElem?_eq_getElem hlt]
  obtain ⟨hblank, hnewline⟩ := hmark _ (List.getElem_mem hlt)
  constructor
  · rw [Text.blankAt, hp, Option.any_some]
    exact hblank
  · rw [hp]
    intro h
    exact hnewline (Option.some.inj h)

/-- No comment opens inside a compact mark or right after it. -/
theorem not_anchored (hmark : mark.Compact) {i p : Nat} (hocc : text.occursAt mark.chars i = true)
    (h₁ : i < p) (h₂ : p ≤ i + mark.length) : text.anchored p = false := by
  -- the character before `p` belongs to the mark
  obtain ⟨hblank, hnewline⟩ := hmark.not_blankAt hocc (p := p - 1) (by omega) (by omega)
  rw [← Bool.not_eq_true, Text.anchored_iff_of_pos (by omega)]
  rintro (h | h)
  · exact hnewline h
  · rw [hblank] at h
    cases h

/-- An anchored position after the start of a compact mark lies beyond the mark, where it is free to
whoever goes on looking from the end of the mark. -/
theorem lt_of_anchored (hmark : mark.Compact) {i p : Nat} (hocc : text.occursAt mark.chars i = true)
    (h : text.anchored p = true) (hlt : i < p) : i + mark.length < p := by
  refine Nat.lt_of_not_le fun hle => ?_
  rw [hmark.not_anchored hocc hlt hle] at h
  cases h

end Mark.Compact

end CommentTags
