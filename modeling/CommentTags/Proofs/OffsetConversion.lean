import CommentTags.Proofs.ByteOffsets
import Mathlib.Data.Nat.Count
import Mathlib.Order.Monotone.Defs

/-!
# Conversions between bytes and characters

A text of ASCII characters needs no table of byte offsets, and any text may have one. Both ways to keep byte
offsets give the same conversions. A byte offset is converted to the number of characters that start before it,
a position to the number of bytes before it, and arguments beyond the text stand for its end. The first conversion
stays below a position iff the byte offset does not exceed what the second one makes of the position, and all that
relates the two follows.

## Main definitions

* `charsBefore`: the number of characters that start before a byte offset;
* `SearchAnswers`: what a search for a number in an ascending table may answer.

## Main results

* `ByteOffsets.Represents.searchAnswers_iff`: a search of the table has one answer;
* `ByteOffsets.conversions_of_represents`: what the conversions give.
-/

namespace CommentTags

/-- The number of characters that start before the byte `b`. -/
def charsBefore (chars : List Char) (b : Nat) : Nat :=
  Nat.count (fun i => utf8Length (chars.take i) < b) chars.length

/-- What a search for `x` in ascending numbers may answer: a place where `x` is, or, if there is none, the place
where `x` could be put in. -/
def SearchAnswers (xs : Array Nat) (x i : Nat) : Prop :=
  xs[i]? = some x ∨
    x ∉ xs ∧ i ≤ xs.size ∧ (∀ j y, j < i → xs[j]? = some y → y < x) ∧
      ∀ j y, i ≤ j → xs[j]? = some y → x < y

/-- Where numbers ascend, a search for `x` has one answer, the place of the first number that is not less. -/
theorem searchAnswers_iff_eq {xs : Array Nat} {x k y i : Nat} (hk : xs[k]? = some y) (hle : x ≤ y)
    (hbelow : ∀ j z, j < k → xs[j]? = some z → z < x)
    (hascending : ∀ i j a b : Nat, i < j → xs[i]? = some a → xs[j]? = some b → a < b) :
    SearchAnswers xs x i ↔ i = k := by
  constructor
  · rintro (hx | ⟨-, -, hless, hgreater⟩)
    -- a place of `x` is not before the first number that is not less, nor behind it
    · rcases Nat.lt_trichotomy i k with hlt | heq | hlt
      · exact absurd (hbelow i x hlt hx) (Nat.lt_irrefl x)
      · exact heq
      · exact absurd (hascending k i y x hlt hk hx) (Nat.not_lt.2 hle)
    · rcases Nat.lt_trichotomy i k with hlt | heq | hlt
      · obtain ⟨z, hz⟩ : ∃ z, xs[i]? = some z :=
          ⟨_, Array.getElem?_eq_getElem (Nat.lt_trans hlt (Array.getElem?_eq_some_iff.1 hk).1)⟩
        exact absurd (hgreater i z (Nat.le_refl i) hz) (Nat.lt_asymm (hbelow i z hlt hz))
      · exact heq
      · exact absurd (hless k y hlt hk) (Nat.not_lt.2 hle)
  · rintro rfl
    rcases Nat.eq_or_lt_of_le hle with rfl | hlt
    · exact .inl hk
    · have hgreater (j z : Nat) (hj : i ≤ j) (hz : xs[j]? = some z) : x < z := by
        rcases Nat.eq_or_lt_of_le hj with rfl | hij
        · rw [hk] at hz
          cases hz
          exact hlt
        · exact Nat.lt_trans hlt (hascending i j y z hij hk hz)
      refine .inr ⟨fun hmem => ?_, Nat.le_of_lt (Array.getElem?_eq_some_iff.1 hk).1, hbelow, hgreater⟩
      obtain ⟨j, hj⟩ := Array.getElem?_of_mem hmem
      rcases Nat.lt_or_ge j i with hji | hij
      · exact Nat.lt_irrefl x (hbelow j x hji hj)
      · exact Nat.lt_irrefl x (hgreater j x hij hj)

namespace ByteOffsets

namespace Represents

variable {text : Text} {offsets : ByteOffsets}

/-- No byte offset is converted to a position beyond the end. -/
theorem charOfByte_le_size (h : offsets.Represents text) (b : Nat) : offsets.charOfByte b ≤ text.size := by
  rw [h.charOfByte_le_iff, take_size]
  exact Nat.min_le_right _ _

/-- A byte offset is converted to the number of characters that start before it. -/
theorem charOfByte_eq (h : offsets.Represents text) (b : Nat) :
    offsets.charOfByte b = charsBefore text.toList (min b (utf8Length text.toList)) := by
  have hstarts (c : Nat) : utf8Length (text.toList.take c) < min b (utf8Length text.toList) ↔
      c < offsets.charOfByte b := by
    rw [← Nat.not_le, ← h.charOfByte_le_iff, Nat.not_le]
  rw [charsBefore, Array.length_toList]
  simp only [hstarts]
  -- the positions below the answer count, and no others
  obtain ⟨rest, hrest⟩ := Nat.exists_eq_add_of_le (h.charOfByte_le_size b)
  rw [hrest, Nat.count_add, Nat.count_iff_forall.2 fun _ hc => hc,
    Nat.count_iff_forall_not.2 fun c _ => Nat.not_lt.2 (Nat.le_add_right _ c), Nat.add_zero]

/-- A later byte offset is not converted to an earlier position. -/
theorem monotone_charOfByte (h : offsets.Represents text) : Monotone offsets.charOfByte := by
  intro a b hab
  rw [h.charOfByte_le_iff]
  exact Nat.le_trans (Nat.le_min.2 ⟨Nat.le_trans (Nat.min_le_left _ _) hab, Nat.min_le_right _ _⟩)
    ((h.charOfByte_le_iff b _).1 (Nat.le_refl _))

/-- A later position is not converted to an earlier byte offset. -/
theorem monotone_byteOfChar (h : offsets.Represents text) : Monotone offsets.byteOfChar := by
  intro a b hab
  rw [h.byteOfChar_eq, h.byteOfChar_eq]
  exact utf8Length_take_le hab

/-- From a position the way leads back to its byte offset. -/
theorem byteOfChar_charOfByte (h : offsets.Represents text) {c : Nat} (hc : c ≤ text.size) :
    offsets.byteOfChar (offsets.charOfByte (utf8Length (text.toList.take c))) =
      utf8Length (text.toList.take c) := by
  rw [← h.byteOfChar_eq c, h.charOfByte_byteOfChar, Nat.min_eq_left hc]

/-- An entry of a table is the byte offset of a position. -/
theorem getElem?_starts_eq_some_iff {j y : Nat} :
    (startsFrom #[] 0 text.toList)[j]? = some y ↔ j ≤ text.size ∧ y = utf8Length (text.toList.take j) := by
  rcases Nat.lt_or_ge text.size j with hj | hj
  · rw [Array.getElem?_eq_none (by rw [size_starts]; exact hj)]
    exact iff_of_false (fun h => by cases h) fun h => absurd h.1 (Nat.not_le.2 hj)
  · rw [getElem?_starts hj, Option.some.injEq, eq_comm]
    exact (and_iff_right hj).symm

/-- The search of a table has one answer, the position that the byte offset is converted to. -/
theorem searchAnswers_iff {starts : Array Nat} {length : Nat}
    (h : Represents text (.table starts length)) (b i : Nat) :
    SearchAnswers starts (min b length) i ↔ i = (ByteOffsets.table starts length).charOfByte b := by
  have hlength : length = utf8Length text.toList := h.byteLength_eq
  have hle := h.charOfByte_le_iff b
  have hsize := h.charOfByte_le_size b
  rw [← hlength] at hle
  obtain rfl : starts = startsFrom #[] 0 text.toList := by
    cases h
    rfl
  refine searchAnswers_iff_eq (getElem?_starts_eq_some_iff.2 ⟨hsize, rfl⟩) ((hle _).1 (Nat.le_refl _)) ?_ ?_
  · intro j y hj hy
    obtain ⟨-, rfl⟩ := getElem?_starts_eq_some_iff.1 hy
    exact Nat.lt_of_not_le fun hm => absurd ((hle j).2 hm) (Nat.not_le.2 hj)
  · intro j k y z hjk hy hz
    obtain ⟨-, rfl⟩ := getElem?_starts_eq_some_iff.1 hy
    obtain ⟨hk, rfl⟩ := getElem?_starts_eq_some_iff.1 hz
    exact utf8Length_take_lt hjk (by rwa [Array.length_toList])

end Represents

/-- Each boundary between characters of a string is the byte offset of a position. -/
theorem exists_take_of_isValid {s : String} {b : Nat} (h : String.Pos.Raw.IsValid s ⟨b⟩) :
    ∃ c, c ≤ s.length ∧ b = utf8Length (s.toList.take c) := by
  obtain ⟨front, back, rfl, hfront⟩ := String.Pos.Raw.isValid_iff_exists_append.1 h
  refine ⟨front.length, ?_, ?_⟩
  · rw [String.length_append]
    exact Nat.le_add_right _ _
  · rw [String.toList_append, List.take_left', utf8Length_toList]
    · exact congrArg String.Pos.Raw.byteIdx hfront
    · exact String.length_toList

/-- A text of ASCII characters may be kept with a table or without, any other text has a table. Each way gives the
same conversions, for all arguments: a byte offset, be it beyond the text, is converted to the number of characters
that start before it, and a position to its byte offset. Both conversions are monotone. They lead back from any
position in the text and from any boundary between characters. A search of the table has one answer. -/
theorem conversions_of_represents (s : String) :
    Represents (Text.ofString s) (ofText (Text.ofString s)) ∧
      ∀ offsets, Represents (Text.ofString s) offsets →
        (∀ b, offsets.charOfByte b = charsBefore s.toList (min b s.utf8ByteSize)) ∧
        (∀ c, offsets.byteOfChar c =
          if c < s.length then utf8Length (s.toList.take c) else s.utf8ByteSize) ∧
        Monotone offsets.charOfByte ∧ Monotone offsets.byteOfChar ∧
        (∀ c, offsets.charOfByte (offsets.byteOfChar c) = min c s.length) ∧
        (∀ b, String.Pos.Raw.IsValid s ⟨b⟩ → offsets.byteOfChar (offsets.charOfByte b) = b) ∧
        ∀ starts length, offsets = table starts length →
          ∀ b i, SearchAnswers starts (min b length) i ↔ i = offsets.charOfByte b := by
  refine ⟨represents_ofText _, fun offsets h => ?_⟩
  rw [← utf8Length_toList]
  refine ⟨h.charOfByte_eq, fun c => ?_, h.monotone_charOfByte, h.monotone_byteOfChar,
    h.charOfByte_byteOfChar, fun b hb => ?_, ?_⟩
  · rw [h.byteOfChar_eq]
    split
    · rfl
    · next hc =>
      have hall : s.toList.take c = s.toList :=
        List.take_of_length_le (by rw [String.length_toList]; exact Nat.le_of_not_lt hc)
      exact congrArg utf8Length hall
  · obtain ⟨c, hc, rfl⟩ := exists_take_of_isValid hb
    exact h.byteOfChar_charOfByte hc
  · rintro starts length rfl
    exact h.searchAnswers_iff

/-- A character of two bytes between two of one byte: a byte offset inside it and one beyond the text. With the
table that it does not need, an ASCII text has the conversions that it has without. -/
theorem conversions_of_represents_multibyte :
    let offsets := ofText (Text.ofString "aéb")
    let unused := table #[0, 1, 2] 2
    Represents (Text.ofString "aéb") offsets ∧ Represents (Text.ofString "ab") unused ∧
      ofText (Text.ofString "ab") = ascii 2 ∧
      String.Pos.Raw.IsValid "aéb" ⟨3⟩ ∧ offsets.byteOfChar (offsets.charOfByte 3) = 3 ∧
      offsets.charOfByte 2 = 2 ∧ offsets.charOfByte (UInt64.size - 1) = 3 ∧
      SearchAnswers #[0, 1, 2] (min 1 2) 1 ∧ unused.charOfByte 1 = (ascii 2).charOfByte 1 := by
  intro offsets unused
  have hoffsets : Represents (Text.ofString "aéb") offsets := represents_ofText _
  have hunused : Represents (Text.ofString "ab") unused := .table
  have hvalid : String.Pos.Raw.IsValid "aéb" ⟨3⟩ :=
    String.Pos.Raw.isValid_iff_exists_append.2 ⟨"aé", "b", rfl, rfl⟩
  obtain ⟨hcount, -, -, -, -, hboundary, -⟩ := (conversions_of_represents "aéb").2 offsets hoffsets
  have hsearch := ((conversions_of_represents "ab").2 unused hunused).2.2.2.2.2.2 #[0, 1, 2] 2 rfl 1 1
  have hone : unused.charOfByte 1 = 1 := by decide +kernel
  refine ⟨hoffsets, hunused, by with_unfolding_all rfl, hvalid, hboundary 3 hvalid, ?_, ?_,
    hsearch.2 hone.symm, hone⟩
  · exact (hcount 2).trans (by decide)
  · exact (hcount (UInt64.size - 1)).trans (by decide)

end ByteOffsets

end CommentTags
