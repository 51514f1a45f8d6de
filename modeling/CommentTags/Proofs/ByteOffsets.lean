import CommentTags.Proofs.Text
import CommentTags.Text.ByteOffsets

/-!
# Positions in characters and in bytes

Every position of a text, its end included, has a byte offset: the number of bytes of the characters before
it. Byte offsets ascend strictly, and the table of byte offsets leads back from each of them to the position it
belongs to. All other byte offsets lie inside a character.

## Main definitions

* `utf8Length`: the number of bytes of some characters;
* `ByteOffsets.Represents`: the ways to keep the byte offsets of a text;
* `Text.byteAt` and `Text.charAt`: from positions to byte offsets and back.

## Main results

* `ByteOffsets.Represents.charOfByte_le_iff`: how the conversions between positions and byte offsets are related;
* `Text.byteAt_eq`: byte offsets are numbers of bytes;
* `Text.byteAt_lt_byteAt_iff`: byte offsets ascend with the positions;
* `Text.charAt_byteAt`: the way back.
-/

namespace CommentTags

/-- The number of bytes of `chars`. -/
def utf8Length : List Char → Nat
  | [] => 0
  | c :: rest => c.utf8Size + utf8Length rest

theorem utf8Length_append (first second : List Char) :
    utf8Length (first ++ second) = utf8Length first + utf8Length second := by
  induction first with
  | nil => rw [List.nil_append, utf8Length, Nat.zero_add]
  | cons c rest ih => rw [List.cons_append, utf8Length, ih, utf8Length, Nat.add_assoc]

/-- Every character takes at least one byte. -/
theorem length_le_utf8Length (chars : List Char) : chars.length ≤ utf8Length chars := by
  induction chars with
  | nil => exact Nat.le_refl _
  | cons c rest ih =>
    have hpos := c.utf8Size_pos
    rw [utf8Length, List.length_cons]
    omega

/-- Characters that take one byte each. -/
theorem utf8Length_eq_length {chars : List Char} (h : ∀ c ∈ chars, c.utf8Size = 1) :
    utf8Length chars = chars.length := by
  induction chars with
  | nil => rfl
  | cons c rest ih =>
    rw [List.forall_mem_cons] at h
    rw [utf8Length, ih h.2, h.1, List.length_cons]
    omega

/-- Fewer characters have no more bytes. -/
theorem utf8Length_take_le {chars : List Char} {i j : Nat} (h : i ≤ j) :
    utf8Length (chars.take i) ≤ utf8Length (chars.take j) := by
  rw [← Nat.add_sub_cancel' h, List.take_add, utf8Length_append]
  exact Nat.le_add_right _ _

/-- Fewer characters have fewer bytes. -/
theorem utf8Length_take_lt {chars : List Char} {i j : Nat} (h : i < j) (hj : j ≤ chars.length) :
    utf8Length (chars.take i) < utf8Length (chars.take j) := by
  have hbytes := length_le_utf8Length ((chars.drop i).take (j - i))
  rw [List.length_take, List.length_drop] at hbytes
  rw [← Nat.add_sub_cancel' (Nat.le_of_lt h), List.take_add, utf8Length_append]
  omega

/-- The first characters have more bytes than fewer of them. -/
theorem utf8Length_take_le_iff {chars : List Char} {i j : Nat} (hi : i ≤ chars.length) :
    utf8Length (chars.take i) ≤ utf8Length (chars.take j) ↔ i ≤ j := by
  refine ⟨fun h => Nat.le_of_not_lt fun hlt => ?_, utf8Length_take_le⟩
  exact absurd (utf8Length_take_lt hlt hi) (Nat.not_lt.2 h)

/-- The number of bytes of a string is that of its characters. -/
theorem utf8Length_toList (s : String) : utf8Length s.toList = s.utf8ByteSize := by
  have hofList (chars : List Char) : (String.ofList chars).utf8ByteSize = utf8Length chars := by
    induction chars with
    | nil => rfl
    | cons c rest ih =>
      rw [String.ofList_cons, String.utf8ByteSize_append, String.utf8ByteSize_singleton, ih, utf8Length]
  rw [← hofList, String.ofList_toList]

namespace ByteOffsets

/-- The table holds an offset for every character and one for the end. -/
theorem size_startsFrom (done : Array Nat) (offset : Nat) (chars : List Char) :
    (startsFrom done offset chars).size = done.size + chars.length + 1 := by
  induction chars generalizing done offset with
  | nil => rw [startsFrom, Array.size_push, List.length_nil]
  | cons c rest ih =>
    rw [startsFrom, ih, Array.size_push, List.length_cons]
    omega

/-- What is in the table remains. -/
theorem getElem?_startsFrom_of_lt {done : Array Nat} {k : Nat} (h : k < done.size) (offset : Nat)
    (chars : List Char) : (startsFrom done offset chars)[k]? = done[k]? := by
  induction chars generalizing done offset with
  | nil => rw [startsFrom, Array.getElem?_push, if_neg (Nat.ne_of_lt h)]
  | cons c rest ih =>
    rw [startsFrom, ih (by rw [Array.size_push]; omega), Array.getElem?_push, if_neg (Nat.ne_of_lt h)]

/-- Each further offset is the number of bytes before. -/
theorem getElem?_startsFrom (done : Array Nat) (offset : Nat) {chars : List Char} {k : Nat}
    (h : k ≤ chars.length) :
    (startsFrom done offset chars)[done.size + k]? = some (offset + utf8Length (chars.take k)) := by
  induction chars generalizing done offset k with
  | nil =>
    have hzero : k = 0 := Nat.le_zero.1 h
    rw [hzero, Nat.add_zero, startsFrom, Array.getElem?_push, if_pos rfl]
    rfl
  | cons c rest ih =>
    rw [startsFrom]
    cases k with
    | zero =>
      have hlt : done.size < (done.push offset).size := by
        rw [Array.size_push]
        exact Nat.lt_succ_self _
      rw [Nat.add_zero, getElem?_startsFrom_of_lt hlt, Array.getElem?_push, if_pos rfl]
      rfl
    | succ k =>
      have hrest := ih (done.push offset) (offset + c.utf8Size) (Nat.le_of_succ_le_succ h)
      rw [Array.size_push, Nat.add_assoc, Nat.add_comm 1] at hrest
      rw [hrest, List.take_succ_cons, utf8Length, Nat.add_assoc]

variable {text : Text} {offsets : ByteOffsets}

/-- ASCII characters take one byte each. -/
theorem utf8Length_take_of_ascii (hascii : text.all (·.toNat < 0x80) = true) {i : Nat} (h : i ≤ text.size) :
    utf8Length (text.toList.take i) = i := by
  rw [utf8Length_eq_length, List.length_take, Array.length_toList, Nat.min_eq_left h]
  intro c hc
  have hmem : c ∈ text := Array.mem_toList_iff.1 (List.mem_of_mem_take hc)
  rw [Array.all_eq_true_iff_forall_mem] at hascii
  have hlt := of_decide_eq_true (hascii c hmem)
  exact Char.utf8Size_eq_one_iff.2 (UInt32.le_iff_toNat_le.2 (Nat.le_of_lt_succ hlt))

/-! ## The entries of a table -/

/-- All characters are taken. -/
theorem take_size (text : Text) : text.toList.take text.size = text.toList :=
  List.take_of_length_le (Nat.le_of_eq Array.length_toList)

/-- The number of entries of a table. -/
theorem size_starts (text : Text) : (startsFrom #[] 0 text.toList).size = text.size + 1 := by
  rw [size_startsFrom, Array.size_empty, Nat.zero_add, Array.length_toList]

/-- Up to the end, an entry of the table is the number of bytes before a position. -/
theorem getElem?_starts {i : Nat} (h : i ≤ text.size) :
    (startsFrom #[] 0 text.toList)[i]? = some (utf8Length (text.toList.take i)) := by
  have hget := @getElem?_startsFrom #[] 0 text.toList i (by rwa [Array.length_toList])
  rwa [Array.size_empty, Nat.zero_add, Nat.zero_add] at hget

/-- The last entry of a table is the number of bytes. -/
theorem back?_starts (text : Text) :
    (startsFrom #[] 0 text.toList).back?.getD 0 = utf8Length text.toList := by
  rw [Array.back?_eq_getElem?, size_starts, Nat.add_sub_cancel, getElem?_starts (Nat.le_refl _),
    Option.getD_some, take_size]

/-- The search of a table ends at a position or before it iff the position's byte offset is not below the one
looked for. -/
theorem partitionPoint_starts_le_iff (text : Text) {m : Nat} (hm : m ≤ utf8Length text.toList) (c : Nat) :
    partitionPoint (fun i => (startsFrom #[] 0 text.toList)[i]?.all (m ≤ ·)) 0
      (startsFrom #[] 0 text.toList).size ≤ c ↔ m ≤ utf8Length (text.toList.take c) := by
  rw [size_starts]
  rcases Nat.lt_or_ge text.size c with hc | hc
  -- beyond the table there are no bytes left
  · refine iff_of_true (Nat.le_trans (partitionPoint_le (Nat.zero_le _)) hc) ?_
    rwa [List.take_of_length_le (by rw [Array.length_toList]; exact Nat.le_of_lt hc)]
  · rw [partitionPoint_le_iff _ (Nat.zero_le c) (Nat.lt_succ_of_le hc), getElem?_starts hc,
      Option.all_some, decide_eq_true_eq]
    -- the entries of the table ascend
    intro i j hij hj hi
    rw [getElem?_starts (by omega), Option.all_some, decide_eq_true_eq] at hi ⊢
    exact Nat.le_trans hi (utf8Length_take_le hij)

/-! ## The conversions -/

/-- The ways to keep the byte offsets of a text. -/
inductive Represents (text : Text) : ByteOffsets → Prop
  /-- In a text of ASCII characters every character takes one byte. -/
  | ascii (h : text.all (·.toNat < 0x80) = true) : Represents text (ascii text.size)
  /-- Any text may have a table. -/
  | table : Represents text
      (table (startsFrom #[] 0 text.toList) ((startsFrom #[] 0 text.toList).back?.getD 0))

/-- The byte offsets of a text are kept in one of these ways. -/
theorem represents_ofText (text : Text) : Represents text (ofText text) := by
  rw [ofText]
  split
  · next hascii => exact .ascii hascii
  · exact .table

namespace Represents

/-- The number of bytes is known. -/
theorem byteLength_eq (h : offsets.Represents text) : offsets.byteLength = utf8Length text.toList := by
  cases h with
  | ascii hascii =>
    rw [← take_size, utf8Length_take_of_ascii hascii (Nat.le_refl _)]
    rfl
  | table => exact back?_starts text

/-- A position is converted to the number of bytes before it. -/
theorem byteOfChar_eq (h : offsets.Represents text) (c : Nat) :
    offsets.byteOfChar c = utf8Length (text.toList.take c) := by
  have hlength := h.byteLength_eq
  rcases Nat.lt_or_ge c text.size with hc | hc
  · cases h with
    | ascii hascii =>
      rw [utf8Length_take_of_ascii hascii (Nat.le_of_lt hc)]
      exact Nat.min_eq_left (Nat.le_of_lt hc)
    | table =>
      show (startsFrom #[] 0 text.toList)[c]?.getD _ = _
      rw [getElem?_starts (Nat.le_of_lt hc), Option.getD_some]
  -- beyond the last character all bytes come before
  · rw [List.take_of_length_le (by rwa [Array.length_toList]), ← hlength]
    cases h with
    | ascii hascii => exact Nat.min_eq_right hc
    | table =>
      show (startsFrom #[] 0 text.toList)[c]?.getD _ = (startsFrom #[] 0 text.toList).back?.getD 0
      rcases Nat.eq_or_lt_of_le hc with rfl | hlt
      · rw [getElem?_starts (Nat.le_refl _), Option.getD_some, back?_starts, take_size]
      · rw [Array.getElem?_eq_none (by rw [size_starts]; exact hlt), Option.getD_none]

/-- No more characters start before a byte offset than before a position iff the byte offset is not beyond that of
the position. -/
theorem charOfByte_le_iff (h : offsets.Represents text) (b c : Nat) :
    offsets.charOfByte b ≤ c ↔ min b (utf8Length text.toList) ≤ utf8Length (text.toList.take c) := by
  have hlength := h.byteLength_eq
  have hbyte := h.byteOfChar_eq c
  cases h with
  | ascii hascii =>
    rw [← hlength, ← hbyte]
    show min b text.size ≤ c ↔ min b text.size ≤ min c text.size
    omega
  | table =>
    rw [← back?_starts]
    exact partitionPoint_starts_le_iff text (back?_starts text ▸ Nat.min_le_right _ _) c

/-- From the byte offset of a position the way leads back to the position, and from beyond the text to its end. -/
theorem charOfByte_byteOfChar (h : offsets.Represents text) (c : Nat) :
    offsets.charOfByte (offsets.byteOfChar c) = min c text.size := by
  have hclamp : utf8Length (text.toList.take c) = utf8Length (text.toList.take (min c text.size)) := by
    rw [← List.take_take, take_size]
  have hall : utf8Length (text.toList.take (min c text.size)) ≤ utf8Length text.toList := by
    have htake := @utf8Length_take_le text.toList _ _ (Nat.min_le_right c text.size)
    rwa [take_size] at htake
  have hle (d : Nat) : offsets.charOfByte (offsets.byteOfChar c) ≤ d ↔ min c text.size ≤ d := by
    rw [h.charOfByte_le_iff, h.byteOfChar_eq, hclamp, Nat.min_eq_left hall,
      utf8Length_take_le_iff (by rw [Array.length_toList]; exact Nat.min_le_right _ _)]
  exact Nat.le_antisymm ((hle _).2 (Nat.le_refl _)) ((hle _).1 (Nat.le_refl _))

end Represents

end ByteOffsets

namespace Text

variable {text : Text} {i j : Nat}

/-- The byte offset of the position `i`. -/
def byteAt (text : Text) (i : Nat) : Nat :=
  (ByteOffsets.ofText text).byteOfChar i

/-- The position of the byte offset `b`; if it is inside a character, the next one. -/
def charAt (text : Text) (b : Nat) : Nat :=
  (ByteOffsets.ofText text).charOfByte b

/-- The number of bytes of the text. -/
def byteLength (text : Text) : Nat :=
  (ByteOffsets.ofText text).byteLength

/-- The byte offset of a position is the number of bytes before it. -/
theorem byteAt_eq (text : Text) (i : Nat) : text.byteAt i = utf8Length (text.toList.take i) :=
  (ByteOffsets.represents_ofText text).byteOfChar_eq i

/-- The number of bytes of a text is that of its characters. -/
theorem byteLength_eq (text : Text) : text.byteLength = utf8Length text.toList :=
  (ByteOffsets.represents_ofText text).byteLength_eq

theorem byteAt_zero (text : Text) : text.byteAt 0 = 0 :=
  text.byteAt_eq 0

/-- The byte offset of the end is the number of bytes of the text. -/
theorem byteAt_size (text : Text) : text.byteAt text.size = text.byteLength := by
  rw [byteAt_eq, ByteOffsets.take_size, byteLength_eq]

theorem byteLength_ofString (s : String) : (ofString s).byteLength = s.utf8ByteSize :=
  (byteLength_eq _).trans (utf8Length_toList s)

/-- Between two positions lie the bytes of the characters between them. -/
theorem byteAt_eq_add (hij : i ≤ j) :
    text.byteAt j = text.byteAt i + utf8Length ((text.toList.drop i).take (j - i)) := by
  rw [byteAt_eq, byteAt_eq, ← utf8Length_append, ← List.take_add, Nat.add_sub_cancel' hij]

/-- Byte offsets ascend. -/
theorem byteAt_le_byteAt (hij : i ≤ j) : text.byteAt i ≤ text.byteAt j := by
  rw [byteAt_eq, byteAt_eq]
  exact utf8Length_take_le hij

theorem byteAt_lt_byteAt (hij : i < j) (hj : j ≤ text.size) : text.byteAt i < text.byteAt j := by
  rw [byteAt_eq, byteAt_eq]
  exact utf8Length_take_lt hij (by rwa [Array.length_toList])

/-- The order of byte offsets is that of the positions. -/
theorem byteAt_lt_byteAt_iff (hj : j ≤ text.size) : text.byteAt i < text.byteAt j ↔ i < j := by
  refine ⟨fun h => Nat.lt_of_not_le fun hle => ?_, fun h => byteAt_lt_byteAt h hj⟩
  exact absurd (byteAt_le_byteAt hle) (Nat.not_le.2 h)

theorem byteAt_le_byteAt_iff (hi : i ≤ text.size) : text.byteAt i ≤ text.byteAt j ↔ i ≤ j := by
  rw [← Nat.not_lt, byteAt_lt_byteAt_iff hi, Nat.not_lt]

theorem byteAt_le_byteLength (hi : i ≤ text.size) : text.byteAt i ≤ text.byteLength := by
  rw [← byteAt_size]
  exact byteAt_le_byteAt hi

/-- The later one of two positions has the greater byte offset. -/
theorem max_byteAt (i j : Nat) : max (text.byteAt i) (text.byteAt j) = text.byteAt (max i j) := by
  rcases Nat.le_total i j with hle | hle
  · rw [Nat.max_eq_right hle, Nat.max_eq_right (byteAt_le_byteAt hle)]
  · rw [Nat.max_eq_left hle, Nat.max_eq_left (byteAt_le_byteAt hle)]

/-- From the byte offset of a position the table leads back to the position. -/
theorem charAt_byteAt (hi : i ≤ text.size) : text.charAt (text.byteAt i) = i := by
  rw [charAt, byteAt, (ByteOffsets.represents_ofText text).charOfByte_byteOfChar, Nat.min_eq_left hi]

/-! ## Literals and blanks -/

/-- A literal takes as many bytes in the text as by itself. -/
theorem byteAt_add_length {literal : List Char} (hocc : text.occursAt literal i = true) :
    text.byteAt (i + literal.length) = text.byteAt i + utf8Length literal := by
  have hpart : (text.toList.drop i).take literal.length = literal := by
    refine List.ext_getElem? fun k => ?_
    rw [List.getElem?_take, List.getElem?_drop, Array.getElem?_toList]
    split
    · next hk =>
      rw [List.getElem?_eq_getElem hk]
      exact occursAt_iff.1 hocc k _ (List.getElem?_eq_getElem hk)
    · next hk => rw [List.getElem?_eq_none (Nat.le_of_not_lt hk)]
  rw [byteAt_eq_add (Nat.le_add_right _ _), Nat.add_sub_cancel_left, hpart]

/-- Blanks take one byte each. -/
theorem byteAt_of_blanks (hij : i ≤ j) (hj : j ≤ text.size)
    (hblanks : ∀ k, i ≤ k → k < j → text.blankAt k = true) :
    text.byteAt j = text.byteAt i + (j - i) := by
  rw [byteAt_eq_add hij, utf8Length_eq_length, List.length_take, List.length_drop,
    Array.length_toList, Nat.min_eq_left (by omega)]
  intro c hc
  obtain ⟨k, hk⟩ := List.mem_iff_getElem?.1 hc
  rw [List.getElem?_take, List.getElem?_drop, Array.getElem?_toList] at hk
  split at hk
  · next hlt =>
    have hblank := hblanks (i + k) (Nat.le_add_right _ _) (by omega)
    rw [blankAt, hk, Option.any_some, isBlank, Bool.or_eq_true, beq_iff_eq, beq_iff_eq] at hblank
    rcases hblank with rfl | rfl <;> rfl
  · cases hk

end Text

end CommentTags
