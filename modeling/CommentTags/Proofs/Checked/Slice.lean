import CommentTags.Proofs.ByteOffsets
import CommentTags.Scan.CommentLine

/-!
# Slices of a text by bytes

A scan that addresses its text by bytes may go wrong: a slice may end before it starts, lie outside the text or
cut a character in two, a sum may exceed a machine word, and a loop may come back to where it was. The modules
below go through a scan once more, step by step, with byte offsets in place of positions and with a fault
wherever something goes wrong. They show that nothing ever does, and that the outcome is that of the scan.

This module has what can be asked of a slice. All answers are in bytes and count from the start of the slice.

## Main definitions

* `IndexFault`: what may go wrong;
* `Checked.add`, `Checked.sub` and `Checked.slice`: the operations that may go wrong;
* `Checked.Fits`: a text at its place in a document, all of whose offsets are machine words.

## Main results

* `Checked.slice_byteAt`: between two positions in order there is a slice.
-/

namespace CommentTags

/-- What may go wrong in a scan that addresses its text by bytes. -/
inductive IndexFault where
  /-- A slice ends before it starts, lies outside the text, or cuts a character. -/
  | slice
  /-- A sum is no machine word, or a difference is negative. -/
  | overflow
  /-- A loop does not get further, or it gets beyond its text. -/
  | stuck
deriving DecidableEq, Repr

/-- The byte offset `b` does not lie inside a character. -/
def Text.IsBoundary (text : Text) (b : Nat) : Prop :=
  ∃ i, i ≤ text.size ∧ text.byteAt i = b

instance (text : Text) (b : Nat) : Decidable (text.IsBoundary b) :=
  inferInstanceAs (Decidable (∃ i, i ≤ text.size ∧ _))

namespace Checked

/-- A part of a text, held by the positions of its ends. -/
structure Slice (text : Text) where
  /-- Where the slice starts. -/
  start : Nat
  /-- Where the slice ends. -/
  stop : Nat
deriving DecidableEq, Repr

/-- A sum of machine words. -/
def add (a b : Nat) : Except IndexFault Nat :=
  if a + b < UInt64.size then .ok (a + b) else .error .overflow

/-- A difference of machine words. -/
def sub (a b : Nat) : Except IndexFault Nat :=
  if b ≤ a then .ok (a - b) else .error .overflow

/-- The slice between two byte offsets. -/
def slice (text : Text) (start stop : Nat) : Except IndexFault (Slice text) :=
  if start ≤ stop ∧ stop ≤ text.byteLength ∧ text.IsBoundary start ∧ text.IsBoundary stop then
    .ok ⟨text.charAt start, text.charAt stop⟩
  else
    .error .slice

/-- The offset in its document of a byte offset of a text that starts at `base`. -/
def charOffset (text : Text) (base b : Nat) : Except IndexFault Nat :=
  add base (text.charAt b)

/-- The byte offset in a text that starts at `base` of an offset in its document. -/
def byteOffset (text : Text) (base c : Nat) : Nat :=
  text.byteAt (c - base)

namespace Slice

variable {text : Text} (s : Slice text)

/-- The number of bytes up to the position `i`. -/
def upTo (i : Nat) : Nat :=
  text.byteAt i - text.byteAt s.start

/-- The number of bytes. -/
def length : Nat :=
  s.upTo s.stop

/-- Where `literal` occurs first. -/
def find? (literal : List Char) : Option Nat :=
  (text.find? literal s.start s.stop).map s.upTo

/-- The slice starts with `literal`. -/
def startsWith (literal : List Char) : Bool :=
  s.start + literal.length ≤ s.stop && text.occursAt literal s.start

/-- The slice ends with a blank. -/
def endsWithBlank : Bool :=
  s.start < s.stop && text.blankAt (s.stop - 1)

/-- The slice without the blank that it starts with. -/
def stripBlank? : Option (Slice text) :=
  if s.start < s.stop && text.blankAt s.start then some ⟨s.start + 1, s.stop⟩ else none

/-- How many blanks the slice starts with. -/
def leadingBlanks : Nat :=
  s.upTo (text.skipBlanks s.start s.stop)

/-- The number of bytes without the white space at the end. -/
def trimmedLength : Nat :=
  s.upTo (text.trimEnd s.start s.stop)

/-- The slice without the repetitions of `c` that it starts with. -/
def trimStart (c : Char) : Slice text :=
  ⟨text.skipChar c s.start s.stop, s.stop⟩

/-- The slice without the repetitions of `c` that it ends with. -/
def trimEnd (c : Char) : Slice text :=
  ⟨s.start, text.dropEndWhile (· == c) s.start s.stop⟩

/-- How long the name is that the slice starts with. -/
def nameLength? (names : TagAlternation) : Option Nat :=
  (names.matchAt? text s.start s.stop).map fun length => s.upTo (s.start + length)

/-- How long the tag is, of either tier, that the slice starts with. -/
def tagLength? (matchers : Matchers) : Option Nat :=
  (matchers.multiline.bind s.nameLength?).or (matchers.line.bind s.nameLength?)

end Slice

/-! ## Nothing goes wrong -/

/-- A text and its place in a document: all offsets are machine words. -/
structure Fits (text : Text) (base : Nat) : Prop where
  /-- In bytes. -/
  bytes : text.byteLength < UInt64.size
  /-- In characters, from the start of the document. -/
  chars : base + text.size < UInt64.size

variable {text : Text} {base i j : Nat}

/-- A step that does not go wrong is followed by the next one. -/
theorem ok_bind {α β : Type} (a : α) (f : α → Except IndexFault β) : (Except.ok a >>= f) = f a :=
  rfl

/-- A step for each of several things, none of which goes wrong. -/
theorem mapM_of_ok {α β : Type} {f : α → Except IndexFault β} {g : α → β} {xs : List α}
    (h : ∀ x ∈ xs, f x = .ok (g x)) : xs.mapM f = .ok (xs.map g) := by
  induction xs with
  | nil => rfl
  | cons x rest ih =>
    obtain ⟨hx, hrest⟩ := List.forall_mem_cons.1 h
    rw [List.mapM_cons, hx, ok_bind, ih hrest, ok_bind]
    rfl

/-- Between two positions in order there is a slice. -/
theorem slice_byteAt (hij : i ≤ j) (hj : j ≤ text.size) :
    slice text (text.byteAt i) (text.byteAt j) = .ok ⟨i, j⟩ := by
  have hi := Nat.le_trans hij hj
  rw [slice, if_pos ⟨Text.byteAt_le_byteAt hij, Text.byteAt_le_byteLength hj, ⟨i, hi, rfl⟩, ⟨j, hj, rfl⟩⟩,
    Text.charAt_byteAt hi, Text.charAt_byteAt hj]

-- the second character takes the bytes 1 and 2, and its middle is no position
example : slice (Text.ofString "aéb") 1 3 = .ok ⟨1, 2⟩ := by with_unfolding_all rfl

example : slice (Text.ofString "aéb") 1 2 = .error .slice := by with_unfolding_all rfl

/-- From a position on there is a slice. -/
theorem slice_byteLength (hi : i ≤ text.size) :
    slice text (text.byteAt i) text.byteLength = .ok ⟨i, text.size⟩ := by
  rw [← Text.byteAt_size]
  exact slice_byteAt hi (Nat.le_refl _)

/-- A sum that is the byte offset of a position is a machine word. -/
theorem Fits.add_eq (hfits : Fits text base) {a b : Nat} (hj : j ≤ text.size) (h : a + b = text.byteAt j) :
    add a b = .ok (text.byteAt j) := by
  have hle := Text.byteAt_le_byteLength hj
  have hlt := hfits.bytes
  rw [add, h, if_pos (by omega)]

/-- From a position to a later one. -/
theorem Fits.add_upTo (hfits : Fits text base) (hij : i ≤ j) (hj : j ≤ text.size) (stop : Nat) :
    add (text.byteAt i) ((⟨i, stop⟩ : Slice text).upTo j) = .ok (text.byteAt j) := by
  refine hfits.add_eq hj ?_
  exact Nat.add_sub_cancel' (Text.byteAt_le_byteAt hij)

/-- From the start of a literal to its end. -/
theorem Fits.add_utf8Length (hfits : Fits text base) {literal : List Char}
    (hocc : text.occursAt literal i = true) (hi : i ≤ text.size) :
    add (text.byteAt i) (utf8Length literal) = .ok (text.byteAt (i + literal.length)) :=
  hfits.add_eq (Text.add_length_le_of_occursAt hocc hi) (Text.byteAt_add_length hocc).symm

/-- From the end of a slice back to its start. -/
theorem sub_length (hij : i ≤ j) :
    sub (text.byteAt j) (⟨i, j⟩ : Slice text).length = .ok (text.byteAt i) := by
  rw [sub, Slice.length, Slice.upTo, if_pos (Nat.sub_le _ _), Nat.sub_sub_self (Text.byteAt_le_byteAt hij)]

/-- The offset of a position in its document. -/
theorem Fits.charOffset_byteAt (hfits : Fits text base) (hi : i ≤ text.size) :
    charOffset text base (text.byteAt i) = .ok (base + i) := by
  have hlt := hfits.chars
  rw [charOffset, Text.charAt_byteAt hi, add, if_pos (by omega)]

end Checked

end CommentTags
