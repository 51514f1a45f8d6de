import CommentTags.Text.Basic

/-!
# Byte offsets

Hosts may count in UTF-8 bytes. `ByteOffsets` converts between the byte offsets and the character
offsets of one text, in both directions and for every argument: what lies beyond the text stands for
its end, and a byte inside a character stands for the next character.

In a text of ASCII characters both offsets are the same and no table is built.

## Main definitions

* `ByteOffsets.ofText`: the byte offsets of a text;
* `ByteOffsets.charOfByte` and `ByteOffsets.byteOfChar`: the conversions.
-/

namespace CommentTags

/-- The byte offsets of the characters of one text. -/
inductive ByteOffsets where
  /-- Every one of the `length` characters takes one byte. -/
  | ascii (length : Nat)
  /-- `starts` holds where each character starts and, last, the number of bytes `length`. -/
  | table (starts : Array Nat) (length : Nat)
deriving Repr

namespace ByteOffsets

/-- The byte offsets at which the characters of `chars` start when the first is at `offset`, followed
by the offset of the end. -/
def startsFrom (done : Array Nat) (offset : Nat) : List Char → Array Nat
  | [] => done.push offset
  | c :: rest => startsFrom (done.push offset) (offset + c.utf8Size) rest

/-- The byte offsets of `text`. -/
def ofText (text : Text) : ByteOffsets :=
  if text.all (·.toNat < 0x80) then
    ascii text.size
  else
    let starts := startsFrom #[] 0 text.toList
    table starts (starts.back?.getD 0)

/-- The number of bytes of the text. -/
def byteLength : ByteOffsets → Nat
  | ascii length => length
  | table _ length => length

/-- The number of characters that start before byte `b`. -/
def charOfByte (offsets : ByteOffsets) (b : Nat) : Nat :=
  match offsets with
  | ascii length => min b length
  | table starts length =>
    partitionPoint (fun i => starts[i]?.all (min b length ≤ ·)) 0 starts.size

/-- The byte at which the character `c` starts. -/
def byteOfChar (offsets : ByteOffsets) (c : Nat) : Nat :=
  match offsets with
  | ascii length => min c length
  | table starts length => starts[c]?.getD length

end ByteOffsets

end CommentTags
