import CommentTags.Json.Fault

/-!
# Strings of a JSON text

A string ends at the first quote that is not escaped. A reader that skips a string only has to find that
quote; a reader that keeps it also has to know which characters the escapes stand for, and two escapes may
stand for one character together.

## Main definitions

* `Quoted.skip`: what follows a string;
* `Quoted.keep`: the content of a string.

## Main results

* `Quoted.length_lt_of_skip`: what follows a string is shorter than the text it is in.
-/

namespace CommentTags.Json.Quoted

/-- The value of a hexadecimal digit. -/
def hexDigit? (c : Char) : Option Nat :=
  if '0' ≤ c ∧ c ≤ '9' then some (c.toNat - 0x30)
  else if 'a' ≤ c ∧ c ≤ 'f' then some (c.toNat - 0x57)
  else if 'A' ≤ c ∧ c ≤ 'F' then some (c.toNat - 0x37)
  else none

/-- The value of four hexadecimal digits. -/
def hex4? (a b c d : Char) : Option Nat := do
  return (((← hexDigit? a) * 16 + (← hexDigit? b)) * 16 + (← hexDigit? c)) * 16 + (← hexDigit? d)

/-- The character that a backslash and `c` stand for. -/
def simpleEscape? : Char → Option Char
  | '"' => some '"'
  | '\\' => some '\\'
  | '/' => some '/'
  | 'b' => some '\x08'
  | 'f' => some '\x0c'
  | 'n' => some '\n'
  | 'r' => some '\r'
  | 't' => some '\t'
  | _ => none

/-- The fault of a numeric escape before the end of the text: with less than four bytes left the text
ends too early. -/
def shortEscape (rest : List Char) : Fault :=
  if 4 ≤ (String.ofList rest).utf8ByteSize then .malformed else .endOfInput

/-- What follows the string that `chars` are in. -/
def skip : List Char → Except Fault (List Char)
  | [] => .error .endOfInput
  | '"' :: rest => .ok rest
  | ['\\'] => .error .endOfInput
  | '\\' :: 'u' :: a :: b :: c :: d :: rest =>
    match hex4? a b c d with
    | some _ => skip rest
    | none => .error .malformed
  | '\\' :: 'u' :: rest => .error (shortEscape rest)
  | '\\' :: c :: rest => if (simpleEscape? c).isSome then skip rest else .error .malformed
  | c :: rest => if c.toNat < 0x20 then .error .malformed else skip rest

/-- What follows a string is shorter than the text it is in. -/
theorem length_lt_of_skip {chars rest : List Char} (h : skip chars = .ok rest) :
    rest.length < chars.length := by
  fun_induction skip chars <;> simp_all <;> omega

/-- The fault of a leading surrogate that `rest` does not complete. -/
def loneSurrogate : List Char → Fault
  | [] => .endOfInput
  | ['\\'] => .endOfInput
  | '\\' :: 'u' :: rest => shortEscape rest
  | _ => .malformed

/-- The content of the string that `chars` are in, after the characters `done`, last first. -/
def keep (done : List Char) : List Char → Except Fault String
  | [] => .error .endOfInput
  | '"' :: _ => .ok (String.ofList done.reverse)
  | ['\\'] => .error .endOfInput
  | '\\' :: 'u' :: a :: b :: c :: d :: rest =>
    match hex4? a b c d with
    | none => .error .malformed
    | some n =>
      if n < 0xD800 ∨ 0xDFFF < n then
        keep (Char.ofNat n :: done) rest
      else if 0xDC00 ≤ n then
        .error .malformed
      else
        match rest with
        | '\\' :: 'u' :: a :: b :: c :: d :: rest =>
          match hex4? a b c d with
          | none => .error .malformed
          | some m =>
            if 0xDC00 ≤ m ∧ m ≤ 0xDFFF then
              keep (Char.ofNat (0x10000 + (n - 0xD800) * 0x400 + (m - 0xDC00)) :: done) rest
            else
              .error .malformed
        | rest => .error (loneSurrogate rest)
  | '\\' :: 'u' :: rest => .error (shortEscape rest)
  | '\\' :: c :: rest =>
    match simpleEscape? c with
    | some c => keep (c :: done) rest
    | none => .error .malformed
  | c :: rest => if c.toNat < 0x20 then .error .malformed else keep (c :: done) rest

end CommentTags.Json.Quoted
