/-!
# JSON numerals

How much a program that reads counts and delays needs to know about a number: whether it is a natural
number that fits into 64 bits, and if not, whether it is a number at all. A numeral whose value exceeds
every double-precision number is not; `Numeral.exceedsDouble` decides that exactly.
-/

namespace CommentTags.Json

/-- The value of a numeral. -/
inductive Numeral where
  /-- A natural number below `2 ^ 64`, written without sign, fraction and exponent. -/
  | natural (n : Nat)
  /-- Any other number, written out. -/
  | other (literal : String)
deriving DecidableEq, Repr, Inhabited

namespace Numeral

/-- The least natural number that does not fit into 64 bits. -/
def bound : Nat := 18446744073709551616

/-- `n` rounded to 53 significant bits, a tie to the even neighbour. -/
def round53 (n : Nat) : Nat :=
  let unit := Nat.pow 2 (n.log2 - 52)
  let low := n / unit
  let rest := n % unit
  if 2 * rest < unit then low * unit
  else if unit < 2 * rest || low % 2 == 1 then (low + 1) * unit
  else low * unit

/-- The least number that rounds to infinity in double precision, half a unit above the greatest
double. -/
def overflow : Nat := Nat.pow 2 1024 - Nat.pow 2 970

/-- Rounded to double precision, `significand * 10 ^ exponent` is infinite. -/
def exceedsDouble (significand : Nat) (exponent : Int) : Bool :=
  significand != 0 && match exponent with
    | .ofNat e =>
      308 < e || overflow ≤ round53 significand * round53 (Nat.pow 10 e)
    | .negSucc _ => false

end Numeral

end CommentTags.Json
