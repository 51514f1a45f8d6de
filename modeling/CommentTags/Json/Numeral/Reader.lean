import CommentTags.Json.Fault
import CommentTags.Json.Numeral

/-!
# Numbers of a JSON text

A number has digits before the point, perhaps digits after it, and perhaps an exponent. Only as many of the
digits count towards its size as fit into 64 bits, leading zeros aside; the others scale it by ten.

## Main definitions

* `Numeral.read`: the number at the start of a text, and what follows it;
* `Numeral.ofParts`: the value of a number in its parts.

## Main results

* `Numeral.decimalUpTo_eq_min`: an exponent is read exactly up to its limit;
* `Numeral.length_lt_of_read`: what follows a number is shorter than the text.
-/

namespace CommentTags.Json.Numeral

/-- The digits at the start of `chars`, and what follows them. -/
def digits (chars : List Char) : List Char × List Char :=
  (chars.takeWhile Char.isDigit, chars.dropWhile Char.isDigit)

/-- At least one digit at the start of `chars`, and what follows. -/
def someDigits (chars : List Char) : Except Break (List Char × List Char) :=
  if (digits chars).1.isEmpty then
    .error ⟨if chars.isEmpty then .endOfInput else .malformed, .malformed⟩
  else
    .ok (digits chars)

/-- The digits before the point: a leading zero stands alone. -/
def integerPart (chars : List Char) : Except Break (List Char × List Char) :=
  match chars with
  | '0' :: rest => if (digits rest).1.isEmpty then .ok (['0'], rest) else .error (.both .malformed)
  | chars => someDigits chars

/-- The digits after the point, if there is one. -/
def fractionPart (chars : List Char) : Except Break (Option (List Char) × List Char) :=
  match chars with
  | '.' :: rest => (someDigits rest).map fun (ds, rest) => (some ds, rest)
  | chars => .ok (none, chars)

/-- The sign and the digits of the exponent, if there is one. -/
def exponentPart (chars : List Char) : Except Break (Option (Bool × List Char) × List Char) :=
  match chars with
  | c :: rest =>
    if c == 'e' || c == 'E' then
      match rest with
      | '-' :: rest => (someDigits rest).map fun (ds, rest) => (some (true, ds), rest)
      | '+' :: rest => (someDigits rest).map fun (ds, rest) => (some (false, ds), rest)
      | rest => (someDigits rest).map fun (ds, rest) => (some (false, ds), rest)
    else
      .ok (none, c :: rest)
  | [] => .ok (none, [])

/-- The number that `digits` continue `n` to while it fits into 64 bits, and how many of the digits it
takes. -/
def significand (n taken : Nat) : List Char → Nat × Nat
  | [] => (n, taken)
  | d :: rest =>
    let n' := n * 10 + (d.toNat - 0x30)
    if n' < bound then significand n' (taken + 1) rest else (n, taken)

/-- The natural number written with `digits`. -/
def decimal (digits : List Char) : Nat :=
  digits.foldl (fun n d => n * 10 + (d.toNat - 0x30)) 0

/-- The natural number written with `digits`, but no more than `limit`: it stays small however many
digits there are. -/
def decimalUpTo (limit : Nat) (digits : List Char) : Nat :=
  digits.foldl (fun n d => min limit (n * 10 + (d.toNat - 0x30))) 0

/-- The size up to which an exponent counts. It is far beyond what the digits of a number can make up
for. -/
def exponentLimit : Nat := 2147483648

/-- The parts of a number written out. -/
def spelling (negative : Bool) (whole : List Char) (fraction : Option (List Char))
    (exponent : Option (Bool × List Char)) : String :=
  let fraction := fraction.elim [] ('.' :: ·)
  let exponent := exponent.elim [] fun (negative, ds) =>
    if negative then 'e' :: '-' :: ds else 'e' :: ds
  String.ofList ((if negative then ['-'] else []) ++ whole ++ fraction ++ exponent)

/-- The value of a number in its parts; one that exceeds every double is no number. -/
def ofParts (negative : Bool) (whole : List Char) (fraction : Option (List Char))
    (exponent : Option (Bool × List Char)) : Except Fault Numeral :=
  let (n, taken) := significand 0 0 whole
  if !negative && fraction.isNone && exponent.isNone && taken == whole.length then
    .ok (.natural n)
  else
    let (n', takenAfter) := significand n 0 (fraction.getD [])
    let shift : Int := match exponent with
      | none => 0
      | some (true, ds) => -(decimalUpTo exponentLimit ds : Int)
      | some (false, ds) => decimalUpTo exponentLimit ds
    if exceedsDouble n' ((whole.length - taken : Nat) - (takenAfter : Int) + shift) then
      .error .malformed
    else
      .ok (.other (spelling negative whole fraction exponent))

/-- The number at the start of `chars`, without its sign, and what follows. -/
def read (negative : Bool) (chars : List Char) :
    Except Break (Except Fault Numeral × List Char) := do
  let (whole, rest) ← integerPart chars
  let (fraction, rest) ← fractionPart rest
  let (exponent, rest) ← exponentPart rest
  return (ofParts negative whole fraction exponent, rest)

/-- The digits and what follows them make up the text. -/
theorem length_digits (chars : List Char) :
    (digits chars).1.length + (digits chars).2.length = chars.length := by
  rw [digits, ← List.length_append, List.takeWhile_append_dropWhile]

/-- Cutting a number off at a limit after every digit cuts it off once. -/
theorem decimalUpTo_eq_min (limit : Nat) (digits : List Char) :
    decimalUpTo limit digits = min limit (decimal digits) := by
  have hfold (n : Nat) :
      digits.foldl (fun n d => min limit (n * 10 + (d.toNat - 0x30))) (min limit n) =
        min limit (digits.foldl (fun n d => n * 10 + (d.toNat - 0x30)) n) := by
    induction digits generalizing n with
    | nil => rfl
    | cons d rest ih =>
      have hstep : min limit (min limit n * 10 + (d.toNat - 0x30)) =
          min limit (n * 10 + (d.toNat - 0x30)) := by omega
      rw [List.foldl_cons, List.foldl_cons, hstep, ih]
  have hzero := hfold 0
  rwa [Nat.min_zero] at hzero

/-- What follows some digits is shorter than the text. -/
theorem length_lt_of_someDigits {chars ds rest : List Char} (h : someDigits chars = .ok (ds, rest)) :
    rest.length < chars.length := by
  have hlen := length_digits chars
  unfold someDigits at h
  split at h
  · cases h
  · next hne =>
    rw [Except.ok.inj h] at hlen hne
    have := List.length_pos_iff.2 (mt List.isEmpty_iff.2 hne)
    simp only at hlen this
    omega

/-- What follows the digits before the point is shorter than the text. -/
theorem length_lt_of_integerPart {chars ds rest : List Char}
    (h : integerPart chars = .ok (ds, rest)) : rest.length < chars.length := by
  unfold integerPart at h
  split at h
  · split at h <;> cases h
    simp
  · exact length_lt_of_someDigits h

/-- What follows the digits after the point is no longer than the text. -/
theorem length_le_of_fractionPart {chars rest : List Char} {ds : Option (List Char)}
    (h : fractionPart chars = .ok (ds, rest)) : rest.length ≤ chars.length := by
  unfold fractionPart at h
  split at h
  · next tail =>
    cases hd : someDigits tail with
    | error => simp [hd, Except.map] at h
    | ok p =>
      simp only [hd, Except.map, Except.ok.injEq, Prod.mk.injEq] at h
      have : p.2.length < tail.length := length_lt_of_someDigits hd
      simp only [List.length_cons, ← h.2]
      omega
  · cases h
    exact Nat.le_refl _

/-- What follows the exponent is no longer than the text. -/
theorem length_le_of_exponentPart {chars rest : List Char} {ds : Option (Bool × List Char)}
    (h : exponentPart chars = .ok (ds, rest)) : rest.length ≤ chars.length := by
  have hmap {sign : Bool} {tail : List Char}
      (h : (someDigits tail).map (fun (ds, rest) => (some (sign, ds), rest)) = .ok (ds, rest)) :
      rest.length ≤ tail.length := by
    cases hd : someDigits tail with
    | error => simp [hd, Except.map] at h
    | ok p =>
      simp only [hd, Except.map, Except.ok.injEq, Prod.mk.injEq] at h
      have : p.2.length < tail.length := length_lt_of_someDigits hd
      simp only [← h.2]
      omega
  unfold exponentPart at h
  split at h
  · split at h
    · split at h <;> have := hmap h <;> simp only [List.length_cons] at * <;> omega
    · cases h
      exact Nat.le_refl _
  · cases h
    exact Nat.le_refl _

/-- What follows a number is shorter than the text. -/
theorem length_lt_of_read {negative : Bool} {chars rest : List Char}
    {n : Except Fault Numeral} (h : read negative chars = .ok (n, rest)) :
    rest.length < chars.length := by
  unfold read at h
  cases h₁ : integerPart chars with
  | error => simp [h₁, bind, Except.bind] at h
  | ok p₁ =>
    cases h₂ : fractionPart p₁.2 with
    | error => simp [h₁, h₂, bind, Except.bind] at h
    | ok p₂ =>
      cases h₃ : exponentPart p₂.2 with
      | error => simp [h₁, h₂, h₃, bind, Except.bind] at h
      | ok p₃ =>
        simp only [h₁, h₂, h₃, bind, Except.bind, pure, Except.pure, Except.ok.injEq,
          Prod.mk.injEq] at h
        have := length_lt_of_integerPart h₁
        have := length_le_of_fractionPart h₂
        have := length_le_of_exponentPart h₃
        rw [← h.2]
        omega

end CommentTags.Json.Numeral
