import CommentTags.Proofs.Casing
import CommentTags.Scan.Anchor

/-!
# A text in lower-case letters

A text and the text with its ASCII letters in lower case have the same blanks, lines and white space, and a
literal without letters stands at the same positions in both. Their words have one lower-case form, for the
letters of ASCII do not decide what becomes of the characters around them.

## Main definitions

* `IgnoresCase`: a property of characters for which the case of ASCII letters does not count;
* `Letterless`: a literal without ASCII letters;
* `Text.lower`: a text with its ASCII letters in lower case.

## Main results

* `Text.occursAt_lower` and `Text.find?_lower`: where a literal without letters stands;
* `Text.segments_lower` and `Text.trimEnd_lower`: where lines and their content end;
* `Unicode.lowercase_toLower`: the lower-case form of a word in lower-case letters.
-/

namespace CommentTags

/-! ## Characters -/

/-- The letter case of a character does not count. -/
def IgnoresCase (p : Char → Bool) : Prop :=
  ∀ c, p c.toLower = p c

/-- None of the characters is a letter of ASCII. -/
def Letterless (chars : List Char) : Prop :=
  ∀ c ∈ chars, c.isAlpha = false

/-- A character that is not a letter is no other character in lower case. -/
theorem ignoresCase_beq {c : Char} (hc : c.isAlpha = false) : IgnoresCase (· == c) := by
  intro d
  -- a letter stays a letter in lower case, and is not `c` in either case
  by_cases hd : d.isAlpha = true
  · have hlower : d.toLower.isAlpha = true := (apply_toLower (by decide) d).trans hd
    have hne : d ≠ c := by
      rintro rfl
      exact absurd hc (by simp [hd])
    have hne' : d.toLower ≠ c := by
      rintro rfl
      exact absurd hc (by simp [hlower])
    simp [hne, hne']
  · have hcapitals : capitals.all Char.isAlpha = true := by decide
    rw [(toLower_eq_or_mem_capitals d).resolve_right fun hmem => hd (List.all_eq_true.1 hcapitals d hmem)]

theorem ignoresCase_isBlank : IgnoresCase isBlank :=
  apply_toLower (by decide +kernel)

theorem ignoresCase_isWhiteSpace : IgnoresCase Unicode.isWhiteSpace :=
  apply_toLower (by decide +kernel)

/-- A character in lower case folds to the same character. -/
theorem Unicode.foldCase_toLower (c : Char) : foldCase c.toLower = foldCase c :=
  apply_toLower (by decide +kernel) c

/-! ## Texts -/

/-- The characters of a string in lower-case letters. -/
theorem toList_toLower (s : String) : s.toLower.toList = s.toList.map Char.toLower :=
  String.toList_map

/-- Only the empty string is empty in lower-case letters. -/
theorem isEmpty_toLower (s : String) : s.toLower.isEmpty = s.isEmpty := by
  rw [Bool.eq_iff_iff, String.isEmpty_iff, String.isEmpty_iff, ← String.toList_eq_nil_iff,
    ← String.toList_eq_nil_iff, toList_toLower, List.map_eq_nil_iff]

namespace Text

/-- The text with the letters of ASCII in lower case. -/
def lower (text : Text) : Text :=
  text.map Char.toLower

/-- A string in lower-case letters has its text in lower-case letters. -/
theorem ofString_toLower (s : String) : Text.ofString s.toLower = (Text.ofString s).lower := by
  simp [ofString, lower, toList_toLower]

variable (text : Text)

@[simp]
theorem size_lower : text.lower.size = text.size :=
  Array.size_map

/-- The character at a position is the one of the text, in lower case. -/
theorem getElem?_lower (i : Nat) : text.lower[i]? = text[i]?.map Char.toLower :=
  Array.getElem?_map

/-- A word of the text in lower-case letters. -/
theorem slice_lower (start stop : Nat) : text.lower.slice start stop = (text.slice start stop).toLower := by
  rw [← String.toList_inj, toList_toLower, slice, slice, String.toList_ofList, String.toList_ofList, lower,
    ← Array.map_extract, Array.toList_map]

/-- What ignores the case of letters holds at the same positions. -/
theorem any_lower {p : Char → Bool} (hp : IgnoresCase p) (i : Nat) :
    text.lower[i]?.any p = text[i]?.any p := by
  rw [getElem?_lower]
  cases text[i]? with
  | none => rfl
  | some c => exact hp c

/-- A character that is not a letter stands at the same positions. -/
theorem beq_lower {c : Char} (hc : c.isAlpha = false) (i : Nat) :
    (text.lower[i]? == some c) = (text[i]? == some c) := by
  rw [getElem?_lower]
  cases text[i]? with
  | none => rfl
  | some d => exact ignoresCase_beq hc d

@[simp]
theorem newline_lower (i : Nat) : (text.lower[i]? == some '\n') = (text[i]? == some '\n') :=
  text.beq_lower rfl i

@[simp]
theorem blankAt_lower (i : Nat) : text.lower.blankAt i = text.blankAt i :=
  text.any_lower ignoresCase_isBlank i

@[simp]
theorem startsLine_lower (i : Nat) : text.lower.startsLine i = text.startsLine i := by
  simp [startsLine]

@[simp]
theorem followsBlank_lower (i : Nat) : text.lower.followsBlank i = text.followsBlank i := by
  simp [followsBlank]

@[simp]
theorem freeAt_lower (pos i : Nat) : text.lower.freeAt pos i = text.freeAt pos i := by
  simp [freeAt]

@[simp]
theorem lineEnd_lower (i : Nat) : text.lower.lineEnd i = text.lineEnd i := by
  simp [lineEnd]

@[simp]
theorem skipBlanks_lower (start stop : Nat) : text.lower.skipBlanks start stop = text.skipBlanks start stop := by
  simp [skipBlanks]

@[simp]
theorem segments_lower (start stop : Nat) : text.lower.segments start stop = text.segments start stop := by
  simp [segments, lineFeeds]

theorem skipChar_lower {c : Char} (hc : c.isAlpha = false) (start stop : Nat) :
    text.lower.skipChar c start stop = text.skipChar c start stop := by
  simp only [skipChar, bne, text.beq_lower hc]

theorem dropEndWhile_lower {p : Char → Bool} (hp : IgnoresCase p) (start stop : Nat) :
    text.lower.dropEndWhile p start stop = text.dropEndWhile p start stop := by
  induction stop with
  | zero => rfl
  | succ stop ih => simp only [dropEndWhile, text.any_lower hp, ih]

@[simp]
theorem trimEnd_lower (start stop : Nat) : text.lower.trimEnd start stop = text.trimEnd start stop :=
  text.dropEndWhile_lower ignoresCase_isWhiteSpace start stop

theorem occursAt_lower {literal : List Char} (h : Letterless literal) (i : Nat) :
    text.lower.occursAt literal i = text.occursAt literal i := by
  induction literal generalizing i with
  | nil => rfl
  | cons c rest ih =>
    rw [Letterless, List.forall_mem_cons] at h
    rw [occursAt, occursAt, text.beq_lower h.1, ih h.2]

theorem find?_lower {literal : List Char} (h : Letterless literal) (start stop : Nat) :
    text.lower.find? literal start stop = text.find? literal start stop := by
  simp only [find?, text.occursAt_lower h]

theorem findFree?_lower {p q : Nat → Bool} (h : ∀ i, p i = q i) (pos : Nat) :
    text.lower.findFree? p pos = text.findFree? q pos := by
  simp [findFree?, h]

end Text

/-! ## Words -/

namespace Unicode

theorem ignoresCase_isCased : IgnoresCase isCased :=
  apply_toLower (by decide +kernel)

theorem ignoresCase_isCaseIgnorable : IgnoresCase isCaseIgnorable :=
  apply_toLower (by decide +kernel)

/-- The same character is the first one that is not passed over. -/
theorem startsCased_map_toLower (chars : List Char) :
    startsCased (chars.map Char.toLower) = startsCased chars := by
  simp only [startsCased, List.find?_map, Function.comp_def, ignoresCase_isCaseIgnorable _]
  cases chars.find? fun c => !isCaseIgnorable c with
  | none => rfl
  | some c => rw [Option.map_some, Option.any_some, Option.any_some, ignoresCase_isCased]

/-- A character between others has one lower-case form, whatever the case of ASCII letters. -/
theorem lowercaseBetween_toLower (before : List Char) (c : Char) (after : List Char) :
    lowercaseBetween (before.map Char.toLower) c.toLower (after.map Char.toLower) =
      lowercaseBetween before c after := by
  have hbeq : (c.toLower == '\u03a3') = (c == '\u03a3') := ignoresCase_beq (by decide) c
  have hsigma : c.toLower = '\u03a3' ↔ c = '\u03a3' := by rw [← beq_iff_eq, hbeq, beq_iff_eq]
  have hchar : lowercaseChar c.toLower = lowercaseChar c := apply_toLower (by decide +kernel) c
  simp only [lowercaseBetween, hsigma, hchar, lowercaseSigma, startsCased_map_toLower]

theorem lowercaseFrom_map_toLower (chars before done : List Char) :
    lowercaseFrom (before.map Char.toLower) done (chars.map Char.toLower) =
      lowercaseFrom before done chars := by
  induction chars generalizing before done with
  | nil => rfl
  | cons c rest ih =>
    rw [List.map_cons, lowercaseFrom, lowercaseFrom, lowercaseBetween_toLower]
    exact ih (c :: before) _

/-- A word in lower-case letters has the lower-case form of the word. -/
theorem lowercase_toLower (s : String) : lowercase s.toLower = lowercase s := by
  rw [lowercase, lowercase, toList_toLower]
  exact congrArg String.ofList (lowercaseFrom_map_toLower s.toList [] [])

end Unicode

end CommentTags
