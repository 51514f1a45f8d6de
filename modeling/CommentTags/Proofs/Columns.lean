import CommentTags.Proofs.Positions

/-!
# Columns beyond a line

A column beyond its line stands for the end of the line. Columns end before the line feed, or the carriage
return and the line feed, that ends a line. Any other break is a character of its line to them, so the end of
such a line is already the start of the next one: only here does a column leave its line, and only here does
the text of a line have a line break in it.

## Main definitions

* `LineIndex.width`: the number of characters of a line without its line break;
* `LineIndex.CountsBreak`: columns count the break of a line.

## Main results

* `LineIndex.isLineBreak_eq_false`: the characters of a line before its break are none;
* `LineIndex.positionAt_offsetAt`: the position of the offset of any column;
* `SourceDocument.offsetAt_clamps`: which columns, ends and texts of lines leave out the line break;
* `SourceDocument.not_offsetAt_clamps`: before a line separator they do not.
-/

namespace CommentTags

namespace Text

/-- The number of characters of the line break that ends `start ≤ p < stop`. A carriage return and the line
feed after it are one break. -/
def breakLength (text : Text) (start stop : Nat) : Nat :=
  if start < stop ∧ text[stop - 1]?.any isLineBreak = true then
    if start + 1 < stop ∧ text[stop - 2]? = some '\r' ∧ text[stop - 1]? = some '\n' then 2 else 1
  else
    0

variable {text : Text} {start stop : Nat} {c : Char}

/-- After a line break that is not the carriage return of a longer one, a line starts. -/
theorem startsDocumentLine_succ {i : Nat} (hc : text[i]? = some c) (hbreak : isLineBreak c = true)
    (hsplit : ¬ (c = '\r' ∧ text[i + 1]? = some '\n')) : text.startsDocumentLine (i + 1) = true := by
  rw [startsDocumentLine, Nat.add_sub_cancel, hc, Option.any_some, hbreak]
  simpa [imp_iff_not_or] using hsplit

theorem one_le_breakLength (hlt : start < stop) (hc : text[stop - 1]? = some c)
    (hbreak : isLineBreak c = true) : 1 ≤ text.breakLength start stop := by
  rw [breakLength, if_pos ⟨hlt, by rw [hc, Option.any_some, hbreak]⟩]
  split
  · exact Nat.le_succ 1
  · exact Nat.le_refl 1

/-- Without a break other than a line feed at the end, columns leave out the break. -/
theorem columns_eq (h : ∀ c, start < stop → text[stop - 1]? = some c → isLineBreak c = true → c = '\n') :
    LineIndex.columns text start stop = stop - start - text.breakLength start stop := by
  by_cases hfeed : start < stop ∧ text[stop - 1]? = some '\n'
  · obtain ⟨hlt, hfeed⟩ := hfeed
    have htwo : 1 < stop - start ↔ start + 1 < stop := by omega
    simp only [LineIndex.columns, breakLength, hlt, hfeed, Nat.sub_pos_of_lt hlt, decide_true, beq_self_eq_true,
      Bool.and_true, if_true, Option.any_some, true_and, and_true, Bool.and_eq_true, decide_eq_true_eq,
      beq_iff_eq, htwo]
    rw [if_pos (show isLineBreak '\n' = true from rfl)]
    split <;> rfl
  · have hnone : ¬ (start < stop ∧ text[stop - 1]?.any isLineBreak = true) := by
      rintro ⟨hlt, hbreak⟩
      obtain ⟨c, hc, hbreak⟩ := (Option.any_eq_true _ _).1 hbreak
      exact hfeed ⟨hlt, h c hlt hc hbreak ▸ hc⟩
    rw [breakLength, if_neg hnone, LineIndex.columns, if_neg, Nat.sub_zero]
    rw [Bool.and_eq_true, decide_eq_true_eq, beq_iff_eq]
    rintro ⟨hlt, hc⟩
    exact hfeed ⟨Nat.lt_of_sub_pos hlt, hc⟩

/-- A break other than a line feed is one character, and columns count it. -/
theorem columns_of_break (hlt : start < stop) (hc : text[stop - 1]? = some c) (hbreak : isLineBreak c = true)
    (hfeed : c ≠ '\n') : LineIndex.columns text start stop = stop - start ∧ text.breakLength start stop = 1 := by
  constructor
  · simp [LineIndex.columns, hc, hfeed]
  · simp [breakLength, hlt, hc, hbreak, hfeed]

/-- A word with one more character. -/
theorem slice_succ (hle : start ≤ stop) (hc : text[stop]? = some c) :
    text.slice start (stop + 1) = (text.slice start stop).push c := by
  obtain ⟨hlt, rfl⟩ := Array.getElem?_eq_some_iff.1 hc
  rw [slice, slice, Array.extract_succ_right (Nat.lt_succ_of_le hle) hlt, Array.toList_push]
  exact String.toList_injective (by rw [String.toList_push, String.toList_ofList, String.toList_ofList])

end Text

namespace LineIndex

/-- The number of characters of `line` without its line break. -/
def width (index : LineIndex) (line : Nat) : Nat :=
  index.lineStart (line + 1) - index.lineStart line -
    index.text.breakLength (index.lineStart line) (index.lineStart (line + 1))

/-- The line ends with a break other than a line feed, so columns count the break. -/
def CountsBreak (index : LineIndex) (line : Nat) : Prop :=
  line + 1 < index.lineCount ∧ index.text[index.lineStart (line + 1) - 1]? ≠ some '\n'

instance (index : LineIndex) (line : Nat) : Decidable (index.CountsBreak line) :=
  inferInstanceAs (Decidable (_ ∧ _))

variable {index : LineIndex} {line offset : Nat}

/-! ## Where a line ends -/

theorem getElem?_starts (h : line < index.lineCount) :
    index.starts[line]? = some (index.lineStart line) := by
  have hstart : index.starts[line]? = some index.starts[line] := Array.getElem?_eq_getElem h
  rw [lineStart_eq, hstart, Option.getD_some]

/-- Beyond the last line there is the end of the text. -/
theorem lineStart_of_le (h : index.lineCount ≤ line) : index.lineStart line = index.charCount := by
  rw [lineStart_eq, Array.getElem?_eq_none h, Option.getD_none]

theorem lineStart_lt {other : Nat} (h : line < other) (hother : other < index.lineCount) :
    index.lineStart line < index.lineStart other :=
  lt_of_getElem?_starts h (getElem?_starts (Nat.lt_trans h hother)) (getElem?_starts hother)

/-- No line starts between the starts of two lines that follow each other. -/
theorem next_le_of_startsDocumentLine {i : Nat} (hlt : index.lineStart line < i) (hle : i ≤ index.charCount)
    (hstarts : index.text.startsDocumentLine i = true) :
    line + 1 < index.lineCount ∧ index.lineStart (line + 1) ≤ i := by
  have hmem : i ∈ index.starts := by
    rw [index.starts_eq]
    exact Text.mem_documentLineStarts.2 ⟨hle, hstarts⟩
  obtain ⟨other, hother⟩ := Array.mem_iff_getElem?.1 hmem
  have hsize : other < index.lineCount := (Array.getElem?_eq_some_iff.1 hother).1
  have hstart : index.lineStart other = i := by rw [lineStart_eq, hother, Option.getD_some]
  -- the lines up to `line` start earlier
  have hafter : line < other := by
    refine Nat.lt_of_not_le fun hle => ?_
    have := index.lineStart_mono hle
    omega
  exact ⟨Nat.lt_of_le_of_lt hafter hsize, hstart ▸ index.lineStart_mono hafter⟩

/-- Every line but the last ends with a line break. -/
theorem exists_break_of_lt (h : line + 1 < index.lineCount) :
    ∃ c, index.text[index.lineStart (line + 1) - 1]? = some c ∧ isLineBreak c = true := by
  have hmem : index.lineStart (line + 1) ∈ index.text.documentLineStarts := by
    rw [← index.starts_eq]
    exact Array.mem_of_getElem? (getElem?_starts h)
  have hstarts := (Text.mem_documentLineStarts.1 hmem).2
  have hpos : index.lineStart line < index.lineStart (line + 1) := lineStart_lt (Nat.lt_succ_self line) h
  rw [Text.startsDocumentLine, Bool.or_eq_true, beq_iff_eq, Bool.and_eq_true] at hstarts
  rcases hstarts with hzero | ⟨hbreak, -⟩
  · omega
  · exact (Option.any_eq_true _ _).1 hbreak

/-- The last line does not end with a line break. -/
theorem isLineBreak_eq_false_of_last (h : index.lineCount ≤ line + 1)
    (hlt : index.lineStart line < index.charCount) {c : Char}
    (hc : index.text[index.charCount - 1]? = some c) : isLineBreak c = false := by
  refine Bool.eq_false_iff.2 fun hbreak => ?_
  have hsize : index.charCount - 1 + 1 = index.text.size := Nat.sub_add_cancel (Nat.zero_lt_of_lt hlt)
  have hsplit : ¬ (c = '\r' ∧ index.text[index.charCount - 1 + 1]? = some '\n') := by
    rw [hsize, Array.getElem?_eq_none (Nat.le_refl _)]
    simp
  have hstarts := Text.startsDocumentLine_succ hc hbreak hsplit
  have hnext : line + 1 < index.lineCount :=
    (next_le_of_startsDocumentLine (by omega) (Nat.le_of_eq hsize) hstarts).1
  omega

/-- The characters of a line before its break are no line breaks. -/
theorem isLineBreak_eq_false {i : Nat} (hle : index.lineStart line ≤ i)
    (hlt : i < index.lineStart line + index.width line) {c : Char} (hc : index.text[i]? = some c) :
    isLineBreak c = false := by
  refine Bool.eq_false_iff.2 fun hbreak => ?_
  have hi : i < index.charCount := (Array.getElem?_eq_some_iff.1 hc).1
  rw [width] at hlt
  generalize hstart : index.lineStart line = start at hle hlt
  generalize hstop : index.lineStart (line + 1) = stop at hlt
  -- a line that starts after `i` ends this one there
  have hends {j : Nat} (hij : i < j) (hj : j ≤ index.charCount)
      (hstarts : index.text.startsDocumentLine j = true) : stop ≤ j :=
    hstop ▸ (next_le_of_startsDocumentLine (by omega) hj hstarts).2
  by_cases hsplit : c = '\r' ∧ index.text[i + 1]? = some '\n'
  · obtain ⟨rfl, hfeed⟩ := hsplit
    have hi' : i + 1 < index.charCount := (Array.getElem?_eq_some_iff.1 hfeed).1
    have hle' : stop ≤ i + 1 + 1 := hends (by omega) hi'
      (Text.startsDocumentLine_succ hfeed rfl (by simp))
    have hne : stop ≠ i + 1 + 1 := by
      rintro rfl
      have htwo : index.text.breakLength start (i + 1 + 1) = 2 := by
        have hlt' : start < i + 1 + 1 := by omega
        have hlt'' : start + 1 < i + 1 + 1 := by omega
        simp [Text.breakLength, hlt', hlt'', hfeed, hc]
        rfl
      omega
    obtain rfl : stop = i + 1 := by omega
    have hone : 1 ≤ index.text.breakLength start (i + 1) :=
      Text.one_le_breakLength (Nat.lt_succ_of_le hle) hc hbreak
    omega
  · have hle' : stop ≤ i + 1 := hends (by omega) hi (Text.startsDocumentLine_succ hc hbreak hsplit)
    obtain rfl : stop = i + 1 := by omega
    have hone : 1 ≤ index.text.breakLength start (i + 1) :=
      Text.one_le_breakLength (Nat.lt_succ_of_le hle) hc hbreak
    omega

/-! ## Columns and the break of their line -/

theorem lineLength_eq (h : line < index.lineCount) :
    index.lineLength line =
      columns index.text (index.lineStart line) (index.lineStart (line + 1)) := by
  rw [lineLength, getElem?_starts h, index.lineStart_eq (line + 1)]

theorem offsetAt_eq (h : line < index.lineCount) (column : Nat) :
    index.offsetAt ⟨line, column⟩ = index.lineStart line + min column (index.lineLength line) := by
  rw [offsetAt]
  dsimp only
  rw [getElem?_starts h]

/-- Columns count the characters of a line without its break, unless they count the break. -/
theorem lineLength_of_not_countsBreak (h : line < index.lineCount) (hbreak : ¬ index.CountsBreak line) :
    index.lineLength line = index.width line := by
  rw [lineLength_eq h, width]
  refine Text.columns_eq fun c hlt hc hc' => ?_
  by_cases hnext : line + 1 < index.lineCount
  · have hfeed := Classical.not_not.1 fun hne => hbreak ⟨hnext, hne⟩
    rw [hc] at hfeed
    exact Option.some.inj hfeed
  · rw [lineStart_of_le (Nat.le_of_not_lt hnext)] at hlt hc
    rw [isLineBreak_eq_false_of_last (Nat.le_of_not_lt hnext) hlt hc] at hc'
    cases hc'

/-- A break that columns count is the one character after the others. -/
theorem CountsBreak.lineLength_eq (h : index.CountsBreak line) :
    index.lineLength line = index.width line + 1 ∧
      index.lineStart (line + 1) = index.lineStart line + index.width line + 1 := by
  obtain ⟨hnext, hfeed⟩ := h
  obtain ⟨c, hc, hbreak⟩ := exists_break_of_lt hnext
  have hlt : index.lineStart line < index.lineStart (line + 1) := lineStart_lt (Nat.lt_succ_self line) hnext
  obtain ⟨hcolumns, hone⟩ := Text.columns_of_break hlt hc hbreak fun heq => hfeed (heq ▸ hc)
  rw [LineIndex.lineLength_eq (Nat.lt_of_succ_lt hnext), width, hcolumns, hone]
  omega

/-! ## The position of a column -/

/-- The line of an offset from its start on, before the next line starts. -/
theorem lineOf_eq (h : line < index.lineCount) (hle : index.lineStart line ≤ offset)
    (hlt : line + 1 < index.lineCount → offset < index.lineStart (line + 1)) :
    index.lineOf offset = line := by
  obtain ⟨start, hstart, hstart_le, hnext⟩ := index.lineOf_spec offset
  have hsize : index.lineOf offset < index.lineCount := (Array.getElem?_eq_some_iff.1 hstart).1
  rw [getElem?_starts hsize] at hstart
  cases hstart
  rcases Nat.lt_trichotomy (index.lineOf offset) line with hbefore | heq | hafter
  · have := hnext _ (getElem?_starts (Nat.lt_of_le_of_lt hbefore h))
    have : index.lineStart (index.lineOf offset + 1) ≤ index.lineStart line := index.lineStart_mono hbefore
    omega
  · exact heq
  · have := hlt (Nat.lt_of_le_of_lt hafter hsize)
    have : index.lineStart (line + 1) ≤ index.lineStart (index.lineOf offset) := index.lineStart_mono hafter
    omega

theorem positionAt_eq_of_line (h : line < index.lineCount) (hle : index.lineStart line ≤ offset)
    (hlt : line + 1 < index.lineCount → offset < index.lineStart (line + 1))
    (hoffset : offset ≤ index.charCount) :
    index.positionAt offset = ⟨line, offset - index.lineStart line⟩ := by
  have hline := lineOf_eq h hle hlt
  rw [positionAt_eq hoffset (by rw [hline, getElem?_starts h]), hline]

/-- The characters of a line without its break end before the next line starts. -/
theorem width_bounds (index : LineIndex) (line : Nat) :
    index.lineStart line + index.width line ≤ index.lineStart (line + 1) ∧
      (line + 1 < index.lineCount →
        index.lineStart line + index.width line < index.lineStart (line + 1)) := by
  have hmono : index.lineStart line ≤ index.lineStart (line + 1) := index.lineStart_mono (Nat.le_succ line)
  refine ⟨by rw [width]; omega, fun hnext => ?_⟩
  obtain ⟨c, hc, hbreak⟩ := exists_break_of_lt hnext
  have hlt : index.lineStart line < index.lineStart (line + 1) := lineStart_lt (Nat.lt_succ_self line) hnext
  have := Text.one_le_breakLength hlt hc hbreak
  rw [width]
  omega

/-- A column of a line, up to the end of its characters without the break, is the column of its offset. -/
theorem positionAt_lineStart_add (h : line < index.lineCount) {column : Nat} (hcolumn : column ≤ index.width line) :
    index.positionAt (index.lineStart line + column) = ⟨line, column⟩ := by
  obtain ⟨hle, hlt⟩ := index.width_bounds line
  have hend := index.lineStart_le_charCount (line + 1)
  rw [positionAt_eq_of_line h (Nat.le_add_right _ _) (fun hnext => by have := hlt hnext; omega) (by omega),
    Nat.add_sub_cancel_left]

/-- The position of the offset of any column: a column beyond the characters of its line is the last one,
unless columns count the break, when it is the start of the next line. -/
theorem positionAt_offsetAt (h : line < index.lineCount) (column : Nat) :
    index.positionAt (index.offsetAt ⟨line, column⟩) =
      if index.CountsBreak line ∧ index.width line < column then ⟨line + 1, 0⟩
      else ⟨line, min column (index.width line)⟩ := by
  rw [offsetAt_eq h]
  by_cases hbreak : index.CountsBreak line
  · obtain ⟨hlength, hnext⟩ := hbreak.lineLength_eq
    rw [hlength]
    by_cases hcolumn : index.width line < column
    · have hmin : min column (index.width line + 1) = index.width line + 1 := Nat.min_eq_right hcolumn
      rw [if_pos ⟨hbreak, hcolumn⟩, hmin, ← Nat.add_assoc, ← hnext]
      exact positionAt_lineStart_add hbreak.1 (Nat.zero_le _)
    · rw [if_neg fun hand => hcolumn hand.2, Nat.min_eq_left (by omega), Nat.min_eq_left (by omega)]
      exact positionAt_lineStart_add h (by omega)
  · rw [if_neg fun hand => hbreak hand.1, lineLength_of_not_countsBreak h hbreak]
    exact positionAt_lineStart_add h (Nat.min_le_right _ _)

/-! ## The text of a line -/

/-- The characters of `line` without its line break. -/
def content (index : LineIndex) (line : Nat) : String :=
  index.slice (index.lineStart line) (index.lineStart line + index.width line)

theorem length_content (index : LineIndex) (line : Nat) : (index.content line).length = index.width line := by
  have hle := (index.width_bounds line).1
  have hend := index.lineStart_le_charCount (line + 1)
  rw [content, slice, Text.slice, String.length_ofList, Array.length_toList, Array.size_extract]
  have hsize : index.text.size = index.charCount := rfl
  omega

/-- There is no line break in the characters of a line before its break. -/
theorem isLineBreak_eq_false_of_mem_content {c : Char} (h : c ∈ (index.content line).toList) :
    isLineBreak c = false := by
  rw [content, slice, Text.slice, String.toList_ofList, Array.mem_toList_iff, Array.mem_extract_iff_getElem] at h
  obtain ⟨k, hk, rfl⟩ := h
  exact isLineBreak_eq_false (i := index.lineStart line + k) (Nat.le_add_right _ _) (by omega)
    (Array.getElem?_eq_getElem _)

/-- The text of a line has the characters that columns count. -/
theorem lineText?_eq (h : line < index.lineCount) :
    index.lineText? line =
      some (index.slice (index.lineStart line) (index.lineStart line + index.lineLength line)) := by
  rw [lineText?, getElem?_starts h, Option.map_some]

/-- The end of a line is that of the characters that columns count, if columns can count them. -/
theorem lineEnd_eq (h : line < index.lineCount) (hsize : index.charCount ≤ Position.endOfLine) :
    index.lineEnd line = index.lineStart line + index.lineLength line := by
  have hlength : index.lineLength line ≤ index.charCount := by
    have hend := index.lineStart_le_charCount (line + 1)
    have hcolumns := columns_le index.text (index.lineStart line) (index.lineStart (line + 1))
    rw [lineLength_eq h]
    omega
  rw [lineEnd, offsetAt_eq h, Nat.min_eq_right (Nat.le_trans hlength hsize)]

/-- Where columns do not count the break, the text of a line is its characters without the break. -/
theorem lineText?_of_not_countsBreak (h : line < index.lineCount) (hbreak : ¬ index.CountsBreak line) :
    index.lineText? line = some (index.content line) := by
  rw [lineText?_eq h, lineLength_of_not_countsBreak h hbreak, content]

/-- Where columns count the break, it ends the text of the line. -/
theorem CountsBreak.exists_lineText? (h : index.CountsBreak line) :
    ∃ c, isLineBreak c = true ∧ c ≠ '\n' ∧ index.lineText? line = some ((index.content line).push c) := by
  obtain ⟨hlength, hnext⟩ := h.lineLength_eq
  obtain ⟨c, hc, hbreak⟩ := exists_break_of_lt h.1
  rw [hnext, Nat.add_sub_cancel] at hc
  refine ⟨c, hbreak, fun heq => h.2 ?_, ?_⟩
  · rw [hnext, Nat.add_sub_cancel, hc, heq]
  · rw [lineText?_eq (Nat.lt_of_succ_lt h.1), hlength, ← Nat.add_assoc, content, slice, slice,
      Text.slice_succ (Nat.le_add_right _ _) hc]

end LineIndex

namespace SourceDocument

/-- A column of a line stands for an offset of this line, clamped to the characters before the line break,
there is the end of the line, and its text is just these characters, none of which is a line break. This holds
of every line that ends with a line feed, with a carriage return and a line feed, or with the text. Any other
break counts as a character of its line: a column beyond the characters before it is the start of the next
line, and the text of the line ends with the break. -/
theorem offsetAt_clamps (document : SourceDocument) (hsize : document.index.charCount ≤ Position.endOfLine)
    {line : Nat} (hline : line < TextDocument.lineCount document) :
    let index := document.index
    let width := index.width line
    let back (column : Nat) :=
      TextDocument.positionAt document (TextDocument.offsetAt document ⟨line, column⟩)
    ((index.content line).length = width ∧ ∀ c ∈ (index.content line).toList, isLineBreak c = false) ∧
    (¬ index.CountsBreak line →
      (∀ column, back column = ⟨line, min column width⟩) ∧
      index.lineEnd line = index.lineStart line + width ∧
      index.lineText? line = some (index.content line)) ∧
    (index.CountsBreak line →
      (∀ column, back column = if width < column then ⟨line + 1, 0⟩ else ⟨line, column⟩) ∧
      index.lineEnd line = index.lineStart line + width + 1 ∧
      ∃ c, isLineBreak c = true ∧ c ≠ '\n' ∧
        index.lineText? line = some ((index.content line).push c)) := by
  intro index width back
  have hback (column : Nat) : back column = _ := LineIndex.positionAt_offsetAt hline column
  have hend : index.lineEnd line = _ := LineIndex.lineEnd_eq hline hsize
  refine ⟨⟨index.length_content line, fun c => LineIndex.isLineBreak_eq_false_of_mem_content⟩,
    fun hbreak => ⟨fun column => ?_, ?_, ?_⟩, fun hbreak => ⟨fun column => ?_, ?_, ?_⟩⟩
  · rw [hback, if_neg fun hand => hbreak hand.1]
  · rw [hend, LineIndex.lineLength_of_not_countsBreak hline hbreak]
  · exact LineIndex.lineText?_of_not_countsBreak hline hbreak
  · rw [hback]
    by_cases hcolumn : width < column
    · rw [if_pos ⟨hbreak, hcolumn⟩, if_pos hcolumn]
    · rw [if_neg fun hand => hcolumn hand.2, if_neg hcolumn, Nat.min_eq_left (Nat.le_of_not_lt hcolumn)]
  · rw [hend, hbreak.lineLength_eq.1, Nat.add_assoc]
  · exact hbreak.exists_lineText?

/-- A line that ends with a carriage return and a line feed, and one that ends with a line separator. -/
theorem offsetAt_clamps_separator :
    let document := SourceDocument.new "rust" "ab\r\nc\u2028d"
    let index := document.index
    let back (line column : Nat) :=
      TextDocument.positionAt document (TextDocument.offsetAt document ⟨line, column⟩)
    index.charCount ≤ Position.endOfLine ∧
      (0 < TextDocument.lineCount document ∧ ¬ index.CountsBreak 0 ∧ back 0 3 = ⟨0, 2⟩ ∧
        index.lineEnd 0 = 2 ∧ index.lineText? 0 = some "ab") ∧
      (1 < TextDocument.lineCount document ∧ index.CountsBreak 1 ∧ back 1 1 = ⟨1, 1⟩ ∧
        back 1 2 = ⟨2, 0⟩ ∧ index.lineEnd 1 = 6) := by
  intro document index back
  have hsize : index.charCount ≤ Position.endOfLine := by decide +kernel
  have hline₀ : 0 < TextDocument.lineCount document := by decide +kernel
  have hline₁ : 1 < TextDocument.lineCount document := by decide +kernel
  have hplain : ¬ index.CountsBreak 0 := by decide +kernel
  have hcounts : index.CountsBreak 1 := by decide +kernel
  have hwidth₀ : index.width 0 = 2 := by decide +kernel
  have hwidth₁ : index.width 1 = 1 := by decide +kernel
  have hstart₀ : index.lineStart 0 = 0 := by decide +kernel
  have hstart₁ : index.lineStart 1 = 4 := by decide +kernel
  have hcontent₀ : index.content 0 = "ab" := by decide +kernel
  obtain ⟨hback₀, hend₀, htext₀⟩ := (offsetAt_clamps document hsize hline₀).2.1 hplain
  obtain ⟨hback₁, hend₁, -⟩ := (offsetAt_clamps document hsize hline₁).2.2 hcounts
  refine ⟨hsize, ⟨hline₀, hplain, ?_, ?_, ?_⟩, hline₁, hcounts, ?_, ?_, ?_⟩
  · exact (hback₀ 3).trans (by rw [hwidth₀]; rfl)
  · rw [hend₀, hstart₀, hwidth₀]
  · rw [htext₀, hcontent₀]
  · exact (hback₁ 1).trans (by rw [hwidth₁]; rfl)
  · exact (hback₁ 2).trans (by rw [hwidth₁]; rfl)
  · rw [hend₁, hstart₁, hwidth₁]

/-- Before a line separator a column leaves its line: beyond the one character of the first line there is the
start of the second one, which is also where the first line ends, and its text ends with the separator. -/
theorem not_offsetAt_clamps :
    let document := SourceDocument.new "rust" "a\u2028b"
    let index := document.index
    0 < TextDocument.lineCount document ∧ index.width 0 = 1 ∧
      TextDocument.positionAt document (TextDocument.offsetAt document ⟨0, 2⟩) = ⟨1, 0⟩ ∧
      TextDocument.positionAt document (TextDocument.offsetAt document ⟨0, 2⟩) ≠ ⟨0, min 2 (index.width 0)⟩ ∧
      index.lineEnd 0 ≠ index.lineStart 0 + index.width 0 ∧
      index.lineText? 0 = some "a\u2028" ∧ isLineBreak '\u2028' = true := by
  decide +kernel

end SourceDocument

end CommentTags
