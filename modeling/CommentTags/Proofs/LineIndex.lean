import CommentTags.Document
import Mathlib.Data.List.Pairwise

/-!
# The first and the last line of a document

The lines of a document start in order, the first at the start of the text. A text that ends with a line
break has an empty line after it, so the last line never ends with a break and reaches the end of the text.
From the first column of the first line to the last column of the last one there is the whole text.

## Main results

* `Text.mem_documentLineStarts` and `Text.pairwise_documentLineStarts`: where lines start;
* `LineIndex.offsetAt_start` and `LineIndex.offsetAt_end`: the offsets of the two ends of the text;
* `SourceDocument.textIn_allLines`: the text of all lines.
-/

namespace CommentTags

namespace Text

variable {text : Text}

/-- Lines start at some of the offsets up to the end of the text. -/
theorem mem_documentLineStarts {i : Nat} :
    i ∈ text.documentLineStarts ↔ i ≤ text.size ∧ text.startsDocumentLine i = true := by
  rw [documentLineStarts, Array.mem_filter, Array.mem_range, Nat.lt_succ_iff]

/-- Lines start in order. -/
theorem pairwise_documentLineStarts : text.documentLineStarts.toList.Pairwise (· < ·) := by
  rw [documentLineStarts, Array.toList_filter, Array.toList_range]
  exact List.pairwise_lt_range.filter _

/-- The first line starts with the text. -/
theorem getElem?_documentLineStarts_zero : text.documentLineStarts[0]? = some 0 := by
  have hfirst : text.startsDocumentLine 0 = true := rfl
  rw [← Array.getElem?_toList, documentLineStarts, Array.toList_filter, Array.toList_range,
    List.range_succ_eq_map, List.filter_cons_of_pos hfirst]
  rfl

/-- A line starts at the end of a text whose last character is a line feed. -/
theorem size_mem_documentLineStarts (h : text[text.size - 1]? = some '\n') :
    text.size ∈ text.documentLineStarts := by
  rw [mem_documentLineStarts, startsDocumentLine, h]
  simp [isLineBreak]

end Text

namespace LineIndex

variable {index : LineIndex}

/-- Earlier lines start at smaller offsets. -/
theorem lt_of_getElem?_starts {i j a b : Nat} (hij : i < j) (hi : index.starts[i]? = some a)
    (hj : index.starts[j]? = some b) : a < b := by
  have hsorted := index.text.pairwise_documentLineStarts
  rw [← index.starts_eq, List.pairwise_iff_getElem] at hsorted
  obtain ⟨hi', rfl⟩ := Array.getElem?_eq_some_iff.1 hi
  obtain ⟨hj', rfl⟩ := Array.getElem?_eq_some_iff.1 hj
  exact hsorted i j hi' hj' hij

/-- There is always a line. -/
theorem lineCount_pos : 0 < index.lineCount := by
  have hfirst := index.text.getElem?_documentLineStarts_zero
  rw [← index.starts_eq, Array.getElem?_eq_some_iff] at hfirst
  exact hfirst.1

/-- The last line goes on to the end of the text, to the last character. -/
theorem lineLength_last {start : Nat} (h : index.starts[index.lineCount - 1]? = some start) :
    start ≤ index.charCount ∧ index.lineLength (index.lineCount - 1) = index.charCount - start := by
  have hmem : start ∈ index.text.documentLineStarts := by
    rw [← index.starts_eq]
    exact Array.mem_of_getElem? h
  have hle : start ≤ index.charCount := (Text.mem_documentLineStarts.1 hmem).1
  refine ⟨hle, ?_⟩
  -- no line follows that would end this one
  have hnext : index.starts[index.lineCount - 1 + 1]? = none := by
    rw [Array.getElem?_eq_none_iff]
    show index.lineCount ≤ index.lineCount - 1 + 1
    omega
  rw [lineLength, h]
  dsimp only
  rw [hnext, Option.getD_none, columns]
  -- after a line feed at the end another line would start
  rw [if_neg]
  rw [Bool.and_eq_true, decide_eq_true_eq, beq_iff_eq]
  rintro ⟨hlt, hfeed⟩
  obtain ⟨j, hj⟩ := Array.mem_iff_getElem?.1 (Text.size_mem_documentLineStarts hfeed)
  rw [← index.starts_eq] at hj
  have hlast : j ≤ index.lineCount - 1 := by
    obtain ⟨hlt, -⟩ := Array.getElem?_eq_some_iff.1 hj
    exact Nat.le_sub_one_of_lt hlt
  have hsize : index.text.size = index.charCount := rfl
  rcases Nat.eq_or_lt_of_le hlast with rfl | hbefore
  · rw [h] at hj
    cases hj
    omega
  · have := lt_of_getElem?_starts hbefore hj h
    omega

/-- The first column of the first line is at the start of the text. -/
theorem offsetAt_start : index.offsetAt ⟨0, 0⟩ = 0 := by
  have hfirst := index.text.getElem?_documentLineStarts_zero
  rw [← index.starts_eq] at hfirst
  rw [offsetAt, hfirst]
  simp

/-- A column of the last line beyond all characters is at the end of the text. -/
theorem offsetAt_end {column : Nat} (h : index.charCount ≤ column) :
    index.offsetAt ⟨index.lineCount - 1, column⟩ = index.charCount := by
  have hlt : index.lineCount - 1 < index.starts.size := Nat.sub_one_lt_of_lt index.lineCount_pos
  have hlast := Array.getElem?_eq_getElem hlt
  obtain ⟨hle, hlength⟩ := lineLength_last hlast
  rw [offsetAt]
  dsimp only
  rw [hlast]
  dsimp only
  rw [hlength]
  omega

/-- Between the two ends of the text there is all of it. -/
theorem slice_all : index.slice 0 index.charCount = index.toString := by
  rw [slice, Text.slice, charCount, Array.extract_size, toString]

end LineIndex

/-- The whole lines from the first to the last hold the whole text, if columns can count its characters. -/
theorem SourceDocument.textIn_allLines (document : SourceDocument)
    (h : document.index.charCount ≤ Position.endOfLine) :
    TextDocument.textIn document (.lines 0 (TextDocument.lineCount document - 1)) =
      TextDocument.text document := by
  show document.index.slice (document.index.offsetAt ⟨0, 0⟩)
    (document.index.offsetAt ⟨document.index.lineCount - 1, Position.endOfLine⟩) = _
  rw [LineIndex.offsetAt_start, LineIndex.offsetAt_end h, LineIndex.slice_all]
  rfl

end CommentTags
