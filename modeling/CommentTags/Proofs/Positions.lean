import CommentTags.Proofs.LineIndex
import CommentTags.Proofs.TagKeys
import CommentTags.Proofs.Windows

/-!
# From offsets to positions and back

Each offset of a text stands on one line: the last line that starts no later. Its position is that line with
the characters since the line's start, so positions come in the order of their offsets. Columns stop before
the line feed at the end of a line and the carriage return before it. Between those two there is an offset
that no position stands for; every other offset is that of its position.

The ranges of a scan start at a character that is no line feed and end after one that is no white space. So
neither end is between a carriage return and its line feed, and a range survives the conversion.

## Main definitions

* `Text.SplitsBreak`: an offset is between a carriage return and its line feed.

## Main results

* `LineIndex.offsetAt_positionAt`: the offset of the position of an offset;
* `LineIndex.before_positionAt`: positions come in the order of their offsets;
* `SourceDocument.ranges_lossless`: the ranges that are shown for a scan of a document.
-/

namespace CommentTags

/-- The offset is between a carriage return and its line feed. -/
def Text.SplitsBreak (text : Text) (offset : Nat) : Prop :=
  0 < offset ∧ text[offset - 1]? = some '\r' ∧ text[offset]? = some '\n'

instance (text : Text) (offset : Nat) : Decidable (text.SplitsBreak offset) :=
  inferInstanceAs (Decidable (_ ∧ _ ∧ _))

namespace LineIndex

variable {index : LineIndex} {offset : Nat}

/-! ## The line of an offset -/

/-- An offset stands on the last line that starts no later. -/
theorem lineOf_spec (index : LineIndex) (offset : Nat) :
    ∃ start, index.starts[index.lineOf offset]? = some start ∧ start ≤ offset ∧
      ∀ next, index.starts[index.lineOf offset + 1]? = some next → offset < next := by
  let later (i : Nat) : Bool := index.starts[i]?.all (offset < ·)
  let point := partitionPoint later 0 index.starts.size
  have hline : index.lineOf offset = point - 1 := rfl
  -- a line after one that starts later starts later
  have hmono : ∀ j k, j ≤ k → k < index.starts.size → later j = true → later k = true := by
    intro j k hjk hk hj
    rcases Nat.eq_or_lt_of_le hjk with rfl | hlt
    · exact hj
    have hstart := Array.getElem?_eq_getElem hk
    have hstart' := Array.getElem?_eq_getElem (Nat.lt_trans hlt hk)
    have horder := lt_of_getElem?_starts hlt hstart' hstart
    simp only [later, hstart, hstart', Option.all_some, decide_eq_true_eq] at hj ⊢
    omega
  have hlater {i : Nat} (hi : i < index.starts.size) : point ≤ i ↔ offset < index.starts[i] := by
    rw [partitionPoint_le_iff hmono (Nat.zero_le i) hi]
    simp [later, hi]
  have hsize : point ≤ index.starts.size := partitionPoint_le (Nat.zero_le _)
  -- the first line starts with the text
  have hfirst : 0 < point := by
    have hzero := index.text.getElem?_documentLineStarts_zero
    rw [← index.starts_eq] at hzero
    obtain ⟨hpos, hstart⟩ := Array.getElem?_eq_some_iff.1 hzero
    have := (hlater hpos).1
    omega
  have hlt : point - 1 < index.starts.size := by omega
  refine ⟨index.starts[point - 1], by rw [hline, Array.getElem?_eq_getElem hlt], ?_, fun next hnext => ?_⟩
  · have := (hlater hlt).2
    omega
  · rw [hline, Nat.sub_add_cancel hfirst] at hnext
    obtain ⟨hlt', rfl⟩ := Array.getElem?_eq_some_iff.1 hnext
    exact (hlater hlt').1 (Nat.le_refl _)

/-- The position of an offset is its line and its distance from the start of the line. -/
theorem positionAt_eq (h : offset ≤ index.charCount) {start : Nat}
    (hstart : index.starts[index.lineOf offset]? = some start) :
    index.positionAt offset = ⟨index.lineOf offset, offset - start⟩ := by
  simp [positionAt, Nat.min_eq_left h, hstart]

/-! ## Order -/

/-- Positions come in the order of their offsets. -/
theorem before_positionAt {a b : Nat} (hlt : a < b) (hb : b ≤ index.charCount) :
    (index.positionAt a).before (index.positionAt b) = true := by
  obtain ⟨s, hs, hsa, -⟩ := index.lineOf_spec a
  obtain ⟨t, ht, htb, hnext⟩ := index.lineOf_spec b
  rw [positionAt_eq (by omega) hs, positionAt_eq hb ht]
  simp only [Position.before, Bool.or_eq_true, Bool.and_eq_true, decide_eq_true_eq, beq_iff_eq]
  rcases Nat.lt_trichotomy (index.lineOf a) (index.lineOf b) with hline | hline | hline
  · exact .inl hline
  · rw [hline, ht] at hs
    cases hs
    exact .inr ⟨hline, by omega⟩
  -- the line after that of `b` starts after `b`, and that of `a` does not start earlier
  · have hsize : index.lineOf b + 1 < index.starts.size :=
      Nat.lt_of_le_of_lt hline (Array.getElem?_eq_some_iff.1 hs).1
    have hafter := Array.getElem?_eq_getElem hsize
    have := hnext _ hafter
    rcases Nat.eq_or_lt_of_le hline with heq | hbefore
    · rw [← heq, hafter] at hs
      cases hs
      omega
    · have := lt_of_getElem?_starts hbefore hafter hs
      omega

/-! ## Back to the offset -/

/-- An offset of a line is among the columns of the line, unless it splits the break at its end. -/
theorem le_columns {text : Text} {start stop : Nat} (hstart : start ≤ offset) (hstop : offset ≤ stop)
    (hfeed : offset = stop → start < stop → text[stop - 1]? ≠ some '\n') (hsplit : ¬ text.SplitsBreak offset) :
    offset - start ≤ columns text start stop := by
  rw [columns]
  split
  · next hbreak =>
    rw [Bool.and_eq_true, decide_eq_true_eq, beq_iff_eq] at hbreak
    have hlt : offset < stop := by
      rcases Nat.eq_or_lt_of_le hstop with heq | hlt
      · exact absurd hbreak.2 (hfeed heq (by omega))
      · exact hlt
    split
    · next hreturn =>
      rw [Bool.and_eq_true, decide_eq_true_eq, beq_iff_eq] at hreturn
      -- the offset of the line feed is the one that splits the break
      have hne : offset ≠ stop - 1 := by
        intro heq
        have hoffset : offset - 1 = stop - 2 := by omega
        exact hsplit ⟨by omega, hoffset ▸ hreturn.2, heq ▸ hbreak.2⟩
      omega
    · omega
  · omega

/-- An offset is the offset of its position, unless it is between a carriage return and its line feed. -/
theorem offsetAt_positionAt (h : offset ≤ index.charCount) (hsplit : ¬ index.text.SplitsBreak offset) :
    index.offsetAt (index.positionAt offset) = offset := by
  obtain ⟨start, hstart, hle, hnext⟩ := index.lineOf_spec offset
  have hcolumns : offset - start ≤ index.lineLength (index.lineOf offset) := by
    rw [lineLength, hstart]
    dsimp only
    cases hafter : index.starts[index.lineOf offset + 1]? with
    | some next =>
      have := hnext next hafter
      exact le_columns hle (by rw [Option.getD_some]; omega) (by rw [Option.getD_some]; omega) hsplit
    -- no line starts at the end of the text, so the text does not end with a line feed
    | none =>
      refine le_columns hle h (fun _ hlt hfeed => ?_) hsplit
      have hmem := Text.size_mem_documentLineStarts hfeed
      rw [← index.starts_eq, Array.mem_iff_getElem?] at hmem
      obtain ⟨line, hline⟩ := hmem
      rw [Array.getElem?_eq_none_iff] at hafter
      have hsize := (Array.getElem?_eq_some_iff.1 hline).1
      have hend : start < index.text.size := hlt
      rcases Nat.lt_or_eq_of_le (Nat.le_of_lt_succ (Nat.lt_of_lt_of_le hsize hafter)) with hbefore | rfl
      · have := lt_of_getElem?_starts hbefore hline hstart
        omega
      · rw [hstart] at hline
        cases hline
        omega
  rw [positionAt_eq h hstart, offsetAt]
  dsimp only
  rw [hstart]
  dsimp only
  omega

end LineIndex

/-! ## Ranges of a scan -/

/-- Neither end of content is between a carriage return and its line feed. -/
theorem Span.IsContent.not_splitsBreak {text : Text} {span : Span} (h : span.IsContent text 0) :
    ¬ text.SplitsBreak span.start ∧ ¬ text.SplitsBreak span.stop := by
  constructor
  · rintro ⟨-, -, hfeed⟩
    exact h.oneLine span.start (Nat.le_refl _) h.nonempty hfeed
  · rintro ⟨-, hreturn, -⟩
    obtain ⟨c, hc, hsolid⟩ := h.trimmed
    rw [Nat.sub_zero, hreturn] at hc
    cases hc
    exact absurd hsolid (by decide)

namespace SourceDocument

variable (document : SourceDocument)

/-- The range stands for the span: it is not empty, and its ends are at the offsets of the span. -/
structure StandsFor (range : TextRange) (span : Span) : Prop where
  /-- The range is not empty. -/
  nonempty : range.isEmpty = false
  /-- The start is that of the span. -/
  start : TextDocument.offsetAt document range.start = span.start
  /-- The end is that of the span. -/
  stop : TextDocument.offsetAt document range.stop = span.stop

variable {document}

/-- The text of a document has the characters that its lines are of. -/
theorem ofString_text : Text.ofString (TextDocument.text document) = document.index.text := by
  show (String.ofList document.index.text.toList).toList.toArray = document.index.text
  rw [String.toList_ofList, Array.toArray_toList]

/-- Content keeps its ends when it is turned into a range. -/
theorem standsFor_of_isContent {span : Span} (h : span.IsContent document.index.text 0) :
    document.StandsFor
      ⟨TextDocument.positionAt document span.start, TextDocument.positionAt document span.stop⟩ span := by
  have hstop : span.stop ≤ document.index.charCount := by
    have := h.stop_le
    rwa [Nat.zero_add] at this
  have hstart : span.start ≤ document.index.charCount := Nat.le_trans (Nat.le_of_lt h.nonempty) hstop
  refine ⟨?_, ?_, ?_⟩
  · show (!(document.index.positionAt span.start).before (document.index.positionAt span.stop)) = false
    rw [LineIndex.before_positionAt h.nonempty hstop, Bool.not_true]
  · exact LineIndex.offsetAt_positionAt hstart h.not_splitsBreak.1
  · exact LineIndex.offsetAt_positionAt hstop h.not_splitsBreak.2

/-- Converting offsets to positions loses nothing. An offset up to the end of the text is that of its position
unless it is between a carriage return and its line feed, positions come in the order of their offsets, and
the ranges shown for a scan of the document stand for the spans that the scan has found. -/
theorem ranges_lossless (document : SourceDocument) :
    (∀ offset ≤ document.index.charCount, ¬ document.index.text.SplitsBreak offset →
      TextDocument.offsetAt document (TextDocument.positionAt document offset) = offset) ∧
    (∀ a b, a < b → b ≤ document.index.charCount →
      (TextDocument.positionAt document a).before (TextDocument.positionAt document b) = true) ∧
    ∀ (σ : Type) [Checkpoint σ] (engine : Engine) (files : Files) (checkpoint : σ) (ranges : TagRanges),
      (engine.scanDocument files document checkpoint).value.result = .ok ranges →
      (∀ h ∈ ranges.flat, document.StandsFor
        ⟨TextDocument.positionAt document h.span.start, TextDocument.positionAt document h.span.stop⟩
        h.span) ∧
      ∀ (tags : TagTable) (map : DecorationMap), ∀ key ∈ tags.keys,
        List.Forall₂ document.StandsFor ((applyDecorations tags document ranges map).get key)
          (ranges.get key) := by
  refine ⟨fun offset => LineIndex.offsetAt_positionAt, fun a b => LineIndex.before_positionAt, ?_⟩
  intro σ _ engine files checkpoint ranges hscan
  have hcontent : ranges.AreContent document.index.text 0 := by
    rw [← ofString_text]
    exact engine.areContent_of_scan hscan
  refine ⟨fun h hmem => standsFor_of_isContent (hcontent.content h hmem), fun tags map key hkey => ?_⟩
  rw [DecorationMap.get_applyDecorations hkey, List.forall₂_map_left_iff, List.forall₂_same]
  intro span hspan
  exact standsFor_of_isContent
    (hcontent.content ⟨Unicode.lowercase key, span⟩ (TagRanges.mem_flat.2 hspan))

/-- A line of plain text whose range ends before a carriage return and its line feed. -/
theorem ranges_lossless_crlf :
    let config : ScanConfig := { highlightPlainText := true, tags := [.named "!" "red"] }
    let engine := (Engine.new .lenient config .empty).state
    let document := SourceDocument.new Engine.plainTextLanguage "! a\r\nb"
    let before : DecorationMap := {}
    ∃ ranges, (engine.scanDocument (fun _ => none) document Unlimited.mk).value.result = .ok ranges ∧
      ranges.get "!" = [⟨0, 3⟩] ∧ "!" ∈ engine.tags.keys ∧
      List.Forall₂ document.StandsFor ((applyDecorations engine.tags document ranges before).get "!") [⟨0, 3⟩] ∧
      (3 ≤ document.index.charCount ∧ ¬ document.index.text.SplitsBreak 3 ∧
        TextDocument.offsetAt document (TextDocument.positionAt document 3) = 3) ∧
      (3 < 5 ∧ 5 ≤ document.index.charCount ∧
        (TextDocument.positionAt document 3).before (TextDocument.positionAt document 5) = true) := by
  intro config engine document before
  obtain ⟨ranges, hresult, hranges⟩ := Engine.exists_collect_of_plainText .lenient
    (show config.highlightPlainText = true from rfl) .empty (fun _ => none) "! a\r\nb"
  have hget : ranges.get "!" = [⟨0, 3⟩] := by
    rw [hranges]
    decide +kernel
  have hkey : "!" ∈ engine.tags.keys := by
    show "!" ∈ (TagTable.build config.tags .empty).1.keys
    rw [TagTable.build_fst]
    decide +kernel
  have hcount : document.index.charCount = 6 := by decide +kernel
  have hsplit : ¬ document.index.text.SplitsBreak 3 := by decide +kernel
  obtain ⟨hback, hbefore, hscan⟩ := ranges_lossless document
  have hshown :=
    (hscan Unlimited engine (fun _ => none) Unlimited.mk ranges hresult).2 engine.tags before "!" hkey
  rw [hget] at hshown
  exact ⟨ranges, hresult, hget, hkey, hshown, ⟨by omega, hsplit, hback 3 (by omega) hsplit⟩,
    by omega, by omega, hbefore 3 5 (by omega) (by omega)⟩

end SourceDocument

end CommentTags
