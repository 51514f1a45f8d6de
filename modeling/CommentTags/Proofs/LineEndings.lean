import CommentTags.Proofs.Copy.Scan

/-!
# Line endings

A text whose lines end with a line feed and the same text with a carriage return before each line feed are
highlighted alike. The second is a copy of the first: a position is moved by the number of line feeds
before it. The carriage returns are white space at the ends of lines, so the highlights begin and end at
the same characters.

## Main definitions

* `crlf`: the text with a carriage return before each line feed;
* `crlfSpot`: where an offset of the document is moved.

## Main results

* `Matchers.scan_crlf`: a scan of the text with carriage returns answers the same keys, every range moved.
-/

namespace CommentTags

/-- The character with a carriage return before it, if it is a line feed. -/
def crlfChar (c : Char) : List Char :=
  if c = '\n' then ['\r', '\n'] else [c]

/-- The text with a carriage return before each line feed. -/
def crlf (text : String) : String :=
  String.ofList (text.toList.flatMap crlfChar)

/-- Where the offset `p` of a document is moved when each line feed of the text that starts at `base` gets a
carriage return. -/
def crlfSpot (text : String) (base p : Nat) : Nat :=
  p + (text.toList.take (p - base)).count '\n'

theorem length_crlfChar (c : Char) : (crlfChar c).length = 1 + if c == '\n' then 1 else 0 := by
  rw [crlfChar]
  split
  · next hc => rw [if_pos (beq_iff_eq.2 hc)]; rfl
  · next hc => rw [if_neg (mt beq_iff_eq.1 hc)]; rfl

theorem length_flatMap_crlfChar (chars : List Char) :
    (chars.flatMap crlfChar).length = chars.length + chars.count '\n' := by
  induction chars with
  | nil => rfl
  | cons c rest ih =>
    rw [List.flatMap_cons, List.length_append, ih, length_crlfChar, List.length_cons, List.count_cons]
    omega

/-- Later offsets are moved further. -/
theorem strictMono_crlfSpot (text : String) (base : Nat) : StrictMono (crlfSpot text base) := by
  refine strictMono_nat_of_lt_succ fun p => ?_
  have hcount : (text.toList.take (p - base)).count '\n' ≤ (text.toList.take (p + 1 - base)).count '\n' :=
    (List.take_prefix_take_left (by omega)).sublist.count_le _
  rw [crlfSpot, crlfSpot]
  omega

theorem crlfSpot_add (text : String) (base i : Nat) :
    crlfSpot text base (base + i) = base + crlfSpot text 0 i := by
  rw [crlfSpot, crlfSpot, Nat.add_sub_cancel_left, Nat.sub_zero, Nat.add_assoc]

/-- What a character becomes stands at the place to which it is moved, and the next one follows. -/
theorem occursAt_crlfChar {text : String} {i : Nat} {c : Char} (hc : (Text.ofString text)[i]? = some c) :
    (Text.ofString (crlf text)).occursAt (crlfChar c) (crlfSpot text 0 i) = true ∧
      crlfSpot text 0 (i + 1) = crlfSpot text 0 i + (crlfChar c).length := by
  rw [Text.ofString, List.getElem?_toArray] at hc
  obtain ⟨hlt, rfl⟩ := List.getElem?_eq_some_iff.1 hc
  have hlength : crlfSpot text 0 i = ((text.toList.take i).flatMap crlfChar).length := by
    rw [length_flatMap_crlfChar, List.length_take, Nat.min_eq_left (Nat.le_of_lt hlt)]
    rfl
  have hsplit : text.toList.flatMap crlfChar = (text.toList.take i).flatMap crlfChar ++
      (crlfChar text.toList[i] ++ (text.toList.drop (i + 1)).flatMap crlfChar) := by
    rw [← List.flatMap_cons, ← List.drop_eq_getElem_cons hlt, ← List.flatMap_append, List.take_append_drop]
  constructor
  · rw [Text.occursAt_iff, Text.ofString, crlf, String.toList_ofList, hsplit, hlength]
    intro k d hk
    have hklt : k < (crlfChar text.toList[i]).length := (List.getElem?_eq_some_iff.1 hk).1
    rw [List.getElem?_toArray, List.getElem?_append_right (Nat.le_add_right _ _), Nat.add_sub_cancel_left,
      List.getElem?_append_left hklt, hk]
  · rw [crlfSpot, crlfSpot, length_crlfChar, Nat.sub_zero, Nat.sub_zero, List.take_succ_eq_append_getElem hlt,
      List.count_append, List.count_singleton]
    omega

/-- The text with carriage returns ends where the end of the text is moved to. -/
theorem crlfSpot_size (text : String) :
    crlfSpot text 0 (Text.ofString text).size = (Text.ofString (crlf text)).size := by
  rw [Text.ofString, Text.ofString, crlf, String.toList_ofList, List.size_toArray, List.size_toArray,
    length_flatMap_crlfChar, crlfSpot, Nat.sub_zero, List.take_length]

theorem isEmpty_crlf (text : String) : (crlf text).isEmpty = text.isEmpty := by
  have hchar (c : Char) : crlfChar c ≠ [] := by
    rw [crlfChar]
    split <;> exact List.cons_ne_nil _ _
  rw [Bool.eq_iff_iff, String.isEmpty_iff, String.isEmpty_iff, ← String.toList_eq_nil_iff,
    ← String.toList_eq_nil_iff, crlf, String.toList_ofList, List.flatMap_eq_nil_iff,
    List.eq_nil_iff_forall_not_mem]
  exact forall₂_congr fun c _ => iff_of_false (hchar c) id

/-- The text with carriage returns is a copy of the text. -/
theorem copiesAt_crlf (text : String) (base : Nat) :
    (Text.ofString text).CopiesAt (Text.ofString (crlf text)) .crlf (crlfSpot text 0) base base
      (crlfSpot text base) where
  mono := strictMono_crlfSpot text 0
  starts := rfl
  solid i c hc hne := by
    obtain ⟨hocc, hnext⟩ := occursAt_crlfChar hc
    rw [crlfChar, if_neg hne] at hocc hnext
    exact ⟨Text.occursAt_singleton.1 hocc, hnext⟩
  feed i hi := occursAt_crlfChar hi
  ends := .inl (crlfSpot_size text)
  spot_mono := strictMono_crlfSpot text base
  spot_add := crlfSpot_add text base

namespace Matchers

variable {σ : Type} [Checkpoint σ]

/-- The plan of a scan of the text with carriage returns does what the plan of a scan of the text does. -/
theorem plan_crlf (matchers : Matchers)
    (hmarks : ∀ mark ∈ matchers.shape.marks, '\r' ∉ mark.chars ∧ '\n' ∉ mark.chars) (text : String)
    (offset : Nat) :
    List.Forall₂ (ScanAction.Alike
        (Span.Copied (.ofString text) (.ofString (crlf text)) (crlfSpot text 0) offset offset)
        (crlfSpot text offset))
      (matchers.plan text offset .empty) (matchers.plan (crlf text) offset .empty) := by
  have hspares : ∀ mark ∈ matchers.shape.marks, LineEnding.crlf.Spares mark.chars := by
    intro mark hmark c hc hmem
    rw [LineEnding.chars, List.mem_pair] at hmem
    rcases hmem with rfl | rfl
    · exact (hmarks mark hmark).1 hc
    · exact (hmarks mark hmark).2 hc
  rw [plan, plan, isEmpty_crlf]
  split
  · exact .nil
  · exact planText_alike (copiesAt_crlf text offset) (crlfSpot_size text) rfl matchers hspares
      (ClaimSet.copied_empty fun _ hs => absurd hs List.not_mem_nil)

/-- If no mark has a carriage return or a line feed, a scan of the text with a carriage return before each
line feed answers the keys that a scan of the text answers, and every range moved: an offset by the number
of line feeds before it. It is interrupted iff the other one is, since every checkpoint is consulted as
often and ends in the same state; a checkpoint that never fails interrupts neither. -/
theorem scan_crlf (matchers : Matchers)
    (hmarks : ∀ mark ∈ matchers.shape.marks, '\r' ∉ mark.chars ∧ '\n' ∉ mark.chars) (text : String)
    (offset : Nat) (checkpoint : σ) :
    let here := matchers.scan text offset .empty checkpoint
    let there := matchers.scan (crlf text) offset .empty checkpoint
    let moved (p : Nat) := p + (text.toList.take (p - offset)).count '\n'
    there.result.map TagRanges.toList =
        here.result.map (fun ranges => ranges.toList.map fun entry =>
          (entry.1, entry.2.map fun range => ⟨moved range.start, moved range.stop⟩)) ∧
      there.checkpoint = here.checkpoint ∧
      (Checkpoint.Allows checkpoint → ∃ ranges, here.result = .ok ranges) := by
  intro here there moved
  have hplan := matchers.plan_crlf hmarks text offset
  obtain ⟨made, made', checkpoint', -, hends⟩ := Scanned.ofPlan_alike hplan .empty .empty checkpoint
  rw [← matchers.scan_eq_ofPlan, ← matchers.scan_eq_ofPlan] at hends
  refine ⟨?_, ?_, fun hallows => ?_⟩
  · rcases hends with ⟨hhere, hthere⟩ | ⟨hhere, hthere⟩
    · rw [show here = _ from hhere, show there = _ from hthere]
      refine congrArg Except.ok ?_
      rw [TagRanges.toList_collect_relocate (strictMono_crlfSpot text offset), TagRanges.toList_relocate]
      rfl
    · rw [show here = _ from hhere, show there = _ from hthere]
      rfl
  · rcases hends with ⟨hhere, hthere⟩ | ⟨hhere, hthere⟩
    · rw [show here = _ from hhere, show there = _ from hthere]
    · rw [show here = _ from hhere, show there = _ from hthere]
  · obtain ⟨ranges, hresult, -⟩ := scan_of_allows matchers text offset .empty hallows
    exact ⟨ranges, hresult⟩

/-- Two lines of a run: behind the carriage return the second range is one offset further on. -/
theorem scan_crlf_run :
    let matchers : Matchers := ⟨none, some ⟨"^(?:!)", [['!']]⟩, .code [.doc] [⟨['#'], by decide⟩]⟩
    let there := matchers.scan (crlf "# !\n# !") 5 .empty ({} : Budget)
    (∀ mark ∈ matchers.shape.marks, '\r' ∉ mark.chars ∧ '\n' ∉ mark.chars) ∧
      there.result.map TagRanges.toList = .ok [("!", [⟨7, 8⟩, ⟨12, 13⟩])] ∧
      there.checkpoint.consulted = 2 := by
  intro matchers there
  have hmarks : ∀ mark ∈ matchers.shape.marks, '\r' ∉ mark.chars ∧ '\n' ∉ mark.chars := by
    dsimp only [matchers]
    decide
  obtain ⟨hresult, hcheckpoint, -⟩ := scan_crlf matchers hmarks "# !\n# !" 5 ({} : Budget)
  refine ⟨hmarks, hresult.trans ?_, (congrArg Budget.consulted hcheckpoint).trans ?_⟩
  · simp only [Matchers.scan, TagRanges.collect, TagRanges.normalize_eq_insertionSort]
    decide +kernel
  · dsimp only [matchers]
    decide +kernel

end Matchers

end CommentTags
