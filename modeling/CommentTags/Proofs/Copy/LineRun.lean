import CommentTags.Proofs.Copy.Sweep
import Mathlib.Data.List.Find

/-!
# Runs of line comments in a copy

A run is read in the copy as in the text: its lines carry the same mark, and claims cut it at the same
place. After the end of the text nothing is added to a run, for the copy ends there, or an empty line
follows. So runs are found in the copy at their places, and then the search for a mark goes on after the
copy.

## Main definitions

* `LineRun.Copied`: what was read of a run is copied.

## Main results

* `LineRun.read_copied`: a run is read in the copy as in the text;
* `LineRun.pass_copiedBy`: the pass over the copy finds the runs of the text;
* `LineRun.next_eq_none_of_size`: in a copy that ends with its text it finds no others.
-/

namespace CommentTags.LineRun

/-- What was read of a run is copied. -/
structure Copied (text copy : Text) (place : Nat → Nat) (run run' : LineRun) : Prop where
  lines : run'.lines = run.lines.map (CommentLine.relocate place)
  stop : text.Stands copy place run.stop run'.stop
  resume : text.Stands copy place run.resume run'.resume

variable {text copy : Text} {ending : LineEnding} {place : Nat → Nat} {base base' : Nat} {spot : Nat → Nat}

/-! ## Marks -/

/-- A mark with its repetitions has no character of a line ending either. -/
theorem spares_of_markAt? {marks : List Mark} (hmarks : ∀ m ∈ marks, ending.Spares m.chars) {i : Nat}
    {mark : Mark} (hmark : markAt? marks text i = some mark) : ending.Spares mark.chars := by
  rw [markAt?, Option.map_eq_some_iff] at hmark
  obtain ⟨m, hm, rfl⟩ := hmark
  have hspares := hmarks m (List.mem_of_find?_eq_some hm)
  intro c hc
  rw [extend, List.mem_append] at hc
  rcases hc with hc | hc
  · exact hspares c hc
  · rw [(List.mem_replicate.1 hc).2]
    exact hspares _ (List.getLast_mem m.nonempty)

/-- A mark is not found at a character of a line ending. -/
theorem solidAt_of_markAt? {marks : List Mark} (hmarks : ∀ m ∈ marks, ending.Spares m.chars) {i : Nat}
    (h : (markAt? marks text i).isSome = true) : text.SolidAt i := by
  obtain ⟨mark, hmark⟩ := Option.isSome_iff_exists.1 h
  exact Text.solidAt_of_occursAt (spares_of_markAt? hmarks hmark) mark.nonempty (occursAt_of_markAt? hmark)

section Marks

variable (h : text.Copies copy ending place)
include h

/-- The mark at a position has as many repetitions in the copy. -/
theorem extend_place {mark : Mark} (hspares : ending.Spares mark.chars) {i : Nat}
    (hocc : text.occursAt mark.chars i = true) (hi : i ≤ text.size) :
    extend copy (place i) mark = extend text i mark := by
  have hfit : i + mark.length ≤ text.size := Text.add_length_le_of_occursAt hocc hi
  have hmark : place (i + mark.length) = place i + mark.length :=
    h.place_add_length hspares hocc (Nat.le_of_add_right_le hfit)
  have hlast : mark.last ∉ ending.chars := hspares _ (List.getLast_mem mark.nonempty)
  have hskip : copy.skipChar mark.last (place (i + mark.length)) copy.size - place (i + mark.length) =
      text.skipChar mark.last (i + mark.length) text.size - (i + mark.length) := by
    refine h.skipChar_sub_place hlast hfit (Nat.le_refl _) h.place_size_le fun _ => ?_
    rw [Array.getElem?_eq_none (Nat.le_refl _)]
    exact fun heq => by cases heq
  rw [hmark] at hskip
  rw [extend, extend, Mark.mk.injEq, hskip]

/-- The same mark stands at the place of a position. -/
theorem markAt?_place {marks : List Mark} (hmarks : ∀ m ∈ marks, ending.Spares m.chars) {i : Nat}
    (hi : i ≤ text.size) : markAt? marks copy (place i) = markAt? marks text i := by
  have hfind : marks.find? (copy.occursAt ·.chars (place i)) = marks.find? (text.occursAt ·.chars i) :=
    List.find?_congr fun m hm => h.occursAt_place (hmarks m hm) hi
  rw [markAt?, markAt?, hfind]
  cases hm : marks.find? (text.occursAt ·.chars i) with
  | none => rfl
  | some m =>
    have hocc : text.occursAt m.chars i = true := by simpa using List.find?_some hm
    exact congrArg some (extend_place h (hmarks m (List.mem_of_find?_eq_some hm)) hocc hi)

/-- A mark stands nowhere else in the copy. -/
theorem exists_of_markAt? {marks : List Mark} (hmarks : ∀ m ∈ marks, ending.Spares m.chars) {q : Nat}
    (h₁ : place 0 ≤ q) (h₂ : q < place text.size) (hq : (markAt? marks copy q).isSome = true) :
    ∃ i, i < text.size ∧ q = place i := by
  obtain ⟨mark, hmark⟩ := Option.isSome_iff_exists.1 hq
  obtain ⟨i, rfl, hsolid, -⟩ :=
    h.exists_of_occursAt (spares_of_markAt? hmarks hmark) mark.nonempty h₁ h₂ (occursAt_of_markAt? hmark)
  exact ⟨i, hsolid.lt_size, rfl⟩

/-- A further line of a run carries its mark in the copy iff it does in the text. -/
theorem continuation?_place {mark : Mark} (hspares : ending.Spares mark.chars) {lineStart : Nat}
    (hle : lineStart ≤ text.size) :
    continuation? copy mark (place lineStart) = (continuation? text mark lineStart).map place := by
  have hskip : copy.skipBlanks (place lineStart) copy.size = place (text.skipBlanks lineStart text.size) := by
    refine h.skipBlanks_place hle (Nat.le_refl _) h.place_size_le fun _ => ?_
    rw [Text.blankAt, Array.getElem?_eq_none (Nat.le_refl _)]
    rfl
  rw [continuation?, continuation?, hskip, h.occursAt_place hspares (Text.skipBlanks_le hle)]
  split <;> rfl

/-- After the end of the text no line carries a mark: the copy ends, or an empty line follows. -/
theorem continuation?_after {mark : Mark} (hspares : ending.Spares mark.chars)
    (hlt : place text.size < copy.size) : continuation? copy mark (place text.size + 1) = none := by
  obtain ⟨-, hempty⟩ := h.ends.resolve_left (Nat.ne_of_lt hlt)
  have hskip : copy.skipBlanks (place text.size + 1) copy.size = place text.size + 1 := by
    rw [Text.skipBlanks_eq_iff hlt]
    refine ⟨Nat.le_refl _, hlt, fun j h₁ h₂ => absurd h₁ (by omega), fun _ => ?_⟩
    rw [Text.blankAt, hempty]
    rfl
  rw [continuation?, hskip, if_neg]
  intro hocc
  exact (Text.solidAt_of_occursAt hspares mark.nonempty hocc).ne_newline hempty

/-- The next opening mark in the text is the next one in the copy. -/
theorem findFree?_markAt? {marks : List Mark} (hmarks : ∀ m ∈ marks, ending.Spares m.chars) {pos pos' : Nat}
    (hpos : text.Stands copy place pos pos') (hle : pos ≤ text.size) :
    copy.findFree? (fun i => (markAt? marks copy i).isSome) pos' =
      ((text.findFree? (fun i => (markAt? marks text i).isSome) pos).map place).or
        (firstFrom (fun i => copy.freeAt pos' i && (markAt? marks copy i).isSome) (place text.size)
          (copy.size - place text.size)) := by
  refine h.findFree?_place (fun i hi => ?_) (fun i hi => solidAt_of_markAt? hmarks hi)
    (fun q h₁ h₂ hq => exists_of_markAt? h hmarks h₁ h₂ hq) hpos (h.le_place_size_of_stands hpos hle)
  rw [markAt?_place h hmarks (Nat.le_of_lt hi)]

end Marks

/-! ## Runs -/

section Runs

variable (h : text.CopiesAt copy ending place base base' spot) {claims others : ClaimSet}
  (hclaims : claims.Copied text copy place base base' others)
include h hclaims

/-- A run goes on with the same line. -/
theorem nextMark?_copied {mark : Mark} (hspares : ending.Spares mark.chars) {i : Nat} (hi : i ≤ text.size) :
    nextMark? copy base' others mark (copy.lineEnd (place i)) =
      (nextMark? text base claims mark (text.lineEnd i)).map place := by
  obtain ⟨-, hnext, hend⟩ := h.stands_lineEnd hi
  rcases Nat.lt_or_eq_of_le (Text.lineEnd_le hi) with hlt | heq
  · have hle := h.place_le_size (Nat.succ_le_of_lt hlt)
    rw [Nat.succ_eq_add_one, ← hnext hlt] at hle
    rw [nextMark?, nextMark?, if_pos hlt, if_pos (Nat.lt_of_succ_le hle), hnext hlt,
      continuation?_place h.toCopies hspares hlt]
    cases hcont : continuation? text mark (text.lineEnd i + 1) with
    | none => rfl
    | some next =>
      have hocc := (carriesAt_of_continuation? hcont hlt).occurs
      rw [Option.map_some, Option.filter_some, Option.filter_some,
        h.contains_eq hclaims (Text.solidAt_of_occursAt hspares mark.nonempty hocc)]
      split <;> rfl
  · rw [hend heq, nextMark?, nextMark?, heq, if_neg (Nat.lt_irrefl _)]
    split
    · next hlt =>
      rw [continuation?_after h.toCopies hspares hlt]
      rfl
    · rfl

/-- A run is read in the copy as in the text. -/
theorem read_copied {mark : Mark} (hspares : ending.Spares mark.chars) (lines : List CommentLine)
    {stop stop' : Nat} (hstop : text.Stands copy place stop stop') {p : Nat}
    (hocc : text.occursAt mark.chars p = true) :
    Copied text copy place (read text base claims mark lines stop p)
      (read copy base' others mark (lines.map (CommentLine.relocate place)) stop' (place p)) := by
  have hfit := mark.add_length_le_of_occursAt hocc
  have hmark : place (p + mark.length) = place p + mark.length :=
    h.place_add_length hspares hocc (Nat.le_of_add_right_le hfit)
  have hmarkEnd := Text.le_lineEnd text (p + mark.length)
  have heol := Text.lineEnd_le hfit
  have hstands := (h.stands_lineEnd hfit).1
  have hnext := nextMark?_copied h hclaims hspares hfit
  rw [hmark] at hstands hnext
  obtain ⟨hcut, hlt⟩ := h.cutAt_copied hclaims hstands (j := p)
  have hmarkCut := h.lt_iff_of_stands hcut (j := p + mark.length)
  rw [hmark] at hmarkCut
  obtain ⟨-, hcutLe, -⟩ := @cutAt_spec base claims p (text.lineEnd (p + mark.length)) (by omega)
  -- one case for each way in which the loop ends or goes on
  rw [read_eq, read_eq]
  by_cases hshort : cutAt base claims p (text.lineEnd (p + mark.length)) < p + mark.length
  · rw [if_pos hshort, if_pos (hmarkCut.1 hshort)]
    exact ⟨List.map_reverse.symm, hstop, .inl hmark.symm⟩
  · rw [if_neg hshort, if_neg (fun hlt => hshort (hmarkCut.2 hlt))]
    have hfree := (Text.freeOfNewlines_lineEnd hfit).mono (Nat.le_refl _) hcutLe
    have hline := h.ofSegment_place afterOneBlank (Nat.le_of_not_lt hshort) (Nat.le_trans hcutLe heol) hfree
      hcut
    rw [hmark] at hline
    rw [hline, ← List.map_cons, hnext]
    by_cases hcutLt : cutAt base claims p (text.lineEnd (p + mark.length)) < text.lineEnd (p + mark.length)
    · rw [if_pos hcutLt, if_pos (hlt.1 hcutLt)]
      exact ⟨List.map_reverse.symm, hcut, hcut⟩
    · rw [if_neg hcutLt, if_neg (fun hlt' => hcutLt (hlt.2 hlt'))]
      cases hm : nextMark? text base claims mark (text.lineEnd (p + mark.length)) with
      | none => exact ⟨List.map_reverse.symm, hstands, hstands⟩
      | some next =>
        obtain ⟨hafter, hocc'⟩ := nextMark?_eq_some hm
        have hpos := mark.length_pos
        have hfit' := mark.add_length_le_of_occursAt hocc'
        have hless : text.size - next < text.size - p := by omega
        exact read_copied hspares _ hstands hocc'
termination_by text.size - p

end Runs

/-- The pass over the copy finds the runs of the text. -/
theorem pass_copiedBy (h : text.CopiesAt copy ending place base base' spot) {marks : List Mark}
    (hmarks : ∀ m ∈ marks, ending.Spares m.chars) :
    (pass marks text base).CopiedBy ending place base base' (pass marks copy base') := by
  intro claims others hclaims pos pos' hpos hle found hfound
  have hwithin := (readsApart_of_next hfound).within
  replace hfound : next marks text base claims pos = some found := hfound
  show ∃ found', next marks copy base' others pos' = some found' ∧ _
  simp only [next, Option.bind_eq_bind, Option.bind_eq_some_iff] at hfound
  obtain ⟨start, hstart, mark, hmark, hfound⟩ := hfound
  have hlt := (Text.findFree?_eq_some hstart).2.1
  have hstart' : copy.findFree? (fun i => (markAt? marks copy i).isSome) pos' = some (place start) := by
    rw [findFree?_markAt? h.toCopies hmarks hpos hle, hstart]
    rfl
  have hmark' : markAt? marks copy (place start) = some mark := by
    rw [markAt?_place h.toCopies hmarks (Nat.le_of_lt hlt), hmark]
  have hocc := occursAt_of_markAt? hmark
  have hspares := spares_of_markAt? hmarks hmark
  have hsolid := Text.solidAt_of_occursAt hspares mark.nonempty hocc
  have hfit := mark.add_length_le_of_occursAt hocc
  have hplace : place (start + mark.length) = place start + mark.length :=
    h.place_add_length hspares hocc (Nat.le_of_add_right_le hfit)
  have hcontains := h.contains_eq hclaims hsolid
  simp only [next, hstart', hmark', Option.bind_eq_bind, Option.bind_some, hcontains]
  split at hfound
  · next hclaimed =>
    cases hfound
    rw [if_pos hclaimed]
    -- a mark in a claim is passed over, and nothing is claimed
    have hnothing : Span.Copied text copy place base base' ⟨base + start, base + start⟩
        ⟨base' + place start, base' + place start⟩ :=
      ⟨start, start, place start, hsolid, Nat.le_of_lt hlt, Text.stands_place start, rfl, rfl⟩
    exact ⟨_, rfl, hnothing, rfl, rfl, .inl hplace.symm, hwithin, fun _ hm => by cases hm⟩
  · next hfresh =>
    have hread := read_copied h hclaims hspares [] (Text.stands_place start) hocc
    have hstop := stop_read_le hocc base claims
    cases hfound
    rw [if_neg hfresh]
    refine ⟨_, rfl, ?_, hread.lines, rfl, ?_, hwithin, ?_⟩
    · exact ⟨start, _, _, hsolid, hstop, hread.stop, rfl, rfl⟩
    · rw [← hplace]
      exact h.stands_max hread.resume _
    · rintro m ⟨⟩
      exact hspares

/-- A step of the pass finds nothing iff no position is left where a mark may open a comment. -/
theorem next_eq_none_iff {marks : List Mark} {claims : ClaimSet} {pos : Nat} :
    next marks text base claims pos = none ↔
      text.findFree? (fun i => (markAt? marks text i).isSome) pos = none := by
  rw [next]
  cases hfind : text.findFree? (fun i => (markAt? marks text i).isSome) pos with
  | none => exact iff_of_true rfl rfl
  | some start =>
    obtain ⟨mark, hmark⟩ := Option.isSome_iff_exists.1 (Text.findFree?_eq_some hfind).2.2.2
    simp only [hmark, Option.bind_eq_bind, Option.bind_some, reduceCtorEq, iff_false]
    split <;> exact Option.some_ne_none _

/-- In a copy that ends with its text, the pass finds no runs but those of the text. -/
theorem next_eq_none_of_size (h : text.Copies copy ending place) (hwhole : place text.size = copy.size)
    {marks : List Mark} (hmarks : ∀ m ∈ marks, ending.Spares m.chars) {claims others : ClaimSet}
    {pos pos' : Nat} (hpos : text.Stands copy place pos pos') (hle : pos ≤ text.size)
    (hnone : next marks text base claims pos = none) : next marks copy base' others pos' = none := by
  rw [next_eq_none_iff] at hnone ⊢
  rw [findFree?_markAt? h hmarks hpos hle, hnone, hwhole, Nat.sub_self]
  rfl

end CommentTags.LineRun
