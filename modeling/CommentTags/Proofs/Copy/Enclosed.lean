import CommentTags.Proofs.Copy.Sweep

/-!
# Enclosed comments in a copy

In a copy that ends with its text, enclosed comments are found at their places: a mark lies in one line,
and a line ending after the mark of a doc comment is white space, whatever its characters are. (If the
copy went on after the text, a comment that is not closed in the text might be closed there.)

## Main definitions

* `EnclosedComment.relocate`: a comment at another place.

## Main results

* `Enclosure.find?_place`: the next comment in the text is the next one in the copy;
* `Enclosure.pass_copiedBy`: the pass over the copy finds the comments of the text;
* `Enclosure.next_eq_none_of_size`: it finds no others.
-/

namespace CommentTags

/-- The comment at another place. -/
def EnclosedComment.relocate (place : Nat → Nat) (comment : EnclosedComment) : EnclosedComment where
  start := place comment.start
  bodyStart := place comment.bodyStart
  bodyStop := place comment.bodyStop
  stop := place comment.stop

namespace Enclosure

/-- The marks of the comments have no character of a line ending. -/
structure Spared (ending : LineEnding) (kind : Enclosure) : Prop where
  opening : ending.Spares kind.opening.chars
  closing : ending.Spares kind.closing.chars

variable {text copy : Text} {ending : LineEnding} {place : Nat → Nat} {base base' : Nat} {spot : Nat → Nat}
  {kind : Enclosure}

section Marks

variable (h : text.Copies copy ending place) (hwhole : place text.size = copy.size) (hkind : kind.Spared ending)
include h hwhole

/-- White space after the mark of a doc comment is white space in the copy. -/
theorem any_isDocSpace_place {i : Nat} (hi : i ≤ text.size) :
    copy[place i]?.any isDocSpace = text[i]?.any isDocSpace := by
  rcases Nat.lt_or_eq_of_le hi with hlt | rfl
  · rcases Text.solidAt_or_newline hlt with hsolid | hnewline
    · rw [h.getElem?_of_solidAt hsolid]
    -- a line feed is copied to a line feed or to a carriage return
    · obtain ⟨p, hp, hfeed, -⟩ := h.exists_newline hnewline
      rw [hnewline]
      rcases hp with rfl | ⟨-, -, hreturn⟩
      · rw [hfeed]
      · rw [hreturn]
        rfl
  · rw [Array.getElem?_eq_none (Nat.le_refl _), Array.getElem?_eq_none (Nat.le_of_eq hwhole.symm)]

include hkind

/-- A comment opens in the copy where it opens in the text. -/
theorem opensAt_place {i : Nat} (hi : i ≤ text.size) : kind.opensAt copy (place i) = kind.opensAt text i := by
  rw [opensAt.eq_def, opensAt.eq_def kind text, h.occursAt_place hkind.opening hi]
  cases hocc : text.occursAt kind.opening.chars i with
  | false => rfl
  | true =>
    have hfit := Text.add_length_le_of_occursAt hocc hi
    have hmark := h.place_add_length hkind.opening hocc hi
    cases kind with
    | doc =>
      have hspace := any_isDocSpace_place h hwhole hfit
      rw [hmark] at hspace
      exact congrArg (true && ·) hspace
    | block opening closing => rfl

/-- The next comment in the text is the next one in the copy. -/
theorem find?_place {pos pos' : Nat} (hpos : text.Stands copy place pos pos') (hle : pos ≤ text.size) :
    kind.find? copy pos' = (kind.find? text pos).map (EnclosedComment.relocate place) := by
  have hopens :
      copy.findFree? (kind.opensAt copy) pos' = (text.findFree? (kind.opensAt text) pos).map place := by
    have hopen : ∀ i, i < text.size → kind.opensAt copy (place i) = kind.opensAt text i :=
      fun i hi => opensAt_place h hwhole hkind (Nat.le_of_lt hi)
    have hfree := h.findFree?_place hopen
      (fun i hi => Text.solidAt_of_occursAt hkind.opening kind.opening.nonempty (occursAt_of_opensAt hi))
      (fun q h₁ h₂ hq => by
        obtain ⟨i, rfl, hsolid, -⟩ :=
          h.exists_of_occursAt hkind.opening kind.opening.nonempty h₁ h₂ (occursAt_of_opensAt hq)
        exact ⟨i, hsolid.lt_size, rfl⟩) hpos (h.le_place_size_of_stands hpos hle)
    rw [hfree, hwhole, Nat.sub_self, firstFrom, Option.or_none]
  rw [find?, find?, hopens]
  cases hstart : text.findFree? (kind.opensAt text) pos with
  | none => rfl
  | some start =>
    obtain ⟨-, hlt, -, hopen⟩ := Text.findFree?_eq_some hstart
    have hocc := occursAt_of_opensAt hopen
    have hmark : place (start + kind.opening.length) = place start + kind.opening.length :=
      h.place_add_length hkind.opening hocc (Nat.le_of_lt hlt)
    -- the closing mark is looked for after the places of the same characters
    have hguard (j : Nat) : start + kind.guard ≤ j ↔ place start + kind.guard ≤ place j := by
      cases kind with
      | doc =>
        show start + doc.opening.length < j ↔ place start + doc.opening.length < place j
        rw [← hmark, h.mono.lt_iff_lt]
      | block opening closing =>
        show start + (block opening closing).opening.length ≤ j ↔
          place start + (block opening closing).opening.length ≤ place j
        rw [← hmark, h.mono.le_iff_le]
    have hstart' : place 0 ≤ place start + kind.guard :=
      Nat.le_trans (h.mono.monotone (Nat.zero_le start)) (Nat.le_add_right _ _)
    have hclose := h.find?_place hkind.closing kind.closing.nonempty (fun j _ => hguard j) hstart'
      (Nat.le_refl _)
    rw [hwhole] at hclose
    simp only [Option.map_some, Option.bind_eq_bind, Option.bind_some, hclose]
    cases hfound : text.find? kind.closing.chars (start + kind.guard) text.size with
    | none => rfl
    | some close =>
      obtain ⟨⟨-, hfit, hocc⟩, -⟩ := Text.find?_eq_some_iff.1 hfound
      have hend : place (close + kind.closing.length) = place close + kind.closing.length :=
        h.place_add_length hkind.closing hocc (Nat.le_of_add_right_le hfit)
      simp only [Option.map_some, Option.bind_some]
      refine congrArg some ?_
      rw [EnclosedComment.relocate, EnclosedComment.mk.injEq]
      exact ⟨rfl, hmark.symm, rfl, hend.symm⟩

/-- In a copy that ends with its text, the pass finds no comments but those of the text. -/
theorem next_eq_none_of_size {claims others : ClaimSet} {pos pos' : Nat}
    (hpos : text.Stands copy place pos pos') (hle : pos ≤ text.size)
    (hnone : kind.next text base claims pos = none) : kind.next copy base' others pos' = none := by
  have hfind := find?_place h hwhole hkind hpos hle
  cases hcomment : kind.find? text pos with
  | none =>
    rw [hcomment] at hfind
    rw [next, hfind]
    rfl
  | some comment =>
    rw [next, hcomment] at hnone
    simp only [Option.bind_eq_bind, Option.bind_some] at hnone
    split at hnone <;> cases hnone

end Marks

/-- The pass over a copy that ends with its text finds the comments of the text. -/
theorem pass_copiedBy (h : text.CopiesAt copy ending place base base' spot)
    (hwhole : place text.size = copy.size) (hkind : kind.Spared ending) :
    (kind.pass text base).CopiedBy ending place base base' (kind.pass copy base') := by
  intro claims others hclaims pos pos' hpos hle found hfound
  have hwithin := (readsApart_of_next hfound).within
  replace hfound : kind.next text base claims pos = some found := hfound
  show ∃ found', kind.next copy base' others pos' = some found' ∧ _
  obtain ⟨comment, hcomment, -⟩ := next_eq_some hfound
  have hcomment' := find?_place h.toCopies hwhole hkind hpos hle
  rw [hcomment, Option.map_some] at hcomment'
  obtain ⟨hisComment, -, -, hbody, hstop, -⟩ := find?_eq_some hcomment
  have hbounds := hisComment.bounds
  have hsize : comment.bodyStop ≤ text.size := by omega
  have hsolid := Text.solidAt_of_occursAt hkind.opening kind.opening.nonempty hisComment.opens
  have hlt : comment.start < comment.stop := by omega
  have hoverlaps : others.overlaps (base' + (comment.relocate place).start)
      (base' + (comment.relocate place).stop) = claims.overlaps (base + comment.start) (base + comment.stop) :=
    h.overlaps_eq hclaims hsolid hlt
  have hlines : kind.lines copy (comment.relocate place).bodyStart (comment.relocate place).bodyStop =
      (kind.lines text comment.bodyStart comment.bodyStop).map (CommentLine.relocate place) :=
    h.lines_place hkind.opening hkind.closing hbody hsize
  simp only [next, hcomment, Option.bind_eq_bind, Option.bind_some] at hfound
  simp only [next, hcomment', Option.bind_eq_bind, Option.bind_some, hoverlaps]
  split at hfound
  -- a comment that is skipped is skipped in the copy
  · next hskipped =>
    cases hfound
    rw [if_pos hskipped]
    have hnothing : Span.Copied text copy place base base' ⟨base + comment.start, base + comment.start⟩
        ⟨base' + place comment.start, base' + place comment.start⟩ :=
      ⟨comment.start, comment.start, _, hsolid, Nat.le_of_lt hsolid.lt_size, Text.stands_place _, rfl, rfl⟩
    exact ⟨_, rfl, hnothing, rfl, rfl, Text.stands_place _, hwithin, fun _ hm => by cases hm⟩
  · next hfresh =>
    cases hfound
    rw [if_neg hfresh]
    exact ⟨_, rfl, ⟨comment.start, comment.stop, _, hsolid, hbounds.2, Text.stands_place _, rfl, rfl⟩,
      hlines, rfl, Text.stands_place _, hwithin, fun _ hm => by cases hm⟩

end Enclosure

end CommentTags
