import CommentTags.Proofs.Checked.Lines
import CommentTags.Proofs.Mark
import Mathlib.Order.Monotone.Basic

/-!
# Copies of a text

A text may contain a copy of another one. Every character has a place in the copy; a line feed may have become
a carriage return and a line feed. The copy begins at the start of a line, and it ends with its text or at an
empty line.

Literals without a character of a line ending, tags in one line, and blanks are found in the copy at their
places. The end of a line is the one thing that moves: it is found after a carriage return, at which the line
that was copied ended. So an end is said to stand for another.

## Main definitions

* `LineEnding`: how lines end in a copy;
* `Text.Copies`: a text contains a copy of another one;
* `Text.Stands`: a position of the copy stands for the end of a line, or a part of one.

## Main results

* `Text.Copies.occursAt_place` and `Text.Copies.find?_place`: literals are found at their places;
* `Text.Copies.stands_lineEnd`: the end of a line stands for the end of the line that was copied;
* `Text.Copies.skipBlanks_place` and `Text.Copies.trimEnd_place`: content is found at its place;
* `Text.Copies.findFree?_place`: what opens next opens at its place, or after the copy.
-/

namespace CommentTags

/-- Two searches, the numbers that satisfy the one predicate being moved to those that satisfy the other. -/
theorem firstFrom_eq_map {place : Nat → Nat} (hplace : StrictMono place) {p p' : Nat → Bool}
    {start count start' count' : Nat}
    (hhere : ∀ i, start ≤ i → i < start + count → p i = true →
      start' ≤ place i ∧ place i < start' + count' ∧ p' (place i) = true)
    (hthere : ∀ q, start' ≤ q → q < start' + count' → p' q = true →
      ∃ i, q = place i ∧ start ≤ i ∧ i < start + count ∧ p i = true) :
    firstFrom p' start' count' = (firstFrom p start count).map place := by
  cases hfind : firstFrom p start count with
  | none =>
    rw [firstFrom_eq_none_iff] at hfind
    rw [Option.map_none, firstFrom_eq_none_iff]
    intro q h₁ h₂
    rw [Bool.eq_false_iff]
    intro hq
    obtain ⟨i, rfl, h₃, h₄, hi⟩ := hthere q h₁ h₂ hq
    rw [hfind i h₃ h₄] at hi
    cases hi
  | some i =>
    obtain ⟨⟨h₁, h₂⟩, hi, hmin⟩ := firstFrom_eq_some_iff.1 hfind
    obtain ⟨h₃, h₄, hi'⟩ := hhere i h₁ h₂ hi
    rw [Option.map_some, firstFrom_eq_some_iff]
    refine ⟨⟨h₃, h₄⟩, hi', fun q hq hlt => ?_⟩
    rw [Bool.eq_false_iff]
    intro hp
    -- an earlier number there would be the place of an earlier number here
    obtain ⟨j, rfl, h₅, -, hj⟩ := hthere q hq (by omega) hp
    rw [hmin j h₅ (hplace.lt_iff_lt.1 hlt)] at hj
    cases hj

/-- A search goes on where a shorter one has found nothing. -/
theorem firstFrom_add (p : Nat → Bool) (start first second : Nat) :
    firstFrom p start (first + second) =
      (firstFrom p start first).or (firstFrom p (start + first) second) := by
  induction first generalizing start with
  | zero => rw [Nat.zero_add, Nat.add_zero, firstFrom, Option.none_or]
  | succ first ih =>
    rw [Nat.add_right_comm, firstFrom, firstFrom]
    split
    · rfl
    · rw [ih, Nat.add_assoc start 1 first, Nat.add_comm 1 first]

/-- A search depends on the predicate in its interval only. -/
theorem firstFrom_congr {p q : Nat → Bool} {start count : Nat}
    (h : ∀ i, start ≤ i → i < start + count → p i = q i) :
    firstFrom p start count = firstFrom q start count := by
  induction count generalizing start with
  | zero => rfl
  | succ count ih =>
    rw [firstFrom, firstFrom, h start (Nat.le_refl _) (by omega), ih fun i h₁ h₂ => h i (by omega) (by omega)]

/-- How the lines of a copy end. -/
inductive LineEnding where
  /-- With a line feed. -/
  | lf
  /-- With a carriage return and a line feed. -/
  | crlf
deriving DecidableEq, Repr

namespace LineEnding

/-- The characters at the end of a line. -/
def chars : LineEnding → List Char
  | lf => ['\n']
  | crlf => ['\r', '\n']

/-- A literal with no character that stands at the end of a line. -/
def Spares (ending : LineEnding) (literal : List Char) : Prop :=
  ∀ c ∈ literal, c ∉ ending.chars

theorem length_pos (ending : LineEnding) : 0 < ending.chars.length := by
  cases ending <;> decide

theorem newline_mem (ending : LineEnding) : '\n' ∈ ending.chars := by
  cases ending <;> decide

theorem eq_or_eq_of_mem {ending : LineEnding} {c : Char} (h : c ∈ ending.chars) : c = '\r' ∨ c = '\n' := by
  cases ending with
  | lf => exact .inr (List.mem_singleton.1 h)
  | crlf => exact List.mem_pair.1 h

theorem ne_newline {ending : LineEnding} {c : Char} (h : c ∉ ending.chars) : c ≠ '\n' := by
  rintro rfl
  exact h ending.newline_mem

end LineEnding

namespace Text

/-- A character other than a line feed stands at `i`. -/
def SolidAt (text : Text) (i : Nat) : Prop :=
  ∃ c, text[i]? = some c ∧ c ≠ '\n'

/-- `copy` contains a copy of `text`: position `i` is copied to `place i`, and a line feed to a line
ending. The copy begins at the start of a line, and it ends with its text or at an empty line. -/
structure Copies (text copy : Text) (ending : LineEnding) (place : Nat → Nat) : Prop where
  mono : StrictMono place
  starts : copy.startsLine (place 0) = true
  solid : ∀ i c, text[i]? = some c → c ≠ '\n' → copy[place i]? = some c ∧ place (i + 1) = place i + 1
  feed : ∀ i, text[i]? = some '\n' →
    copy.occursAt ending.chars (place i) = true ∧ place (i + 1) = place i + ending.chars.length
  ends : place text.size = copy.size ∨
    copy[place text.size]? = some '\n' ∧ copy[place text.size + 1]? = some '\n'

/-- The position `p` of the copy stands for the position `i`: it is the place of `i`, or else the line feed
after a carriage return for which a line feed at `i` has been copied. -/
def Stands (text copy : Text) (place : Nat → Nat) (i p : Nat) : Prop :=
  p = place i ∨ p = place i + 1 ∧ text[i]? = some '\n' ∧ copy[place i]? = some '\r'

variable {text copy : Text} {ending : LineEnding} {place : Nat → Nat}

theorem stands_place (i : Nat) : Stands text copy place i (place i) := .inl rfl

/-- Where another character stands, there is no line feed. -/
theorem SolidAt.ne_newline {i : Nat} (h : text.SolidAt i) : text[i]? ≠ some '\n' := by
  obtain ⟨c, hc, hne⟩ := h
  rw [hc, Ne, Option.some.injEq]
  exact hne

theorem SolidAt.lt_size {i : Nat} (h : text.SolidAt i) : i < text.size := by
  obtain ⟨c, hc, -⟩ := h
  exact (Array.getElem?_eq_some_iff.1 hc).1

theorem Stands.place_le {i p : Nat} (hp : Stands text copy place i p) : place i ≤ p := by
  rcases hp with rfl | ⟨rfl, -⟩
  · exact Nat.le_refl _
  · exact Nat.le_succ _

/-- Only a line feed is stood for by another position than its place. -/
theorem Stands.blankAt_eq_false {i p : Nat} (hp : Stands text copy place i p) (hlt : place i < p) :
    text.blankAt i = false := by
  rcases hp with rfl | ⟨rfl, hnewline, -⟩
  · exact absurd hlt (Nat.lt_irrefl _)
  · rw [blankAt, hnewline]
    rfl

/-- A carriage return at the end of a line belongs to the line. -/
theorem FreeOfNewlines.of_stands {start i p : Nat} (h : copy.FreeOfNewlines start (place i))
    (hp : Stands text copy place i p) : copy.FreeOfNewlines start p := by
  rcases hp with rfl | ⟨rfl, -, hreturn⟩
  · exact h
  · intro q h₁ h₂
    rcases Nat.lt_or_eq_of_le (Nat.le_of_lt_succ h₂) with hlt | rfl
    · exact h q h₁ hlt
    · rw [hreturn]
      decide

/-- At every position of the text there is a line feed or another character. -/
theorem solidAt_or_newline {i : Nat} (hi : i < text.size) : text.SolidAt i ∨ text[i]? = some '\n' := by
  rw [SolidAt, Array.getElem?_eq_getElem hi]
  by_cases hnewline : text[i] = '\n'
  · exact .inr (congrArg some hnewline)
  · exact .inl ⟨text[i], rfl, hnewline⟩

/-- In a line there are no line feeds. -/
theorem FreeOfNewlines.solidAt {start stop i : Nat} (h : text.FreeOfNewlines start stop) (h₁ : start ≤ i)
    (h₂ : i < stop) (hstop : stop ≤ text.size) : text.SolidAt i :=
  (solidAt_or_newline (Nat.lt_of_lt_of_le h₂ hstop)).resolve_right (h i h₁ h₂)

/-- A blank is not a line feed. -/
theorem solidAt_of_blankAt {i : Nat} (h : text.blankAt i = true) : text.SolidAt i := by
  rw [blankAt, Option.any_eq_true] at h
  obtain ⟨c, hc, hblank⟩ := h
  refine ⟨c, hc, ?_⟩
  rintro rfl
  cases hblank

/-- Where a literal with no character of a line ending starts, there is no line feed. -/
theorem solidAt_of_occursAt {literal : List Char} (hspares : ending.Spares literal) (hne : literal ≠ [])
    {i : Nat} (h : text.occursAt literal i = true) : text.SolidAt i := by
  cases literal with
  | nil => exact absurd rfl hne
  | cons c rest =>
    rw [occursAt, Bool.and_eq_true, beq_iff_eq] at h
    exact ⟨c, h.1, LineEnding.ne_newline (hspares c List.mem_cons_self)⟩

/-- A literal with no character of a line ending lies in one line. -/
theorem freeOfNewlines_of_occursAt {literal : List Char} (hspares : ending.Spares literal) {i : Nat}
    (h : text.occursAt literal i = true) : text.FreeOfNewlines i (i + literal.length) := by
  intro p h₁ h₂ hp
  rw [getElem?_of_occursAt h h₁ h₂] at hp
  exact LineEnding.ne_newline (hspares _ (List.mem_of_getElem? hp)) rfl

/-- Nothing is dropped from an empty interval. -/
theorem dropEndWhile_self {p : Char → Bool} {s : Nat} : text.dropEndWhile p s s = s := by
  cases s with
  | zero => rfl
  | succ s => rw [dropEndWhile, decide_eq_false (Nat.not_succ_le_self s)]; rfl

namespace Copies

variable (h : text.Copies copy ending place)
include h

/-- The end of the text is copied to a position of the copy. -/
theorem place_size_le : place text.size ≤ copy.size := by
  rcases h.ends with hend | ⟨hnewline, -⟩
  · exact Nat.le_of_eq hend
  · exact Nat.le_of_lt (Array.getElem?_eq_some_iff.1 hnewline).1

theorem place_le_size {i : Nat} (hi : i ≤ text.size) : place i ≤ copy.size :=
  Nat.le_trans (h.mono.monotone hi) h.place_size_le

/-- The line feed of a line ending stands for the line feed that was copied, and the next line follows. -/
theorem exists_newline {i : Nat} (hi : text[i]? = some '\n') :
    ∃ p, Stands text copy place i p ∧ copy[p]? = some '\n' ∧ place (i + 1) = p + 1 := by
  obtain ⟨hocc, hnext⟩ := h.feed i hi
  cases ending with
  | lf => exact ⟨place i, .inl rfl, occursAt_singleton.1 hocc, hnext⟩
  | crlf =>
    have hreturn : copy[place i]? = some '\r' := occursAt_iff.1 hocc 0 '\r' rfl
    have hnewline : copy[place i + 1]? = some '\n' := occursAt_iff.1 hocc 1 '\n' rfl
    exact ⟨place i + 1, .inr ⟨rfl, hi, hreturn⟩, hnewline, hnext⟩

/-- Characters other than line feeds keep their neighbours. -/
theorem place_succ {i : Nat} (hi : text.SolidAt i) : place (i + 1) = place i + 1 := by
  obtain ⟨c, hc, hne⟩ := hi
  exact (h.solid i c hc hne).2

theorem getElem?_of_solidAt {i : Nat} (hi : text.SolidAt i) : copy[place i]? = text[i]? := by
  obtain ⟨c, hc, hne⟩ := hi
  rw [(h.solid i c hc hne).1, hc]

/-- Where a line feed or the end of the text is copied to, at most a line ending stands. -/
theorem mem_chars_of_not_solidAt {i : Nat} (hi : i ≤ text.size) (hsolid : ¬ text.SolidAt i) {c : Char}
    (hc : copy[place i]? = some c) : c ∈ ending.chars := by
  rcases Nat.lt_or_eq_of_le hi with hlt | rfl
  -- at a line feed the copy has the first character of its line ending
  · have hnewline := (solidAt_or_newline hlt).resolve_left hsolid
    have hocc := (h.feed i hnewline).1
    rw [getElem?_of_occursAt hocc (Nat.le_refl _) (Nat.lt_add_of_pos_right ending.length_pos)] at hc
    exact List.mem_of_getElem? hc
  · rcases h.ends with hend | ⟨hnewline, -⟩
    · rw [Array.getElem?_eq_none (Nat.le_of_eq hend.symm)] at hc
      cases hc
    · rw [hnewline] at hc
      cases hc
      exact ending.newline_mem

/-- A class of characters without line endings is found at its places. -/
theorem any_place {q : Char → Bool} (hq : ∀ c ∈ ending.chars, q c = false) {i : Nat} (hi : i ≤ text.size) :
    copy[place i]?.any q = text[i]?.any q := by
  by_cases hsolid : text.SolidAt i
  · rw [h.getElem?_of_solidAt hsolid]
  · have hthere : copy[place i]?.any q = false := by
      rw [Option.any_eq_false]
      exact fun c hc => hq c (h.mem_chars_of_not_solidAt hi hsolid hc)
    have hhere : text[i]?.any q = false := by
      rw [Option.any_eq_false]
      intro c hc
      have hnewline : c = '\n' := Classical.not_not.1 fun hne => hsolid ⟨c, hc, hne⟩
      rw [hnewline]
      exact hq _ ending.newline_mem
    rw [hthere, hhere]

theorem blankAt_place {i : Nat} (hi : i ≤ text.size) : copy.blankAt (place i) = text.blankAt i :=
  h.any_place (fun c hc => by rcases LineEnding.eq_or_eq_of_mem hc with rfl | rfl <;> rfl) hi

/-- A character that does not stand at the end of a line is in the copy where it is in the text. -/
theorem getElem?_place_iff {c : Char} (hc : c ∉ ending.chars) {i : Nat} (hi : i ≤ text.size) :
    copy[place i]? = some c ↔ text[i]? = some c := by
  have hany := h.any_place (q := (· == c)) (fun d hd => beq_false_of_ne fun heq => hc (heq ▸ hd)) hi
  rw [Bool.eq_iff_iff, Option.any_eq_true, Option.any_eq_true] at hany
  simpa using hany

/-- In a line every character keeps its distance from the others. -/
theorem place_add {i k : Nat} (hfree : text.FreeOfNewlines i (i + k)) (hle : i + k ≤ text.size) :
    place (i + k) = place i + k := by
  induction k with
  | zero => rfl
  | succ k ih =>
    have hsolid := hfree.solidAt (i := i + k) (by omega) (by omega) hle
    rw [← Nat.add_assoc, h.place_succ hsolid, ih (hfree.mono (Nat.le_refl _) (by omega)) (by omega)]
    rfl

/-- In a part of a line a position is as far from the start as its place is from that of the start. -/
theorem place_eq_add {i j e : Nat} (hfree : text.FreeOfNewlines i e) (he : e ≤ text.size) (hij : i ≤ j)
    (hje : j ≤ e) : place j = place i + (j - i) := by
  obtain ⟨k, rfl⟩ := Nat.exists_eq_add_of_le hij
  rw [Nat.add_sub_cancel_left]
  exact h.place_add (hfree.mono (Nat.le_refl _) hje) (Nat.le_trans hje he)

/-- A literal with no character of a line ending is as long in the copy. -/
theorem place_add_length {literal : List Char} (hspares : ending.Spares literal) {i : Nat}
    (hocc : text.occursAt literal i = true) (hi : i ≤ text.size) :
    place (i + literal.length) = place i + literal.length :=
  h.place_add (freeOfNewlines_of_occursAt hspares hocc) (add_length_le_of_occursAt hocc hi)

/-- A literal with no character of a line ending is found at its place. -/
theorem occursAt_place {literal : List Char} (hspares : ending.Spares literal) {i : Nat}
    (hi : i ≤ text.size) : copy.occursAt literal (place i) = text.occursAt literal i := by
  induction literal generalizing i with
  | nil => rfl
  | cons c rest ih =>
    obtain ⟨hc, hrest⟩ := List.forall_mem_cons.1 hspares
    rw [Bool.eq_iff_iff, occursAt, occursAt, Bool.and_eq_true, Bool.and_eq_true, beq_iff_eq, beq_iff_eq,
      h.getElem?_place_iff hc hi]
    refine and_congr_right fun hget => ?_
    have hsolid : text.SolidAt i := ⟨c, hget, LineEnding.ne_newline hc⟩
    rw [← h.place_succ hsolid, ih hrest hsolid.lt_size]

/-- Every position in the copy is a place, or the line feed after a carriage return. -/
theorem exists_place {p : Nat} (h₁ : place 0 ≤ p) (h₂ : p < place text.size) :
    ∃ i, i < text.size ∧ (p = place i ∨ copy[p]? = some '\n') := by
  -- induction on the part of the text whose copy reaches over the position
  have hupTo (n : Nat) (hn : n ≤ text.size) (hp : p < place n) :
      ∃ i, i < n ∧ (p = place i ∨ copy[p]? = some '\n') := by
    induction n with
    | zero => omega
    | succ n ih =>
      rcases Nat.lt_or_ge p (place n) with hlt | hge
      · obtain ⟨i, hi, hcases⟩ := ih (by omega) hlt
        exact ⟨i, by omega, hcases⟩
      · refine ⟨n, Nat.lt_succ_self n, ?_⟩
        rcases solidAt_or_newline hn with hsolid | hnewline
        · have hone := h.place_succ hsolid
          exact .inl (by omega)
        · obtain ⟨q, hq, hfeed, hnext⟩ := h.exists_newline hnewline
          rcases hq with rfl | ⟨rfl, -⟩
          · exact .inl (by omega)
          · rcases Nat.lt_or_eq_of_le hge with hlt | heq
            · exact .inr (by rwa [show p = place n + 1 by omega])
            · exact .inl heq.symm
  exact hupTo text.size (Nat.le_refl _) h₂

/-- A literal with no character of a line ending is found nowhere else in the copy. -/
theorem exists_of_occursAt {literal : List Char} (hspares : ending.Spares literal) (hne : literal ≠ [])
    {p : Nat} (h₁ : place 0 ≤ p) (h₂ : p < place text.size) (hocc : copy.occursAt literal p = true) :
    ∃ i, p = place i ∧ text.SolidAt i ∧ text.occursAt literal i = true := by
  obtain ⟨i, hi, rfl | hnewline⟩ := h.exists_place h₁ h₂
  · rw [h.occursAt_place hspares (Nat.le_of_lt hi)] at hocc
    exact ⟨i, rfl, solidAt_of_occursAt hspares hne hocc, hocc⟩
  · exact absurd hnewline (solidAt_of_occursAt hspares hne hocc).ne_newline

/-- The copy of a part of a line lies in one line. -/
theorem freeOfNewlines_place {i e : Nat} (hfree : text.FreeOfNewlines i e) (hie : i ≤ e)
    (he : e ≤ text.size) : copy.FreeOfNewlines (place i) (place e) := by
  intro p h₁ h₂ hp
  have hlength := h.place_eq_add hfree he hie (Nat.le_refl e)
  have hat : place (i + (p - place i)) = place i + (p - place i) :=
    h.place_add (hfree.mono (Nat.le_refl _) (by omega)) (by omega)
  rw [Nat.add_sub_cancel' h₁] at hat
  have hsolid := hfree.solidAt (i := i + (p - place i)) (by omega) (by omega) he
  rw [← hat, h.getElem?_of_solidAt hsolid] at hp
  exact hfree _ (by omega) (by omega) hp

/-! ## Where an opening mark may stand -/

/-- Before the place of a further position stands what stands before the position. -/
theorem getElem?_pred {i : Nat} (hi : i < text.size) :
    place (i + 1) ≠ 0 ∧ copy[place (i + 1) - 1]? = text[i]? := by
  rcases solidAt_or_newline hi with hsolid | hnewline
  · rw [h.place_succ hsolid]
    exact ⟨by omega, h.getElem?_of_solidAt hsolid⟩
  · obtain ⟨p, -, hfeed, hnext⟩ := h.exists_newline hnewline
    rw [hnext]
    exact ⟨Nat.succ_ne_zero p, hfeed.trans hnewline.symm⟩

theorem startsLine_place {i : Nat} (hi : i ≤ text.size) : copy.startsLine (place i) = text.startsLine i := by
  cases i with
  | zero => exact h.starts
  | succ i =>
    obtain ⟨hne, hget⟩ := h.getElem?_pred hi
    rw [startsLine, startsLine, hget, beq_false_of_ne hne]
    rfl

theorem followsBlank_place {i : Nat} (hi : i ≤ text.size) :
    copy.followsBlank (place i) = text.followsBlank i := by
  cases i with
  -- the copy begins at the start of a line
  | zero =>
    show copy.followsBlank (place 0) = false
    have hstarts := h.starts
    rw [startsLine, Bool.or_eq_true, beq_iff_eq, beq_iff_eq] at hstarts
    rw [followsBlank, Bool.and_eq_false_iff, decide_eq_false_iff_not]
    refine hstarts.imp (by omega) fun hnewline => ?_
    rw [blankAt, hnewline]
    rfl
  | succ i =>
    obtain ⟨hne, hget⟩ := h.getElem?_pred hi
    rw [followsBlank, followsBlank, blankAt, blankAt, hget, Nat.add_sub_cancel,
      decide_eq_true (Nat.pos_of_ne_zero hne), decide_eq_true (Nat.succ_pos i)]

/-! ## Ends that stand for others -/

/-- What stands for a position is before the places of further positions. -/
theorem lt_iff_of_stands {i p : Nat} (hp : Stands text copy place i p) {j : Nat} : i < j ↔ p < place j := by
  have hlt : i < j ↔ place i < place j := h.mono.lt_iff_lt.symm
  rcases hp with rfl | ⟨rfl, hnewline, hreturn⟩
  · exact hlt
  -- the line feed after the carriage return still comes before the next line
  · refine ⟨fun hij => ?_, fun hlt' => hlt.2 (by omega)⟩
    have hle := h.mono.monotone (Nat.succ_le_of_lt hij)
    obtain ⟨p, hp, hfeed, hnext⟩ := h.exists_newline hnewline
    rw [Nat.succ_eq_add_one, hnext] at hle
    rcases hp with rfl | ⟨rfl, -⟩
    · rw [hreturn, Option.some.injEq] at hfeed
      exact absurd hfeed (by decide)
    · omega

theorem le_place_size_of_stands {i p : Nat} (hp : Stands text copy place i p) (hi : i ≤ text.size) :
    p ≤ place text.size := by
  rcases hp with rfl | hfeed
  · exact h.mono.monotone hi
  · have hlt : i < text.size := (Array.getElem?_eq_some_iff.1 hfeed.2.1).1
    exact Nat.le_of_lt ((h.lt_iff_of_stands (.inr hfeed)).1 hlt)

/-- What stands for a position is after the places of earlier characters. -/
theorem le_iff_of_stands {i p : Nat} (hp : Stands text copy place i p) {j : Nat} (hj : text.SolidAt j) :
    i ≤ j ↔ p ≤ place j := by
  have hlt := h.lt_iff_of_stands hp (j := j)
  have hle : i ≤ j ↔ place i ≤ place j := h.mono.le_iff_le.symm
  rcases hp with rfl | ⟨rfl, hnewline, -⟩
  · exact hle
  · have hne : i ≠ j := by
      rintro rfl
      exact hj.ne_newline hnewline
    omega

theorem lt_stands_iff {i p : Nat} (hp : Stands text copy place i p) {j : Nat} (hj : text.SolidAt j) :
    j < i ↔ place j < p := by
  have hle := h.le_iff_of_stands hp hj
  omega

/-- The later of two positions stands for the later one. -/
theorem stands_max {i p : Nat} (hp : Stands text copy place i p) (j : Nat) :
    Stands text copy place (max i j) (max p (place j)) := by
  rcases Nat.lt_or_ge i j with hlt | hge
  · have hplace := (h.lt_iff_of_stands hp).1 hlt
    rw [Nat.max_eq_right (Nat.le_of_lt hlt), Nat.max_eq_right (Nat.le_of_lt hplace)]
    exact .inl rfl
  · have hplace := Nat.le_trans (h.mono.monotone hge) hp.place_le
    rw [Nat.max_eq_left hge, Nat.max_eq_left hplace]
    exact hp

/-- In a copy with the same line endings, only places stand for positions. -/
theorem eq_place_of_stands {i p : Nat} (hlf : ending = .lf) (hp : Stands text copy place i p) :
    p = place i := by
  subst hlf
  refine hp.resolve_right ?_
  rintro ⟨-, hnewline, hreturn⟩
  rw [getElem?_of_occursAt (h.feed i hnewline).1 (Nat.le_refl _) (Nat.lt_succ_self _), Nat.sub_self] at hreturn
  exact absurd hreturn (by decide)

theorem freeAt_place {pos pos' : Nat} (hpos : Stands text copy place pos pos') {i : Nat}
    (hi : i ≤ text.size) : copy.freeAt pos' (place i) = text.freeAt pos i := by
  rw [freeAt, freeAt, h.startsLine_place hi, h.followsBlank_place hi,
    decide_eq_decide.2 (h.lt_iff_of_stands hpos (j := i)).symm]

/-- The end of a line stands for the end of the line that was copied. Either a line feed follows both, or the
text ends there. -/
theorem stands_lineEnd {i : Nat} (hi : i ≤ text.size) :
    Stands text copy place (text.lineEnd i) (copy.lineEnd (place i)) ∧
      (text.lineEnd i < text.size → copy.lineEnd (place i) + 1 = place (text.lineEnd i + 1)) ∧
      (text.lineEnd i = text.size → copy.lineEnd (place i) = place text.size) := by
  obtain ⟨hle, hsize, hfree, hend⟩ := (lineEnd_eq_iff hi).1 rfl
  generalize text.lineEnd i = e at *
  have hsize' := h.place_le_size hi
  have hle' := h.mono.monotone hle
  have hfree' := h.freeOfNewlines_place hfree hle hsize
  rcases Nat.lt_or_eq_of_le hsize with hlt | rfl
  -- the line of the copy goes up to the line feed, over a carriage return
  · obtain ⟨p, hp, hfeed, hnext⟩ := h.exists_newline (hend hlt)
    have hlt' : p < copy.size := (Array.getElem?_eq_some_iff.1 hfeed).1
    have heq : copy.lineEnd (place i) = p := by
      rw [lineEnd_eq_iff hsize']
      exact ⟨Nat.le_trans hle' hp.place_le, Nat.le_of_lt hlt', hfree'.of_stands hp, fun _ => hfeed⟩
    rw [heq]
    exact ⟨hp, fun _ => hnext.symm, fun heq => absurd heq (Nat.ne_of_lt hlt)⟩
  · have heq : copy.lineEnd (place i) = place text.size := by
      rw [lineEnd_eq_iff hsize']
      refine ⟨hle', h.place_size_le, hfree', fun hlt => ?_⟩
      exact (h.ends.resolve_left (Nat.ne_of_lt hlt)).1
    exact ⟨.inl heq, fun hlt => absurd hlt (Nat.lt_irrefl _), fun _ => heq⟩

/-! ## Content of a line -/

/-- What is skipped in the text is skipped in the copy. Either the search ends at the same place, or it stops
there. -/
private theorem firstFrom_getD_place {p p' : Nat → Bool} {s e q : Nat}
    (hp : ∀ i, i ≤ text.size → p' (place i) = p i) (hsolid : ∀ i, p i = false → text.SolidAt i) (hse : s ≤ e)
    (he : e ≤ text.size) (hq : place e ≤ q) (hend : place e < q → p e = true) :
    (firstFrom p' (place s) (q - place s)).getD q = place ((firstFrom p s (e - s)).getD e) := by
  obtain ⟨h₁, h₂, hskipped, hstop⟩ := (firstFrom_getD_eq_iff hse).1 (rfl : (firstFrom p s (e - s)).getD e = _)
  generalize (firstFrom p s (e - s)).getD e = c at *
  have hfree : text.FreeOfNewlines s c := fun j hj hjc => (hsolid j (hskipped j hj hjc)).ne_newline
  have hse' : place s ≤ q := Nat.le_trans (h.mono.monotone hse) hq
  -- what is skipped lies in one line, so it keeps its distances
  have hc := h.place_eq_add hfree (Nat.le_trans h₂ he) h₁ (Nat.le_refl c)
  rw [firstFrom_getD_eq_iff hse']
  refine ⟨h.mono.monotone h₁, Nat.le_trans (h.mono.monotone h₂) hq, fun j hj hjc => ?_, fun hlt => ?_⟩
  · have hat := h.place_eq_add hfree (Nat.le_trans h₂ he) (j := s + (j - place s)) (by omega) (by omega)
    rw [Nat.add_sub_cancel_left, Nat.add_sub_cancel' hj] at hat
    rw [← hat, hp _ (by omega)]
    exact hskipped _ (by omega) (by omega)
  · rw [hp c (by omega)]
    rcases Nat.lt_or_eq_of_le h₂ with hlt' | rfl
    · exact hstop hlt'
    · exact hend hlt

/-- Blanks are skipped as in the text. -/
theorem skipBlanks_place {s e q : Nat} (hse : s ≤ e) (he : e ≤ text.size) (hq : place e ≤ q)
    (hend : place e < q → text.blankAt e = false) :
    copy.skipBlanks (place s) q = place (text.skipBlanks s e) :=
  h.firstFrom_getD_place (fun i hi => congrArg _ (h.blankAt_place hi))
    (fun i hi => solidAt_of_blankAt (by rwa [Bool.not_eq_false'] at hi)) hse he hq
    fun hlt => by rw [hend hlt]; rfl

/-- A repeated character is skipped as in the text. -/
theorem skipChar_place {c : Char} (hc : c ∉ ending.chars) {s e q : Nat} (hse : s ≤ e) (he : e ≤ text.size)
    (hq : place e ≤ q) (hend : place e < q → text[e]? ≠ some c) :
    copy.skipChar c (place s) q = place (text.skipChar c s e) := by
  refine h.firstFrom_getD_place (fun i hi => ?_) (fun i hi => ?_) hse he hq fun hlt => bne_iff_ne.2 (hend hlt)
  · rw [Bool.eq_iff_iff, bne_iff_ne, bne_iff_ne]
    exact not_congr (h.getElem?_place_iff hc hi)
  · exact ⟨c, bne_eq_false_iff_eq.1 hi, LineEnding.ne_newline hc⟩

/-- As many repetitions of a character are skipped as in the text. -/
theorem skipChar_sub_place {c : Char} (hc : c ∉ ending.chars) {s e q : Nat} (hse : s ≤ e) (he : e ≤ text.size)
    (hq : place e ≤ q) (hend : place e < q → text[e]? ≠ some c) :
    copy.skipChar c (place s) q - place s = text.skipChar c s e - s := by
  obtain ⟨hle, hstop, hskipped, -⟩ := (skipChar_eq_iff hse).1 (rfl : text.skipChar c s e = _)
  have hfree : text.FreeOfNewlines s (text.skipChar c s e) := by
    intro j h₁ h₂ hnewline
    rw [hskipped j h₁ h₂, Option.some.injEq] at hnewline
    exact LineEnding.ne_newline hc hnewline
  have hplace := h.place_eq_add hfree (Nat.le_trans hstop he) hle (Nat.le_refl _)
  rw [h.skipChar_place hc hse he hq hend, hplace, Nat.add_sub_cancel_left]

/-- Characters other than line feeds are dropped at the end as in the text. -/
theorem dropEndWhile_place {p : Char → Bool} {s e : Nat} (hse : s ≤ e) (he : e ≤ text.size)
    (hp : ∀ i, s ≤ i → i < e → text[i]? = some '\n' → p '\n' = false) :
    copy.dropEndWhile p (place s) (place e) = place (text.dropEndWhile p s e) := by
  induction e, hse using Nat.le_induction with
  | base => rw [dropEndWhile_self, dropEndWhile_self]
  | succ e hse ih =>
    have hle := h.mono.monotone hse
    obtain ⟨hne, hget⟩ := h.getElem?_pred he
    obtain ⟨m, hm⟩ := Nat.exists_eq_succ_of_ne_zero hne
    rw [hm, Nat.succ_eq_add_one, Nat.add_sub_cancel] at hget
    have hms : place s ≤ m := by
      have hlt : place s < place (e + 1) := h.mono (Nat.lt_succ_of_le hse)
      omega
    rw [hm, dropEndWhile, dropEndWhile, hget, decide_eq_true hse, decide_eq_true hms,
      ← Nat.succ_eq_add_one m, ← hm]
    -- at a line feed both stop
    rcases solidAt_or_newline he with hsolid | hnewline
    · have hme : m = place e := by
        rw [h.place_succ hsolid] at hm
        omega
      rw [hme]
      split
      · exact ih (by omega) fun i h₁ h₂ => hp i h₁ (by omega)
      · rfl
    · rw [hnewline, Option.any_some, hp e hse (Nat.lt_succ_self e) hnewline]
      rfl

/-- White space at the end of a line is trimmed as in the text, and so is a carriage return after it. -/
theorem trimEnd_place {s e q : Nat} (hse : s ≤ e) (he : e ≤ text.size) (hfree : text.FreeOfNewlines s e)
    (hq : Stands text copy place e q) : copy.trimEnd (place s) q = place (text.trimEnd s e) := by
  have htrim : copy.trimEnd (place s) (place e) = place (text.trimEnd s e) :=
    h.dropEndWhile_place hse he fun i h₁ h₂ hi => absurd hi (hfree i h₁ h₂)
  rcases hq with rfl | ⟨rfl, -, hreturn⟩
  · exact htrim
  -- a carriage return is white space
  · rw [← htrim, trimEnd, dropEndWhile, hreturn, decide_eq_true (h.mono.monotone hse)]
    rfl

/-! ## Searches -/

/-- The search for a literal with no character of a line ending finds its place. It may start anywhere
before the places of the same characters. -/
theorem find?_place {literal : List Char} (hspares : ending.Spares literal) (hne : literal ≠ [])
    {s s' e : Nat} (hs : ∀ i, text.SolidAt i → (s ≤ i ↔ s' ≤ place i)) (hs' : place 0 ≤ s')
    (he : e ≤ text.size) :
    copy.find? literal s' (place e) = (text.find? literal s e).map place := by
  have hpos : 0 < literal.length := List.length_pos_iff.2 hne
  refine firstFrom_eq_map h.mono (fun i h₁ h₂ hi => ?_) fun q h₁ h₂ hq => ?_
  · rw [Bool.and_eq_true, decide_eq_true_eq] at hi ⊢
    obtain ⟨hfit, hocc⟩ := hi
    have hle : i ≤ text.size := by omega
    have hfit' := h.mono.monotone hfit
    rw [h.place_add_length hspares hocc hle] at hfit'
    refine ⟨(hs i (solidAt_of_occursAt hspares hne hocc)).1 h₁, by omega, hfit', ?_⟩
    rwa [h.occursAt_place hspares hle]
  · rw [Bool.and_eq_true, decide_eq_true_eq] at hq
    obtain ⟨hfit, hocc⟩ := hq
    have hsize := h.mono.monotone he
    obtain ⟨i, rfl, hsolid, hocc⟩ := h.exists_of_occursAt hspares hne (Nat.le_trans hs' h₁) (by omega) hocc
    rw [← h.place_add_length hspares hocc (Nat.le_of_lt hsolid.lt_size), h.mono.le_iff_le] at hfit
    refine ⟨i, rfl, (hs i hsolid).2 h₁, by omega, ?_⟩
    rw [Bool.and_eq_true, decide_eq_true_eq]
    exact ⟨hfit, hocc⟩

/-- What opens next in the text opens next in the copy. If nothing opens, the search goes on after the
copy. -/
theorem findFree?_place {p p' : Nat → Bool} (hp : ∀ i, i < text.size → p' (place i) = p i)
    (hsolid : ∀ i, p i = true → text.SolidAt i)
    (hp' : ∀ q, place 0 ≤ q → q < place text.size → p' q = true → ∃ i, i < text.size ∧ q = place i)
    {pos pos' : Nat} (hpos : Stands text copy place pos pos') (hle : pos' ≤ place text.size) :
    copy.findFree? p' pos' = ((text.findFree? p pos).map place).or
      (firstFrom (fun i => copy.freeAt pos' i && p' i) (place text.size) (copy.size - place text.size)) := by
  have hsize := h.place_size_le
  have hstart := Nat.le_trans (h.mono.monotone (Nat.zero_le pos)) hpos.place_le
  have hfirst : firstFrom (fun i => copy.freeAt pos' i && p' i) pos' (place text.size - pos') =
      (text.findFree? p pos).map place := by
    refine firstFrom_eq_map h.mono (fun i h₁ h₂ hi => ?_) fun q h₁ h₂ hq => ?_
    · rw [Bool.and_eq_true] at hi ⊢
      have hi' := hsolid i hi.2
      have hlt := h.mono hi'.lt_size
      refine ⟨(h.le_iff_of_stands hpos hi').1 h₁, by omega, ?_⟩
      rw [h.freeAt_place hpos (Nat.le_of_lt hi'.lt_size), hp i hi'.lt_size]
      exact hi
    · rw [Bool.and_eq_true] at hq
      obtain ⟨i, hi, rfl⟩ := hp' q (by omega) (by omega) hq.2
      rw [h.freeAt_place hpos (Nat.le_of_lt hi), hp i hi] at hq
      refine ⟨i, rfl, (h.le_iff_of_stands hpos (hsolid i hq.2)).2 h₁, by omega, ?_⟩
      rw [Bool.and_eq_true]
      exact hq
  -- the search first goes through the copy of the text
  rw [findFree?, show copy.size - pos' = place text.size - pos' + (copy.size - place text.size) by omega,
    firstFrom_add, hfirst, Nat.add_sub_cancel' hle]

end Copies

end Text

end CommentTags
