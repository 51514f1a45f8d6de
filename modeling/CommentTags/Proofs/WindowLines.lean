import CommentTags.Proofs.Windows

/-!
# The lines of the windows

The windows of visible lines take exactly the lines near them, and they are the canonical form of these lines:
each window has a line, no window reaches beyond the document, and at least one line stands between any two.
So the windows depend on nothing but the lines that they take.

Windows may also be worked out in machine words, where sums stop at the greatest word, and in one pass over the
windows in order that makes the latest window longer or starts another one. As long as lines are numbered by
machine words, the windows are the same.

## Main definitions

* `Window.Holds`: a line is one of a window's;
* `Window.IsNear`: a line is visible, or at most some lines away from a visible one;
* `Window.mergeInWords`: joins windows in one pass, in machine words.

## Main results

* `Window.exists_holds_ofVisible_iff`: the lines of the windows;
* `Window.eq_of_holds_iff`: windows that stand apart are determined by their lines;
* `Window.ofVisible_canonical`: the windows are the canonical form of the lines near the visible ones.
-/

namespace CommentTags.Window

/-- The line is one of the window's. -/
def Holds (window : Window) (line : Nat) : Prop :=
  window.first ≤ line ∧ line ≤ window.last

/-! ## Joining keeps the lines -/

/-- Two windows that overlap or touch make one window with the lines of both. -/
theorem holds_joined {window next : Window} (hfirst : window.first ≤ next.first)
    (hjoin : next.first ≤ window.last + 1) (line : Nat) :
    (⟨window.first, max window.last next.last⟩ : Window).Holds line ↔
      window.Holds line ∨ next.Holds line := by
  simp only [Holds]
  omega

/-- Windows that come in order keep their lines when they are joined. -/
theorem exists_holds_join_iff {window : Window} {rest : List Window}
    (hsorted : (window :: rest).Pairwise fun a b => a.first ≤ b.first) (line : Nat) :
    (∃ w ∈ join window rest, w.Holds line) ↔ ∃ w ∈ window :: rest, w.Holds line := by
  fun_induction join window rest with
  | case1 window => rfl
  | case2 window next rest hjoin ih =>
    simp only [List.pairwise_cons, List.forall_mem_cons] at hsorted
    obtain ⟨⟨hfirst, hwindow⟩, hnext, hrest⟩ := hsorted
    rw [ih (List.pairwise_cons.2 ⟨hwindow, hrest⟩)]
    simp only [List.exists_mem_cons_iff, holds_joined hfirst hjoin, or_assoc]
  | case3 window next rest hjoin ih =>
    rw [List.exists_mem_cons_iff, List.exists_mem_cons_iff, ih hsorted.of_cons]

/-! ## The canonical form -/

/-- The windows have lines, come in order, and at least one line stands between any two. -/
structure StandApart (windows : List Window) : Prop where
  /-- Each window has a line. -/
  lines : ∀ w ∈ windows, w.first ≤ w.last
  /-- Between any two windows there is a line. -/
  apart : windows.Pairwise fun a b => a.last + 1 < b.first

namespace StandApart

variable {window : Window} {rest : List Window}

theorem tail (h : StandApart (window :: rest)) : StandApart rest :=
  ⟨fun w hw => h.lines w (List.mem_cons_of_mem _ hw), h.apart.of_cons⟩

/-- A line of the windows after the first one is not near the first one. -/
theorem last_lt (h : StandApart (window :: rest)) {w : Window} (hw : w ∈ rest) {line : Nat}
    (hline : w.Holds line) : window.last + 1 < line :=
  Nat.lt_of_lt_of_le (List.rel_of_pairwise_cons h.apart hw) hline.1

/-- No line comes before the first window. -/
theorem first_le (h : StandApart (window :: rest)) {line : Nat}
    (hline : ∃ w ∈ window :: rest, w.Holds line) : window.first ≤ line := by
  have hwindow := h.lines window List.mem_cons_self
  obtain ⟨w, hw, hholds⟩ := hline
  rcases List.mem_cons.1 hw with rfl | hw
  · exact hholds.1
  · have := h.last_lt hw hholds
    omega

/-- The line after the first window is in none. -/
theorem not_holds_succ (h : StandApart (window :: rest)) :
    ¬ ∃ w ∈ window :: rest, w.Holds (window.last + 1) := by
  rintro ⟨w, hw, hholds⟩
  rcases List.mem_cons.1 hw with rfl | hw
  · exact absurd hholds.2 (by omega)
  · exact absurd (h.last_lt hw hholds) (Nat.lt_irrefl _)

/-- The lines of the later windows are those after the first window. -/
theorem exists_holds_tail_iff (h : StandApart (window :: rest)) (line : Nat) :
    (∃ w ∈ rest, w.Holds line) ↔ window.last < line ∧ ∃ w ∈ window :: rest, w.Holds line := by
  constructor
  · rintro ⟨w, hw, hholds⟩
    have := h.last_lt hw hholds
    exact ⟨by omega, w, List.mem_cons_of_mem _ hw, hholds⟩
  · rintro ⟨hlt, w, hw, hholds⟩
    rcases List.mem_cons.1 hw with rfl | hw
    · exact absurd hholds.2 (by omega)
    · exact ⟨w, hw, hholds⟩

end StandApart

/-- The first of some windows ends no later than the first of others with the same lines. -/
theorem last_le_of_holds_iff {a b : Window} {as bs : List Window} (hb : StandApart (b :: bs))
    (hfirst : a.first = b.first)
    (h : ∀ line, (∃ w ∈ a :: as, w.Holds line) ↔ ∃ w ∈ b :: bs, w.Holds line) : a.last ≤ b.last := by
  refine Nat.le_of_not_lt fun hlt => hb.not_holds_succ ((h _).1 ⟨a, List.mem_cons_self, ?_⟩)
  -- otherwise the line after `b` would be one of `a`
  have := hb.lines b List.mem_cons_self
  constructor <;> omega

/-- Windows that stand apart are determined by their lines. -/
theorem eq_of_holds_iff {as bs : List Window} (ha : StandApart as) (hb : StandApart bs)
    (h : ∀ line, (∃ w ∈ as, w.Holds line) ↔ ∃ w ∈ bs, w.Holds line) : as = bs := by
  induction as generalizing bs with
  | nil =>
    cases bs with
    | nil => rfl
    | cons b bs =>
      have hline := (h b.first).2 ⟨b, List.mem_cons_self, Nat.le_refl _, hb.lines b List.mem_cons_self⟩
      simp at hline
  | cons a as ih =>
    have hheld : ∃ w ∈ a :: as, w.Holds a.first :=
      ⟨a, List.mem_cons_self, Nat.le_refl _, ha.lines a List.mem_cons_self⟩
    cases bs with
    | nil => simpa using (h a.first).1 hheld
    | cons b bs =>
      have hheld' : ∃ w ∈ b :: bs, w.Holds b.first :=
        ⟨b, List.mem_cons_self, Nat.le_refl _, hb.lines b List.mem_cons_self⟩
      have hfirst : a.first = b.first :=
        Nat.le_antisymm (ha.first_le ((h _).2 hheld')) (hb.first_le ((h _).1 hheld))
      have hlast : a.last = b.last :=
        Nat.le_antisymm (last_le_of_holds_iff hb hfirst h)
          (last_le_of_holds_iff ha hfirst.symm fun line => (h line).symm)
      have hrest : as = bs := ih ha.tail hb.tail fun line => by
        rw [ha.exists_holds_tail_iff, hb.exists_holds_tail_iff, hlast, h]
      rw [hrest]
      congr 1
      cases a
      cases b
      simp_all

/-! ## The windows of visible lines -/

variable {visible : List TextRange} {preload lastLine : Nat}

/-- The windows of visible lines are in canonical form. -/
theorem standApart_ofVisible (visible : List TextRange) (preload lastLine : Nat) :
    StandApart (ofVisible visible preload lastLine) :=
  ⟨(ofVisible_spec visible preload lastLine).1, (ofVisible_spec visible preload lastLine).2⟩

/-- The windows of visible lines take the lines around the visible ranges. -/
theorem exists_holds_ofVisible_iff (line : Nat) :
    (∃ w ∈ ofVisible visible preload lastLine, w.Holds line) ↔
      ∃ range ∈ visible, (around preload lastLine range).Holds line := by
  have hsorted := pairwise_first_sorted visible preload lastLine
  calc (∃ w ∈ ofVisible visible preload lastLine, w.Holds line)
      ↔ ∃ w ∈ (visible.map (around preload lastLine)).mergeSort precedes, w.Holds line := by
        rw [ofVisible]
        split
        · next heq => rw [heq]
        · next heq =>
          rw [heq] at hsorted ⊢
          exact exists_holds_join_iff hsorted line
    _ ↔ ∃ range ∈ visible, (around preload lastLine range).Holds line := by
        simp [List.mem_mergeSort]

/-- The windows of visible lines end with the document. -/
theorem last_le_of_mem_ofVisible {w : Window} (hw : w ∈ ofVisible visible preload lastLine) :
    w.last ≤ lastLine := by
  have hlines := (standApart_ofVisible visible preload lastLine).lines w hw
  obtain ⟨range, -, hholds⟩ := (exists_holds_ofVisible_iff w.last).1 ⟨w, hw, hlines, Nat.le_refl _⟩
  exact Nat.le_trans hholds.2 (Nat.min_le_right _ _)

/-! ## Machine words -/

/-- The sum of two machine words, which stops at the greatest word. -/
def addWords (greatest a b : Nat) : Nat :=
  min (a + b) greatest

/-- The line is in the document, and visible or at most `preload` lines away from a visible one. Lines are
numbered by machine words. -/
def IsNear (greatest : Nat) (visible : List TextRange) (preload lastLine line : Nat) : Prop :=
  line ≤ lastLine ∧ ∃ range ∈ visible,
    min range.start.line lastLine - preload ≤ line ∧
      line ≤ min (addWords greatest (max range.start.line range.stop.line) preload) lastLine

/-- The lines of a visible range and `preload` lines on either side, in machine words. -/
def aroundInWords (greatest preload lastLine : Nat) (visible : TextRange) : Window where
  first := min visible.start.line lastLine - preload
  last := min (addWords greatest (max visible.stop.line visible.start.line) preload) lastLine

/-- One step of joining windows: `window` makes the latest window longer, which comes first, or starts another
one. -/
def extend (greatest : Nat) (merged : List Window) (window : Window) : List Window :=
  match merged with
  | latest :: earlier =>
    if window.first ≤ addWords greatest latest.last 1 then
      ⟨latest.first, max latest.last window.last⟩ :: earlier
    else
      window :: merged
  | [] => [window]

/-- Joins windows that come in order. -/
def mergeInWords (greatest : Nat) (windows : List Window) : List Window :=
  (windows.foldl (extend greatest) []).reverse

variable {greatest : Nat}

/-- Sums beyond the last line do not matter, so they may stop at any later word. -/
theorem aroundInWords_eq (h : lastLine ≤ greatest) (range : TextRange) :
    aroundInWords greatest preload lastLine range = around preload lastLine range := by
  rw [aroundInWords, around, addWords, Nat.min_assoc, Nat.min_eq_right h]

/-- The lines around the visible ranges are those near them. -/
theorem isNear_iff (h : lastLine ≤ greatest) (line : Nat) :
    IsNear greatest visible preload lastLine line ↔
      ∃ range ∈ visible, (around preload lastLine range).Holds line := by
  simp only [IsNear, Holds, ← aroundInWords_eq h, aroundInWords, Nat.max_comm]
  constructor
  · exact fun ⟨_, hnear⟩ => hnear
  · rintro ⟨range, hrange, hfirst, hlast⟩
    exact ⟨Nat.le_trans hlast (Nat.min_le_right _ _), range, hrange, hfirst, hlast⟩

/-- Joining one window after the other, the latest one is `window` and the earlier ones stay. -/
theorem foldl_extend {window : Window} {rest : List Window}
    (hwords : ∀ w ∈ rest, w.first ≤ greatest) (earlier : List Window) :
    (rest.foldl (extend greatest) (window :: earlier)).reverse = earlier.reverse ++ join window rest := by
  induction rest generalizing window earlier with
  | nil => rw [List.foldl_nil, List.reverse_cons, join]
  | cons next rest ih =>
    rw [List.forall_mem_cons] at hwords
    -- a first line is a word, so the greatest word does not stop the comparison
    have hstop : next.first ≤ addWords greatest window.last 1 ↔ next.first ≤ window.last + 1 := by
      rw [addWords, Nat.le_min]
      exact and_iff_left hwords.1
    rw [List.foldl_cons, extend, join]
    by_cases hjoin : next.first ≤ window.last + 1
    · rw [if_pos (hstop.2 hjoin), if_pos hjoin, ih hwords.2]
    · rw [if_neg (mt hstop.1 hjoin), if_neg hjoin, ih hwords.2, List.reverse_cons, List.append_assoc]
      rfl

/-- In machine words the windows are the same, however the windows around the visible ranges are sorted. -/
theorem mergeInWords_eq (h : lastLine ≤ greatest) {sorted : List Window}
    (hperm : sorted.Perm (visible.map (aroundInWords greatest preload lastLine)))
    (hsorted : sorted.Pairwise fun a b => precedes a b = true) :
    mergeInWords greatest sorted = ofVisible visible preload lastLine := by
  have haround : aroundInWords greatest preload lastLine = around preload lastLine :=
    funext (aroundInWords_eq h)
  rw [haround] at hperm
  have hwords : ∀ w ∈ sorted, w.first ≤ greatest := by
    intro w hw
    obtain ⟨range, -, rfl⟩ := List.mem_map.1 (hperm.mem_iff.1 hw)
    have hlast : (around preload lastLine range).last ≤ lastLine := Nat.min_le_right _ _
    exact Nat.le_trans (first_le_last_around preload lastLine range) (Nat.le_trans hlast h)
  rw [mergeInWords, ofVisible, mergeSort_around_eq hperm hsorted]
  cases sorted with
  | nil => rfl
  | cons window rest => exact foldl_extend (fun w hw => hwords w (List.mem_cons_of_mem _ hw)) []

/-! ## Canonical windows -/

/-- The windows of visible lines are the canonical form of the lines near them, for lines that are numbered by
machine words. They are what joining them in one pass in machine words gives, in whatever way they are sorted;
they take exactly the lines near the visible ones; each has a line and ends with the document; and between any
two there is a line. So visible ranges with the same lines near them have the same windows, and there is one
window of the whole document iff every line is near a visible one. -/
theorem ofVisible_canonical (greatest : Nat) (visible : List TextRange) (preload : Nat) {lastLine : Nat}
    (h : lastLine ≤ greatest) :
    let windows := ofVisible visible preload lastLine
    (∀ sorted : List Window, sorted.Perm (visible.map (aroundInWords greatest preload lastLine)) →
      sorted.Pairwise (fun a b => precedes a b = true) → mergeInWords greatest sorted = windows) ∧
    (∀ line, (∃ w ∈ windows, w.first ≤ line ∧ line ≤ w.last) ↔
      IsNear greatest visible preload lastLine line) ∧
    (∀ w ∈ windows, w.first ≤ w.last ∧ w.last ≤ lastLine) ∧
    windows.Pairwise (fun a b => a.last + 1 < b.first) ∧
    (∀ (visible' : List TextRange) (preload' lastLine' : Nat), lastLine' ≤ greatest →
      (∀ line, IsNear greatest visible' preload' lastLine' line ↔
        IsNear greatest visible preload lastLine line) →
      ofVisible visible' preload' lastLine' = windows) ∧
    (windows = [⟨0, lastLine⟩] ↔ ∀ line ≤ lastLine, IsNear greatest visible preload lastLine line) := by
  intro windows
  have hlines (line : Nat) : (∃ w ∈ windows, w.Holds line) ↔
      IsNear greatest visible preload lastLine line := by
    rw [isNear_iff h, exists_holds_ofVisible_iff]
  have hcanonical := standApart_ofVisible visible preload lastLine
  refine ⟨fun sorted => mergeInWords_eq h, hlines,
    fun w hw => ⟨hcanonical.lines w hw, last_le_of_mem_ofVisible hw⟩, hcanonical.apart, ?_, ?_⟩
  · intro visible' preload' lastLine' h' hsame
    refine eq_of_holds_iff (standApart_ofVisible visible' preload' lastLine') hcanonical fun line => ?_
    rw [hlines, ← hsame, isNear_iff h', exists_holds_ofVisible_iff]
  · have hall (line : Nat) : (∃ w ∈ [(⟨0, lastLine⟩ : Window)], w.Holds line) ↔ line ≤ lastLine := by
      simp [Holds]
    constructor
    · intro heq line hline
      rw [← hlines, heq, hall]
      exact hline
    · intro hnear
      have hsingle : StandApart [⟨0, lastLine⟩] := ⟨by simp, List.pairwise_singleton _ _⟩
      refine eq_of_holds_iff hcanonical hsingle fun line => ?_
      rw [hall, hlines]
      exact ⟨fun hline => hline.1, hnear line⟩

/-- Lines around the greatest machine word and, twice, the first lines upside down: the sums stop at the
greatest word, and neither the second mention nor the order counts. -/
theorem ofVisible_canonical_greatest_word :
    let last := Position.endOfLine
    let visible : List TextRange := [.lines (last - 4) (last - 1), .lines 5 0, .lines 5 0]
    let visible' : List TextRange := [.lines 5 5, .lines (last - 4) last]
    let sorted : List Window := [⟨0, 15⟩, ⟨0, 15⟩, ⟨last - 14, last⟩]
    last ≤ Position.endOfLine ∧
      ofVisible visible 10 last = [⟨0, 15⟩, ⟨last - 14, last⟩] ∧
      (sorted.Perm (visible.map (aroundInWords Position.endOfLine 10 last)) ∧
        sorted.Pairwise (fun a b => precedes a b = true) ∧
        mergeInWords Position.endOfLine sorted = ofVisible visible 10 last) ∧
      ((∀ line, IsNear Position.endOfLine visible' 10 last line ↔
          IsNear Position.endOfLine visible 10 last line) ∧
        ofVisible visible' 10 last = ofVisible visible 10 last) ∧
      ¬ ∀ line ≤ last, IsNear Position.endOfLine visible 10 last line := by
  intro last visible visible' sorted
  obtain ⟨hmerge, -, -, -, hsame, hall⟩ :=
    ofVisible_canonical Position.endOfLine visible 10 (Nat.le_refl last)
  have hperm : sorted.Perm (visible.map (aroundInWords Position.endOfLine 10 last)) := by decide +kernel
  have hsorted : sorted.Pairwise (fun a b => precedes a b = true) := by decide +kernel
  have hwindows : ofVisible visible 10 last = [⟨0, 15⟩, ⟨last - 14, last⟩] := by
    rw [← hmerge sorted hperm hsorted]
    decide +kernel
  have hnear : ∀ line, IsNear Position.endOfLine visible' 10 last line ↔
      IsNear Position.endOfLine visible 10 last line := by
    intro line
    simp [IsNear, addWords, visible, visible', last, TextRange.lines, Position.endOfLine]
    omega
  refine ⟨Nat.le_refl _, hwindows, ⟨hperm, hsorted, hmerge sorted hperm hsorted⟩,
    ⟨hnear, hsame visible' 10 last (Nat.le_refl _) hnear⟩, fun hevery => ?_⟩
  have hone := hall.2 hevery
  rw [hwindows] at hone
  exact absurd (congrArg List.length hone) (by decide)

end CommentTags.Window
