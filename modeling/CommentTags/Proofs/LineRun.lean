import CommentTags.Proofs.Opener
import CommentTags.Proofs.Sweep

/-!
# Runs of line comments are followed to their ends

A run is read line by line and has five ways to end. This module describes them by an inductive predicate
and derives from it what a run claims, which lines it reads, and that nothing is lost where it ends.

## Main definitions

* `LineRun.Reached`: a run has been read up to a position and its next mark stands at another;
* `LineRun.Follows`: what is read of a run from its next mark on;
* `LineRun.nextMark?`: where a run goes on after a line;
* `LineRun.IsRun`: a part of the text is a run that ends where it must.

## Main results

* `LineRun.follows_read`: the loop does what the predicate says;
* `LineRun.next_eq_some`: what the next step of the pass claims, and where it goes on;
* `LineRun.insight_of_next`: no opening mark is lost between two steps;
* `LineRun.sweep_claims_runs`: the pass claims runs, and afterwards every opening mark is claimed or cut.
-/

namespace CommentTags.LineRun

variable {marks : List Mark} {text : Text} {base : Nat} {claims : ClaimSet} {mark : Mark}

/-- A run with the given mark has been read up to `stop`, and its next mark stands at `p`: this is the
first mark, or the mark of the next line. -/
structure Reached (text : Text) (mark : Mark) (stop p : Nat) : Prop where
  occurs : text.occursAt mark.chars p = true
  entry : stop = p ∨ text[stop]? = some '\n' ∧ CarriesAt text mark (stop + 1) p

/-- What is read of a run that has been read up to `stop` and whose next mark stands at `p`. A line is
read up to the first claim that starts after its mark. -/
inductive Follows (text : Text) (base : Nat) (claims : ClaimSet) (mark : Mark) :
    Nat → Nat → LineRun → Prop where
  /-- A claim starts inside the mark: the run ends before this line. -/
  | markCut {stop p : Nat} :
      claims.StartsWithin (base + p) (base + (p + mark.length)) →
      Follows text base claims mark stop p ⟨[], stop, p + mark.length⟩
  /-- A claim starts in the line after its mark: the run ends there. -/
  | lineCut {stop p cut : Nat} :
      p + mark.length ≤ cut → cut < text.lineEnd (p + mark.length) →
      ¬ claims.StartsWithin (base + p) (base + cut) → (∃ c ∈ claims.toList, c.start = base + cut) →
      Follows text base claims mark stop p
        ⟨[.ofSegment text afterOneBlank (p + mark.length) cut], cut, cut⟩
  /-- The text ends, or the next line does not carry the mark or carries it in claimed text. -/
  | ends {stop p eol : Nat} :
      text.lineEnd (p + mark.length) = eol → ¬ claims.StartsWithin (base + p) (base + eol) →
      (eol < text.size → ∀ next, continuation? text mark (eol + 1) = some next →
        claims.contains (base + next) = true) →
      Follows text base claims mark stop p
        ⟨[.ofSegment text afterOneBlank (p + mark.length) eol], eol, eol⟩
  /-- The next line carries the mark. -/
  | goesOn {stop p eol next : Nat} {run : LineRun} :
      text.lineEnd (p + mark.length) = eol → ¬ claims.StartsWithin (base + p) (base + eol) →
      eol < text.size → continuation? text mark (eol + 1) = some next →
      claims.contains (base + next) = false → Follows text base claims mark eol next run →
      Follows text base claims mark stop p
        ⟨.ofSegment text afterOneBlank (p + mark.length) eol :: run.lines, run.stop, run.resume⟩

/-! ## The loop -/

/-- A line is cut at the first claim that starts after its mark starts, or ends with the line. -/
theorem cutAt_spec (claims : ClaimSet) {p eol : Nat} (h : p ≤ eol) :
    p ≤ cutAt base claims p eol ∧ cutAt base claims p eol ≤ eol ∧
      ¬ claims.StartsWithin (base + p) (base + cutAt base claims p eol) ∧
      (cutAt base claims p eol < eol →
        p < cutAt base claims p eol ∧ ∃ c ∈ claims.toList, c.start = base + cutAt base claims p eol) := by
  rw [cutAt]
  split
  -- the line is cut at the first claim that starts in it
  · next c hc =>
    obtain ⟨hafter, hbefore, ⟨s, hs, rfl⟩, hmin⟩ := ClaimSet.firstStartWithin_eq_some hc
    refine ⟨by omega, by omega, ?_, fun _ => ⟨by omega, s, hs, by omega⟩⟩
    rintro ⟨t, ht, hafter', hbefore'⟩
    have := hmin t ht hafter'
    omega
  · next hnone =>
    refine ⟨h, Nat.le_refl _, ?_, fun hlt => absurd hlt (Nat.lt_irrefl _)⟩
    exact ClaimSet.firstStartWithin_eq_none_iff.1 hnone

/-- The loop adds the lines that it reads to those read before. -/
theorem follows_read (base : Nat) (claims : ClaimSet) (lines : List CommentLine) (stop : Nat) {p : Nat}
    (hfit : p + mark.length ≤ text.size) :
    ∃ run, Follows text base claims mark stop p run ∧
      read text base claims mark lines stop p = ⟨lines.reverse ++ run.lines, run.stop, run.resume⟩ := by
  have heol := Text.le_lineEnd text (p + mark.length)
  obtain ⟨hle, hcut, hclear, hstart⟩ :=
    @cutAt_spec base claims p (text.lineEnd (p + mark.length)) (by omega)
  rw [read]
  split
  -- the mark is cut
  · next hmark =>
    obtain ⟨hlt, c, hc, hstart⟩ := hstart (by omega)
    refine ⟨_, .markCut ⟨c, hc, by omega, by omega⟩, ?_⟩
    rw [List.append_nil]
  · next hmark =>
    rw [Nat.not_lt] at hmark
    simp only
    split
    -- the line is cut
    · next hline => exact ⟨_, .lineCut hmark hline hclear (hstart hline).2, by simp⟩
    · next hline =>
      have heq : cutAt base claims p (text.lineEnd (p + mark.length)) =
          text.lineEnd (p + mark.length) := by omega
      rw [heq] at hclear ⊢
      split
      -- the text ends
      · next hsize =>
        exact ⟨_, .ends rfl hclear (fun hlt => absurd hlt (by omega)), by simp⟩
      · next hsize =>
        split
        -- the next line does not carry the mark
        · next hnone =>
          refine ⟨_, .ends rfl hclear (fun _ next hnext => ?_), by simp⟩
          rw [hnone] at hnext
          cases hnext
        · next next hnext =>
          split
          -- it carries the mark in claimed text
          · next hclaimed =>
            refine ⟨_, .ends rfl hclear (fun _ next' hnext' => ?_), by simp⟩
            rw [hnext] at hnext'
            cases hnext'
            exact hclaimed
          -- the run goes on from the mark of the next line
          · next hfree =>
            rw [Bool.not_eq_true] at hfree
            have hbounds := continuation?_eq_some hnext (by omega)
            have hlen := mark.length_pos
            have hless : text.size - next < text.size - p := by omega
            obtain ⟨run, hrun, hread⟩ := follows_read base claims
              (.ofSegment text afterOneBlank (p + mark.length) (text.lineEnd (p + mark.length)) :: lines)
              (text.lineEnd (p + mark.length)) hbounds.2
            refine ⟨_, .goesOn rfl hclear (by omega) hnext hfree hrun, ?_⟩
            rw [hread]
            simp
termination_by text.size - p

/-! ## One step of the loop -/

/-- Where the next line of a run carries its mark, outside of all claims; the line before it ends at `eol`. -/
def nextMark? (text : Text) (base : Nat) (claims : ClaimSet) (mark : Mark) (eol : Nat) : Option Nat :=
  if eol < text.size then
    (continuation? text mark (eol + 1)).filter fun next => !claims.contains (base + next)
  else
    none

/-- One step of the loop: the mark is cut, the line is cut after its mark, or the run ends with the line
or goes on with the next one. -/
theorem read_eq (text : Text) (base : Nat) (claims : ClaimSet) (mark : Mark) (lines : List CommentLine)
    (stop p : Nat) :
    let markEnd := p + mark.length
    let eol := text.lineEnd markEnd
    let cut := cutAt base claims p eol
    let lines' := CommentLine.ofSegment text afterOneBlank markEnd cut :: lines
    read text base claims mark lines stop p =
      if cut < markEnd then ⟨lines.reverse, stop, markEnd⟩
      else if cut < eol then ⟨lines'.reverse, cut, cut⟩
      else
        match nextMark? text base claims mark eol with
        | none => ⟨lines'.reverse, eol, eol⟩
        | some next => read text base claims mark lines' eol next := by
  intro markEnd eol cut lines'
  rw [read]
  split
  · rfl
  · split
    · rfl
    · split
      · next hsize =>
        rw [nextMark?, if_neg (Nat.not_lt.2 hsize)]
      · next hsize =>
        rw [nextMark?, if_pos (Nat.lt_of_not_le hsize)]
        split
        · next hnone => rw [hnone]; rfl
        · next next hnext =>
          rw [hnext, Option.filter_some]
          by_cases hclaimed : claims.contains (base + next) = true
          · rw [if_pos hclaimed, if_neg (by rw [hclaimed]; decide)]
          · rw [if_neg hclaimed, if_pos (by rw [Bool.not_eq_true] at hclaimed; rw [hclaimed]; rfl)]

/-- The mark of the next line is found after the line feed. -/
theorem nextMark?_eq_some {eol next : Nat}
    (h : nextMark? text base claims mark eol = some next) :
    eol < next ∧ text.occursAt mark.chars next = true := by
  rw [nextMark?, Option.ite_none_right_eq_some, Option.filter_eq_some_iff] at h
  obtain ⟨hlt, hnext, -⟩ := h
  have hcarries := carriesAt_of_continuation? hnext hlt
  exact ⟨hcarries.le, hcarries.occurs⟩

/-! ## Where a run is -/

namespace Reached

theorem fits {stop p : Nat} (h : Reached text mark stop p) : p + mark.length ≤ text.size :=
  mark.add_length_le_of_occursAt h.occurs

theorem stop_le {stop p : Nat} (h : Reached text mark stop p) : stop ≤ p := by
  rcases h.entry with rfl | ⟨-, hcarries⟩
  · exact Nat.le_refl _
  · exact Nat.le_of_lt hcarries.le

/-- A line of a run that does not end with the text ends at a line feed. -/
theorem newline {stop p eol : Nat} (h : Reached text mark stop p)
    (heol : text.lineEnd (p + mark.length) = eol) (hlt : eol < text.size) : text[eol]? = some '\n' := by
  subst heol
  exact Text.getElem?_lineEnd h.fits hlt

/-- Where the next line carries the mark, the run reaches that mark from the end of its line. -/
theorem next {stop p eol next : Nat} (h : Reached text mark stop p)
    (heol : text.lineEnd (p + mark.length) = eol) (hlt : eol < text.size)
    (hnext : continuation? text mark (eol + 1) = some next) : Reached text mark eol next := by
  have hcarries := carriesAt_of_continuation? hnext (Nat.succ_le_of_lt hlt)
  exact ⟨hcarries.occurs, .inr ⟨h.newline heol hlt, hcarries⟩⟩

/-- Between what has been read and the next mark there is nothing but a line feed and blanks. -/
theorem between {stop p i : Nat} (h : Reached text mark stop p) (h₁ : stop ≤ i) (h₂ : i < p) :
    text[i]? = some '\n' ∨ text.blankAt i = true := by
  rcases h.entry with rfl | ⟨hnewline, hcarries⟩
  · omega
  · rcases Nat.eq_or_lt_of_le h₁ with rfl | hlt
    · exact .inl hnewline
    · exact .inr (hcarries.blanks i hlt h₂)

end Reached

/-- A line that is read from the mark at `p` up to a position before which no claim starts lies there,
apart from all claims. -/
theorem segment_spec {p cut : Nat} (hfit : p + mark.length ≤ text.size)
    (hfresh : claims.contains (base + p) = false) (hmark : p + mark.length ≤ cut)
    (hline : cut ≤ text.lineEnd (p + mark.length))
    (hclear : ¬ claims.StartsWithin (base + p) (base + cut)) :
    let line := CommentLine.ofSegment text afterOneBlank (p + mark.length) cut
    line.Within text (p + mark.length) cut ∧ line.ApartFrom claims base := by
  intro line
  have hfree := (Text.freeOfNewlines_lineEnd hfit).mono (Nat.le_refl _) hline
  have hsize := Text.lineEnd_le hfit
  have hwithin : line.Within text (p + mark.length) cut :=
    CommentLine.within_ofSegment hmark (Nat.le_trans hline hsize) hfree
  refine ⟨hwithin, fun c hc => ?_⟩
  have hlo := hwithin.lo_le
  have hhi := hwithin.le_hi
  rw [Span.Disjoint]
  -- a claim starts after the mark, or has ended before it
  by_cases hstart : base + p < c.start
  · right
    -- a claim that starts after the mark does so beyond the line
    have hcut : base + cut ≤ c.start := by
      refine Nat.le_of_not_lt fun hlt => hclear ⟨c, hc, hstart, hlt⟩
    show base + line.stop ≤ c.start
    omega
  · left
    have hstop := (ClaimSet.contains_eq_false_iff.1 hfresh c hc).resolve_left hstart
    show c.stop ≤ base + line.start
    omega

namespace Follows

variable {stop p : Nat} {run : LineRun}

/-- A run ends no earlier than what has been read of it, and the text after it is looked at from its end
on, or from the end of a mark that was cut. -/
theorem bounds (h : Follows text base claims mark stop p run) (hreached : Reached text mark stop p) :
    stop ≤ run.stop ∧ run.stop ≤ run.resume ∧ run.resume ≤ text.size ∧
      (run.stop = stop ∨ p + mark.length ≤ run.stop) := by
  induction h with
  | @markCut stop p _ =>
    have hle := hreached.stop_le
    have hfit := hreached.fits
    exact ⟨Nat.le_refl _, by simp only; omega, hfit, .inl rfl⟩
  | @lineCut stop p cut hmark hline _ _ =>
    have hle := hreached.stop_le
    have hsize := Text.lineEnd_le hreached.fits
    exact ⟨by simp only; omega, Nat.le_refl _, by simp only; omega, .inr hmark⟩
  | @ends stop p eol heol _ _ =>
    subst heol
    have hle := hreached.stop_le
    have hmark := Text.le_lineEnd text (p + mark.length)
    exact ⟨by simp only; omega, Nat.le_refl _, Text.lineEnd_le hreached.fits, .inr hmark⟩
  | @goesOn stop p eol next run heol _ hlt hnext _ _ ih =>
    obtain ⟨hstop, hresume, hsize, -⟩ := ih (hreached.next heol hlt hnext)
    subst heol
    have hle := hreached.stop_le
    have hmark := Text.le_lineEnd text (p + mark.length)
    refine ⟨?_, hresume, hsize, .inr ?_⟩
    · show stop ≤ run.stop
      omega
    · show p + mark.length ≤ run.stop
      omega

/-- The lines of a run lie in it, one after the other, and no claim takes text out of them. -/
theorem lines_spec (h : Follows text base claims mark stop p run)
    (hreached : Reached text mark stop p) (hfresh : claims.contains (base + p) = false) :
    (∀ line ∈ run.lines,
      line.Within text (p + mark.length) run.stop ∧ line.ApartFrom claims base) ∧
    run.lines.Pairwise fun a b => a.stop ≤ b.start := by
  induction h with
  | markCut => exact ⟨fun line hline => absurd hline List.not_mem_nil, List.Pairwise.nil⟩
  | @lineCut stop p cut hmark hline hclear _ =>
    obtain hspec := segment_spec hreached.fits hfresh hmark (Nat.le_of_lt hline) hclear
    refine ⟨fun line hline => ?_, List.pairwise_singleton _ _⟩
    rw [List.mem_singleton.1 hline]
    exact hspec
  | @ends stop p eol heol hclear _ =>
    subst heol
    obtain hspec := segment_spec hreached.fits hfresh (Text.le_lineEnd text _) (Nat.le_refl _) hclear
    refine ⟨fun line hline => ?_, List.pairwise_singleton _ _⟩
    rw [List.mem_singleton.1 hline]
    exact hspec
  | @goesOn stop p eol next run heol hclear hlt hnext hunclaimed hrun ih =>
    have hreached' := hreached.next heol hlt hnext
    obtain ⟨hlines, hpairwise⟩ := ih hreached' hunclaimed
    obtain ⟨hstop, -⟩ := hrun.bounds hreached'
    have hle := hreached'.stop_le
    subst heol
    have hmark := Text.le_lineEnd text (p + mark.length)
    obtain ⟨hwithin, hdisjoint⟩ := segment_spec hreached.fits hfresh hmark (Nat.le_refl _) hclear
    constructor
    · rw [List.forall_mem_cons]
      refine ⟨⟨hwithin.mono (Nat.le_refl _) hstop, hdisjoint⟩, fun line hline => ?_⟩
      obtain ⟨hwithin', hdisjoint'⟩ := hlines line hline
      exact ⟨hwithin'.mono (by omega) (Nat.le_refl _), hdisjoint'⟩
    · refine List.Pairwise.cons (fun line hline => ?_) hpairwise
      have hbefore := hwithin.le_hi
      have hafter := (hlines line hline).1.lo_le
      omega

/-- Each further line of a run carries its mark. -/
theorem carried (h : Follows text base claims mark stop p run) (hreached : Reached text mark stop p)
    (hmark : mark.Compact) {q : Nat} (h₁ : p ≤ q) (h₂ : q < run.stop) (hq : text[q]? = some '\n') :
    ∃ i, CarriesAt text mark (q + 1) i ∧ i + mark.length ≤ run.stop := by
  -- the first line has no line feed before its end
  have hfirst {stop p : Nat} (hreached : Reached text mark stop p) (h₁ : p ≤ q) :
      text.lineEnd (p + mark.length) ≤ q := by
    refine Nat.le_of_not_lt fun hlt => ?_
    by_cases hq' : q < p + mark.length
    · exact (hmark.not_blankAt hreached.occurs h₁ hq').2 hq
    · exact Text.freeOfNewlines_lineEnd hreached.fits q (Nat.le_of_not_lt hq') hlt hq
  induction h with
  | @markCut stop p _ =>
    have hle := hreached.stop_le
    simp only at h₂
    omega
  | @lineCut stop p cut _ hline _ _ =>
    have := hfirst hreached h₁
    simp only at h₂
    omega
  | @ends stop p eol heol _ _ =>
    have := hfirst hreached h₁
    simp only at h₂
    omega
  | @goesOn stop p eol next run heol _ hlt hnext _ hrun ih =>
    have hreached' := hreached.next heol hlt hnext
    obtain ⟨-, -, -, hshort⟩ := hrun.bounds hreached'
    have hcarries := carriesAt_of_continuation? hnext hlt
    have hend := hfirst hreached h₁
    rw [heol] at hend
    simp only at h₂ ⊢
    rcases Nat.eq_or_lt_of_le hend with rfl | hafter
    · exact ⟨next, hcarries, by omega⟩
    · by_cases hnext' : next ≤ q
      · exact ih hreached' hnext' h₂
      -- between the line feed and the mark there are only blanks
      · have hblank := hcarries.blanks q hafter (Nat.lt_of_not_le hnext')
        exact absurd hq (Text.ne_newline_of_blankAt hblank)

/-- A run that is not empty ends at the end of a line, at the end of the text or at a claim. -/
theorem stop_cases (h : Follows text base claims mark stop p run) (hreached : Reached text mark stop p) :
    run.stop = stop ∨ run.stop = text.size ∨ text[run.stop]? = some '\n' ∨
      ∃ c ∈ claims.toList, c.start = base + run.stop := by
  induction h with
  | markCut => exact .inl rfl
  | lineCut _ _ _ hc => exact .inr (.inr (.inr hc))
  | @ends stop p eol heol _ _ =>
    have hle : eol ≤ text.size := by
      rw [← heol]
      exact Text.lineEnd_le hreached.fits
    rcases Nat.eq_or_lt_of_le hle with hsize | hlt
    · exact .inr (.inl hsize)
    · exact .inr (.inr (.inl (hreached.newline heol hlt)))
  | @goesOn stop p eol next run heol _ hlt hnext _ _ ih =>
    rcases ih (hreached.next heol hlt hnext) with hstop | hrest
    -- the next line is cut inside its mark, so the run ends with this line
    · refine .inr (.inr (.inl ?_))
      show text[run.stop]? = some '\n'
      rw [hstop]
      exact hreached.newline heol hlt
    · exact .inr hrest

/-- Where a run ends at a line feed, the next line does not carry the mark, or carries it in claimed text,
or a claim starts inside the mark. -/
theorem maximal (h : Follows text base claims mark stop p run) (hreached : Reached text mark stop p)
    (hmark : mark.Compact) (hnewline : text[run.stop]? = some '\n') {i : Nat}
    (hi : CarriesAt text mark (run.stop + 1) i) :
    claims.contains (base + i) = true ∨ claims.StartsWithin (base + i) (base + (i + mark.length)) := by
  have hsize := Nat.succ_le_of_lt (Array.getElem?_eq_some_iff.1 hnewline).1
  induction h with
  | @markCut stop p hwithin =>
    right
    have hlen := mark.length_pos
    rcases hreached.entry with rfl | ⟨-, hcarries⟩
    · exact absurd hnewline (hmark.not_blankAt hreached.occurs (Nat.le_refl _) (by omega)).2
    -- both marks are found at the start of the same line
    · have hp := (continuation?_eq_some_iff hmark hsize).2 hcarries
      have hi := (continuation?_eq_some_iff hmark hsize).2 hi
      rw [hp] at hi
      cases hi
      exact hwithin
  | @lineCut stop p cut hle hline _ _ =>
    exact absurd hnewline (Text.freeOfNewlines_lineEnd hreached.fits cut hle hline)
  | @ends stop p eol heol _ hclaimed =>
    exact .inl (hclaimed hsize i ((continuation?_eq_some_iff hmark hsize).2 hi))
  | @goesOn stop p eol next run heol _ hlt hnext _ _ ih =>
    exact ih (hreached.next heol hlt hnext) hnewline hi hsize

/-- An opening mark beyond a run is claimed, or cut by a claim, or stands in the text that is looked at
next. -/
theorem not_lost (h : Follows text base claims mark stop p run) (hreached : Reached text mark stop p)
    (hmarks : ∀ m ∈ marks, m.Compact) {start : Nat} (hstart : markAt? marks text start = some mark)
    {i : Nat} {mark' : Mark} (hopener : IsOpener marks text i mark') (hi : run.stop ≤ i) :
    claims.contains (base + i) = true ∨
      claims.StartsWithin (base + i) (base + (i + mark'.length)) ∨ run.resume < i := by
  obtain ⟨hanchored, hmark'⟩ := isOpener_iff.1 hopener
  have hmark := compact_of_markAt? hmarks hstart
  have hlen := mark'.length_pos
  -- no mark starts with a blank or a line feed
  have hfirst := (compact_of_markAt? hmarks hmark').not_blankAt (occursAt_of_markAt? hmark')
    (Nat.le_refl i) (by omega)
  induction h with
  | @markCut stop p hwithin =>
    right
    have hp : p ≤ i := by
      refine Nat.le_of_not_lt fun hlt => ?_
      rcases hreached.between hi hlt with hnewline | hblank
      · exact hfirst.2 hnewline
      · rw [hfirst.1] at hblank
        cases hblank
    rcases Nat.eq_or_lt_of_le hp with rfl | hlt
    -- the mark that stands here is at least as long as the mark that is cut
    · left
      obtain ⟨mark'', hmark'', hpre⟩ := exists_prefix_of_occursAt hstart hreached.occurs
      rw [hmark'] at hmark''
      cases hmark''
      obtain ⟨c, hc, hafter, hbefore⟩ := hwithin
      have hle := hpre.length_le
      refine ⟨c, hc, hafter, ?_⟩
      simp only [Mark.length] at hbefore ⊢
      omega
    · right
      exact hmark.lt_of_anchored hreached.occurs hanchored hlt
  | @lineCut stop p cut _ _ _ hcut =>
    rcases Nat.eq_or_lt_of_le hi with heq | hlt
    -- the claim that cuts the line starts here
    · left
      obtain ⟨c, hc, hstart⟩ := hcut
      have hne := ClaimSet.start_lt_stop_of_mem hc
      have hcut : cut = i := heq
      rw [ClaimSet.contains_iff]
      exact ⟨c, hc, Span.contains_iff.2 ⟨by omega, by omega⟩⟩
    · exact .inr (.inr hlt)
  | @ends stop p eol heol _ _ =>
    rcases Nat.eq_or_lt_of_le hi with rfl | hlt
    -- no mark stands where a line ends
    · have hsize : eol < text.size := by
        have := mark'.add_length_le_of_occursAt (occursAt_of_markAt? hmark')
        simp only at this
        omega
      exact absurd (hreached.newline heol hsize) hfirst.2
    · exact .inr (.inr hlt)
  | @goesOn stop p eol next run heol _ hlt hnext _ _ ih =>
    exact ih (hreached.next heol hlt hnext) hi

end Follows

/-! ## One step of the pass -/

/-- A step of the pass finds the next opening mark. If it is claimed, the pass goes on after it; else the
run that starts there is claimed, and the pass goes on where the run says, or after its first mark. -/
theorem next_eq_some {pos : Nat} {found : Found} (h : next marks text base claims pos = some found) :
    ∃ start mark, IsOpener marks text start mark ∧ pos ≤ start ∧
      (∀ i, pos ≤ i → i < start → text.freeAt pos i = true → markAt? marks text i = none) ∧
      (claims.contains (base + start) = true ∧
          found = ⟨⟨base + start, base + start⟩, [], none, start + mark.length⟩ ∨
        claims.contains (base + start) = false ∧ ∃ run, Follows text base claims mark start start run ∧
          found = ⟨⟨base + start, base + run.stop⟩, run.lines, some mark,
            max run.resume (start + mark.length)⟩) := by
  simp only [next, Option.bind_eq_bind, Option.bind_eq_some_iff] at h
  obtain ⟨start, hstart, mark, hmark, h⟩ := h
  obtain ⟨hpos, -, hfree, -⟩ := Text.findFree?_eq_some hstart
  have hopener : IsOpener marks text start mark :=
    isOpener_iff.2 ⟨Text.anchored_of_freeAt hfree, hmark⟩
  refine ⟨start, mark, hopener, hpos, ?_, ?_⟩
  · intro i hi hlt hfreeAt
    obtain ⟨-, -, hmin⟩ := firstFrom_eq_some_iff.1 hstart
    have hnot := hmin i hi hlt
    rw [hfreeAt, Bool.true_and, Option.isSome_eq_false_iff, Option.isNone_iff_eq_none] at hnot
    exact hnot
  · split at h
    · next hclaimed =>
      cases h
      exact .inl ⟨hclaimed, rfl⟩
    · next hfresh =>
      obtain ⟨run, hrun, hread⟩ := follows_read base claims [] start
        (mark.add_length_le_of_occursAt (occursAt_of_markAt? hmark))
      rw [hread] at h
      cases h
      rw [Bool.not_eq_true] at hfresh
      exact .inr ⟨hfresh, run, hrun, rfl⟩

/-- A step of the pass fails only if no opening mark is left. -/
theorem not_isOpener_of_next_eq_none {pos : Nat} (h : next marks text base claims pos = none) {i : Nat}
    (hopener : IsOpener marks text i mark) (hpos : pos ≤ i) (hfree : text.freeAt pos i = true) :
    False := by
  obtain ⟨-, hmark⟩ := isOpener_iff.1 hopener
  have hfit := mark.add_length_le_of_occursAt (occursAt_of_markAt? hmark)
  have hlen := mark.length_pos
  rw [next] at h
  cases hfind : text.findFree? (fun i => (markAt? marks text i).isSome) pos with
  | none =>
    have hnot : (text.freeAt pos i && (markAt? marks text i).isSome) = false :=
      firstFrom_eq_none_iff.1 hfind i hpos (by omega)
    rw [hfree, hmark] at hnot
    cases hnot
  | some start =>
    obtain ⟨-, -, -, hsome⟩ := Text.findFree?_eq_some hfind
    obtain ⟨mark', hmark'⟩ := Option.isSome_iff_exists.1 hsome
    simp only [hfind, hmark', Option.bind_eq_bind, Option.bind_some] at h
    split at h <;> cases h

/-- An opening mark that the pass still has in sight before a step is in sight after it, or it is claimed,
or cut by a claim. -/
theorem insight_of_next (hmarks : ∀ m ∈ marks, m.Compact) {pos : Nat} {found : Found}
    (h : next marks text base claims pos = some found) {i : Nat} {mark' : Mark}
    (hopener : IsOpener marks text i mark') (hpos : pos ≤ i) (hfree : text.freeAt pos i = true) :
    found.resume ≤ i ∧ text.freeAt found.resume i = true ∨
      (claims.claim found.claim).contains (base + i) = true ∨
      (claims.claim found.claim).StartsWithin (base + i) (base + (i + mark'.length)) := by
  obtain ⟨start, mark, hstart, -, hmin, hcases⟩ := next_eq_some h
  obtain ⟨hanchored, hmark'⟩ := isOpener_iff.1 hopener
  obtain ⟨-, hmark⟩ := isOpener_iff.1 hstart
  have hocc := occursAt_of_markAt? hmark
  have hcompact := compact_of_markAt? hmarks hmark
  have hle : start ≤ i := by
    refine Nat.le_of_not_lt fun hlt => ?_
    rw [hmin i hpos hlt hfree] at hmark'
    cases hmark'
  -- beyond the mark that is found, an opening mark is in sight if the pass goes on before it
  have hinsight (hlt : found.resume < i) : found.resume ≤ i ∧ text.freeAt found.resume i = true :=
    ⟨Nat.le_of_lt hlt, Text.freeAt_of_lt hanchored hlt⟩
  rcases hcases with ⟨hclaimed, rfl⟩ | ⟨-, run, hrun, rfl⟩
  · -- the mark that is found is claimed already
    rcases Nat.eq_or_lt_of_le hle with rfl | hlt
    · right
      left
      rw [ClaimSet.claim_of_isEmpty (Span.isEmpty_iff.2 (Nat.le_refl _))]
      exact hclaimed
    · exact .inl (hinsight (hcompact.lt_of_anchored hocc hanchored hlt))
  · -- a run is claimed
    have hreached : Reached text mark start start := ⟨hocc, .inl rfl⟩
    by_cases hstop : i < run.stop
    · right
      left
      rw [ClaimSet.contains_iff]
      refine ⟨⟨base + start, base + run.stop⟩, ClaimSet.mem_toList_claim.2 (.inr ⟨rfl, ?_⟩), ?_⟩
      · show base + start < base + run.stop
        omega
      · rw [Span.contains_iff]
        show base + start ≤ base + i ∧ base + i < base + run.stop
        omega
    · rcases hrun.not_lost hreached hmarks hmark hopener (Nat.le_of_not_lt hstop) with
        hclaimed | hcut | hresume
      · exact .inr (.inl (ClaimSet.contains_claimAll_of_contains [_] hclaimed))
      · exact .inr (.inr (hcut.claimAll [_]))
      · rcases Nat.eq_or_lt_of_le hle with rfl | hlt
        -- a run does not go on before its own mark
        · obtain ⟨-, hresume', -⟩ := hrun.bounds hreached
          have hle := (hrun.bounds hreached).1
          omega
        · have hlt' := hcompact.lt_of_anchored hocc hanchored hlt
          exact .inl (hinsight (Nat.max_lt.2 ⟨hresume, hlt'⟩))

/-! ## A whole pass -/

/-- `start ≤ p < stop` is a run with the given mark under earlier claims. It starts at an opening mark in
text that is not claimed, each of its further lines carries the mark, and it ends with a line, with the
text or where a claim starts. At the end of a line it does so only if the next line does not carry the
mark, or carries it in claimed text, or a claim starts inside the mark. -/
structure IsRun (marks : List Mark) (text : Text) (base : Nat) (claims : ClaimSet) (mark : Mark)
    (start stop : Nat) : Prop where
  opens : IsOpener marks text start mark
  fresh : claims.contains (base + start) = false
  fits : start + mark.length ≤ stop
  carried : ∀ q, start ≤ q → q < stop → text[q]? = some '\n' →
    ∃ i, CarriesAt text mark (q + 1) i ∧ i + mark.length ≤ stop
  ends : stop = text.size ∨ text[stop]? = some '\n' ∨ ∃ c ∈ claims.toList, c.start = base + stop
  maximal : text[stop]? = some '\n' → ∀ i, CarriesAt text mark (stop + 1) i →
    claims.contains (base + i) = true ∨ claims.StartsWithin (base + i) (base + (i + mark.length))

/-- Each of the spans in `added` is a run under the claims at the time it is claimed. -/
def AreRuns (marks : List Mark) (text : Text) (base : Nat) (claims : ClaimSet) (added : List Span) :
    Prop :=
  ∀ before span after, added = before ++ span :: after →
    ∃ mark start stop, IsRun marks text base (claims.claimAll before) mark start stop ∧
      span = ⟨base + start, base + stop⟩

/-- No opening mark is left: each is claimed, or a claim starts inside it. -/
def AllTaken (marks : List Mark) (text : Text) (base : Nat) (claims : ClaimSet) : Prop :=
  ∀ i mark, IsOpener marks text i mark →
    claims.contains (base + i) = true ∨ claims.StartsWithin (base + i) (base + (i + mark.length))

/-- What is followed from an opening mark that is not claimed is a run, unless it is empty. -/
theorem Follows.isRun {start : Nat} {run : LineRun} (h : Follows text base claims mark start start run)
    (hmark : mark.Compact) (hopener : IsOpener marks text start mark)
    (hfresh : claims.contains (base + start) = false) (hlt : start < run.stop) :
    IsRun marks text base claims mark start run.stop := by
  have hreached : Reached text mark start start :=
    ⟨occursAt_of_markAt? (isOpener_iff.1 hopener).2, .inl rfl⟩
  refine ⟨hopener, hfresh, ?_, ?_, ?_, ?_⟩
  · obtain ⟨-, -, -, hfits⟩ := h.bounds hreached
    exact hfits.resolve_left (Nat.ne_of_gt hlt)
  · intro q h₁ h₂ hq
    exact h.carried hreached hmark h₁ h₂ hq
  · exact (h.stop_cases hreached).resolve_left (Nat.ne_of_gt hlt)
  · intro hnewline i hi
    exact h.maximal hreached hmark hnewline hi

/-- What a pass claims are runs. -/
theorem areRuns_of_prefix (hmarks : ∀ m ∈ marks, m.Compact) {visited : List Found}
    (h : visited <+: (pass marks text base).visits claims 0) :
    AreRuns marks text base claims (Found.claimed visited) := by
  intro before span after heq
  have hturn : Found.InTurn (fun claims found => ∃ pos, next marks text base claims pos = some found)
      claims visited :=
    Pass.inTurn_of_prefix _ (fun {_ pos _} hnext => ⟨pos, hnext⟩) h
  obtain ⟨found, rfl, hlt, pos, hnext⟩ := hturn.of_claimed heq
  obtain ⟨start, mark, hopener, -, -, hcases⟩ := next_eq_some hnext
  rcases hcases with ⟨-, rfl⟩ | ⟨hfresh, run, hrun, rfl⟩
  -- a mark that is claimed already claims nothing
  · exact absurd hlt (Nat.lt_irrefl _)
  · have hmark := compact_of_markAt? hmarks (isOpener_iff.1 hopener).2
    have hstop : start < run.stop := Nat.lt_of_add_lt_add_left hlt
    exact ⟨mark, start, run.stop, hrun.isRun hmark hopener hfresh hstop, rfl⟩

/-- After a pass with compact marks every opening mark is claimed or cut. -/
theorem allTaken_visits (hmarks : ∀ m ∈ marks, m.Compact) (claims : ClaimSet) :
    AllTaken marks text base
      (claims.claimAll (((pass marks text base).visits claims 0).map Found.claim)) := by
  intro i mark hopener
  refine (pass marks text base).settled_of_visits
    (fun pos (x : Nat × Mark) =>
      IsOpener marks text x.1 x.2 ∧ pos ≤ x.1 ∧ text.freeAt pos x.1 = true)
    (fun claims x => claims.contains (base + x.1) = true ∨
      claims.StartsWithin (base + x.1) (base + (x.1 + x.2.length)))
    ?_ ?_ ?_ (x := (i, mark)) ?_
  · rintro claims x spans (hclaimed | hcut)
    · exact .inl (ClaimSet.contains_claimAll_of_contains spans hclaimed)
    · exact .inr (hcut.claimAll spans)
  · rintro claims pos x hnone ⟨hx, hpos, hfree⟩
    exact not_isOpener_of_next_eq_none hnone hx hpos hfree
  · rintro claims pos found x hsome ⟨hx, hpos, hfree⟩
    rcases insight_of_next hmarks hsome hx hpos hfree with hinsight | hsettled
    · exact .inl ⟨hx, hinsight⟩
    · exact .inr hsettled
  · exact ⟨hopener, Nat.zero_le _, Text.freeAt_zero (isOpener_iff.1 hopener).1⟩

variable {σ : Type} [Checkpoint σ]

/-- A pass finds the runs of line comments. However it ends, it has claimed runs and nothing else. If it
is not interrupted, every opening mark is claimed in the end or cut by a claim: none was passed over,
whichever way the runs before it ended. -/
theorem sweep_claims_runs (marks : List Mark) (hmarks : ∀ m ∈ marks, m.Compact) (text : Text)
    (base : Nat) (matchers : Matchers) (s : ScanState σ) :
    let sweep : ScanM σ Unit := (pass marks text base).sweep base matchers 0
    (∃ added, (ScanM.endState sweep s).claims = s.claims.claimAll added ∧
        AreRuns marks text base s.claims added) ∧
      (ScanM.Completes sweep s → AllTaken marks text base (ScanM.endState sweep s).claims) := by
  intro sweep
  constructor
  · obtain ⟨visited, hpre, hclaims⟩ := (pass marks text base).claims_endState base matchers 0 s
    exact ⟨Found.claimed visited, hclaims, areRuns_of_prefix hmarks hpre⟩
  · intro hcompletes
    rw [(Pass.sweep_ok hcompletes).1]
    exact allTaken_visits hmarks s.claims

/-- The pass for comments after `//` or `--` over four comments, where a claim starts inside the mark of
the third: the hypotheses hold, and so does what follows from them. -/
theorem sweep_claims_runs_cut :
    let marks : List Mark := [⟨['/', '/'], by decide⟩, ⟨['-', '-'], by decide⟩]
    let text := Text.ofString "// a\n// b\n/// c\nx -- d"
    let s : ScanState Unlimited := ⟨.ofList [⟨11, 13⟩], [], {}⟩
    let sweep : ScanM Unlimited Unit := (pass marks text 0).sweep 0 ⟨none, none, .code [] marks⟩ 0
    (∀ m ∈ marks, m.Compact) ∧ ScanM.Completes sweep s ∧
      (∃ added, (ScanM.endState sweep s).claims = s.claims.claimAll added ∧
        AreRuns marks text 0 s.claims added) ∧
      AllTaken marks text 0 (ScanM.endState sweep s).claims := by
  intro marks text s sweep
  have hmarks : ∀ m ∈ marks, m.Compact := by decide
  have hcompletes : ScanM.Completes sweep s := Pass.completes_sweep (fun _ => rfl)
  obtain ⟨hsound, hcomplete⟩ := sweep_claims_runs marks hmarks text 0 ⟨none, none, .code [] marks⟩ s
  exact ⟨hmarks, hcompletes, hsound, hcomplete hcompletes⟩

end CommentTags.LineRun
