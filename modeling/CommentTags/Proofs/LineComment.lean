import CommentTags.Proofs.Scan

/-!
# Which tagged line comments are highlighted

A line comment that starts with a tag is not always highlighted. A run takes in every further line that
starts with its mark, also lines whose own mark is longer, and of those it strips its own mark only. What
is left of the longer mark then stands before the tag and hides it.

## Main definitions

* `LineRun.IsTagged`: a line of the text is a comment that starts with a tag;
* `LineRun.TakenOver`: a run with another mark takes in a position.

## Main results

* `LineRun.takesRun_visits`: under no earlier claims a pass takes whole runs, one after the other;
* `LineRun.scan_highlights_iff`: a tagged comment is highlighted iff no run with another mark takes it in;
* `LineRun.not_scan_highlights`: a comment after `///` is not highlighted when one after `//` stands before
  it.
-/

namespace CommentTags.LineRun

variable {marks : List Mark} {text : Text} {base : Nat} {claims : ClaimSet} {mark : Mark}

/-- Nothing but blanks stands before `i` in its line. -/
def Leads (text : Text) (i : Nat) : Prop :=
  ∃ lineStart, text.startsLine lineStart = true ∧ lineStart ≤ i ∧
    ∀ j, lineStart ≤ j → j < i → text.blankAt j = true

/-- The line of position `i` is a tagged comment: after blanks, the mark that opens a comment at `i`, one
blank and no more, and content that starts with a tag at `content`. -/
structure IsTagged (matchers : Matchers) (marks : List Mark) (text : Text) (i : Nat) (mark : Mark)
    (content : Nat) : Prop where
  opener : IsOpener marks text i mark
  leads : Leads text i
  oneBlank : text.blankAt (i + mark.length) = true
  content_eq : content = i + mark.length + 1
  notBlank : text.blankAt content = false
  nonempty : content < text.trimEnd content (text.lineEnd content)
  tagged : (matchers.tagAt? text content (text.trimEnd content (text.lineEnd content))).isSome = true

/-- A run whose mark is not `mark` takes in position `i`: the claim that holds `i` starts at another
opening mark. -/
def TakenOver (marks : List Mark) (text : Text) (base : Nat) (claims : ClaimSet) (i : Nat)
    (mark : Mark) : Prop :=
  ∃ start other, IsOpener marks text start other ∧ other ≠ mark ∧
    ∃ c ∈ claims.toList, c.start = base + start ∧ c.contains (base + i) = true

/-! ## Lines of a run -/

/-- What stands before `i` and is no blank stands on an earlier line. -/
theorem Leads.lineEnd_lt {i q : Nat} (h : Leads text i) (hq : q < i) (hsize : q ≤ text.size)
    (hblank : text.blankAt q = false) : text.lineEnd q < i := by
  obtain ⟨lineStart, hstarts, hle, hblanks⟩ := h
  have hlt : q < lineStart := by
    refine Nat.lt_of_not_le fun hle' => ?_
    rw [hblanks q hle' hq] at hblank
    cases hblank
  have hfeed : text[lineStart - 1]? = some '\n' := by
    rw [Text.startsLine, Bool.or_eq_true, beq_iff_eq, beq_iff_eq] at hstarts
    exact hstarts.resolve_left (by omega)
  have hend : text.lineEnd q ≤ lineStart - 1 := by
    refine Nat.le_of_not_lt fun hlt' => ?_
    exact Text.freeOfNewlines_lineEnd hsize (lineStart - 1) (by omega) hlt' hfeed
  omega

/-- A mark lies in one line. -/
theorem lineEnd_add_length {p : Nat} (hmark : mark.Compact) (hocc : text.occursAt mark.chars p = true) :
    text.lineEnd (p + mark.length) = text.lineEnd p := by
  have hfit := mark.add_length_le_of_occursAt hocc
  refine Text.lineEnd_eq_of_le (by omega) (by omega) ?_
  refine Nat.le_of_not_lt fun hlt => ?_
  have hnewline : text[text.lineEnd p]? = some '\n' := Text.getElem?_lineEnd (by omega) (by omega)
  exact (hmark.not_blankAt hocc (Text.le_lineEnd text p) hlt).2 hnewline

/-- The first mark of a line is the only one in it that ends by the content after it. -/
theorem Leads.eq_of_line {i q : Nat} {other : Mark} (h : Leads text i) (hmark : mark.Compact)
    (hocc : text.occursAt mark.chars i = true) (hother : other.Compact)
    (hocc' : text.occursAt other.chars q = true) (hq : text.anchored q = true)
    (hend : q + other.length ≤ i + mark.length + 1) (hline : i < text.lineEnd (q + other.length)) :
    q = i := by
  have hlen := other.length_pos
  refine Nat.le_antisymm ?_ ?_
  -- inside the mark and right after it no other mark is anchored
  · refine Nat.le_of_not_lt fun hlt => ?_
    rw [hmark.not_anchored hocc hlt (by omega)] at hq
    cases hq
  -- a mark that stands further left stands on an earlier line
  · refine Nat.le_of_not_lt fun hlt => ?_
    have hfit := other.add_length_le_of_occursAt hocc'
    have hblank := (hother.not_blankAt hocc' (Nat.le_refl q) (by omega)).1
    have hearlier := h.lineEnd_lt hlt (by omega) hblank
    rw [← lineEnd_add_length hother hocc'] at hearlier
    omega

/-- The mark of a further line is anchored. -/
theorem CarriesAt.anchored {eol q : Nat} (h : CarriesAt text mark (eol + 1) q)
    (heol : text[eol]? = some '\n') : text.anchored q = true := by
  have hle := h.le
  rw [Text.anchored_iff_of_pos (by omega)]
  rcases Nat.eq_or_lt_of_le hle with heq | hlt
  -- it stands at the start of the line
  · left
    rw [← heq, Nat.add_sub_cancel]
    exact heol
  · right
    exact h.blanks (q - 1) (by omega) (by omega)

namespace Follows

variable {stop p : Nat} {run : LineRun}

/-- Every line of a run is read from a mark of the run up to where the line ends or is cut. -/
theorem of_mem_lines (h : Follows text base claims mark stop p run) (hreached : Reached text mark stop p)
    (hanchored : text.anchored p = true) {line : CommentLine} (hline : line ∈ run.lines) :
    ∃ q cut, text.occursAt mark.chars q = true ∧ text.anchored q = true ∧ p ≤ q ∧
      q + mark.length ≤ run.stop ∧ q + mark.length ≤ cut ∧ cut ≤ text.lineEnd (q + mark.length) ∧
      line = .ofSegment text afterOneBlank (q + mark.length) cut := by
  induction h with
  | markCut => cases hline
  | @lineCut stop p cut hmark hcut _ _ =>
    rw [List.mem_singleton.1 hline]
    exact ⟨p, cut, hreached.occurs, hanchored, Nat.le_refl p, hmark, hmark, Nat.le_of_lt hcut, rfl⟩
  | @ends stop p eol heol _ _ =>
    subst heol
    have hmark := Text.le_lineEnd text (p + mark.length)
    rw [List.mem_singleton.1 hline]
    exact ⟨p, _, hreached.occurs, hanchored, Nat.le_refl p, hmark, hmark, Nat.le_refl _, rfl⟩
  | @goesOn stop p eol next run heol _ hlt hnext _ hrun ih =>
    have hreached' := hreached.next heol hlt hnext
    have hbounds := (hrun.bounds hreached').1
    subst heol
    have hmark := Text.le_lineEnd text (p + mark.length)
    rcases List.mem_cons.1 hline with rfl | hline
    · refine ⟨p, _, hreached.occurs, hanchored, Nat.le_refl p, ?_, hmark, Nat.le_refl _, rfl⟩
      show p + mark.length ≤ run.stop
      omega
    · have hcarries := carriesAt_of_continuation? hnext hlt
      have hq := hcarries.anchored (hreached.newline rfl hlt)
      obtain ⟨q, cut, hocc, hq, hle, hrest⟩ := ih hreached' hq hline
      have hp := hcarries.le
      exact ⟨q, cut, hocc, hq, by omega, hrest⟩

/-- If no claim reaches beyond its first mark, a run reads the whole of each line that it takes in, from
after its own mark on. -/
theorem mem_lines (h : Follows text base claims mark stop p run) (hreached : Reached text mark stop p)
    (hmark : mark.Compact) (hbefore : ∀ c ∈ claims.toList, c.stop ≤ base + p) {i : Nat}
    (hleads : Leads text i) (hi : text.blankAt i = false) (h₁ : p ≤ i) (h₂ : i < run.stop) :
    text.occursAt mark.chars i = true ∧
      .ofSegment text afterOneBlank (i + mark.length) (text.lineEnd (i + mark.length)) ∈ run.lines := by
  -- beyond the mark, the first line holds no position that leads its line
  have hfirst {stop p : Nat} (hreached : Reached text mark stop p) (hlt : p < i) :
      text.lineEnd (p + mark.length) < i := by
    have hlen := mark.length_pos
    have hfit := hreached.fits
    rw [lineEnd_add_length hmark hreached.occurs]
    exact hleads.lineEnd_lt hlt (by omega)
      (hmark.not_blankAt hreached.occurs (Nat.le_refl p) (by omega)).1
  induction h with
  | @markCut stop p _ =>
    have hle := hreached.stop_le
    simp only at h₂
    omega
  | @lineCut stop p cut hmark' _ _ hcut =>
    -- the claim that cuts the line would reach beyond the mark
    obtain ⟨c, hc, hstart⟩ := hcut
    have hne := ClaimSet.start_lt_stop_of_mem hc
    have hstop := hbefore c hc
    have hlen := mark.length_pos
    omega
  | @ends stop p eol heol _ _ =>
    subst heol
    simp only at h₂
    rcases Nat.eq_or_lt_of_le h₁ with rfl | hlt
    · exact ⟨hreached.occurs, List.mem_singleton_self _⟩
    · have := hfirst hreached hlt
      omega
  | @goesOn stop p eol next run heol _ hlt hnext _ _ ih =>
    have hreached' := hreached.next heol hlt hnext
    have hcarries := carriesAt_of_continuation? hnext hlt
    have hp := Text.le_lineEnd text (p + mark.length)
    subst heol
    rcases Nat.eq_or_lt_of_le h₁ with rfl | hlt'
    · exact ⟨hreached.occurs, List.mem_cons_self⟩
    · have hend := hfirst hreached hlt'
      have hnext' : next ≤ i := by
        refine Nat.le_of_not_lt fun hlt'' => ?_
        rw [hcarries.blanks i hend hlt''] at hi
        cases hi
      have hle := hcarries.le
      obtain ⟨hocc, hmem⟩ := ih hreached' (fun c hc => by have := hbefore c hc; omega) hnext' h₂
      exact ⟨hocc, List.mem_cons_of_mem _ hmem⟩

end Follows

/-! ## The runs of a pass under no earlier claims -/

/-- The comment is the run that starts at an opening mark, and no earlier claim reaches beyond its start. -/
def TakesRun (marks : List Mark) (text : Text) (base : Nat) (claims : ClaimSet) (found : Found) : Prop :=
  ∃ start mark run, IsOpener marks text start mark ∧ (∀ c ∈ claims.toList, c.stop ≤ base + start) ∧
    Follows text base claims mark start start run ∧
    found = ⟨⟨base + start, base + run.stop⟩, run.lines, some mark, max run.resume (start + mark.length)⟩

/-- Where no claim reaches beyond the position it starts from, a pass takes one whole run after the
other. -/
theorem takesRun_visits (marks : List Mark) (text : Text) (base pos : Nat) (claims : ClaimSet)
    (h : ∀ c ∈ claims.toList, c.stop ≤ base + pos) :
    Found.InTurn (TakesRun marks text base) claims ((pass marks text base).visits claims pos) := by
  refine (pass marks text base).inTurn_visits_of_invariant
    (fun claims pos => ∀ c ∈ claims.toList, c.stop ≤ base + pos) ?_ h
  intro claims pos found hinv hnext
  obtain ⟨start, mark, hopener, hpos, -, hcases⟩ := next_eq_some hnext
  have hbefore : ∀ c ∈ claims.toList, c.stop ≤ base + start := fun c hc => by
    have := hinv c hc
    omega
  rcases hcases with ⟨hclaimed, -⟩ | ⟨-, run, hrun, rfl⟩
  -- no claim holds the opening mark
  · obtain ⟨c, hc, hcontains⟩ := ClaimSet.contains_iff.1 hclaimed
    have hstop := hbefore c hc
    rw [Span.contains_iff] at hcontains
    omega
  · refine ⟨⟨start, mark, run, hopener, hbefore, hrun, rfl⟩, fun c hc => ?_⟩
    have hreached : Reached text mark start start :=
      ⟨occursAt_of_markAt? (isOpener_iff.1 hopener).2, .inl rfl⟩
    obtain ⟨hstop, hresume, -, -⟩ := hrun.bounds hreached
    have hle := Nat.le_max_left run.resume (start + mark.length)
    rcases ClaimSet.mem_toList_claim.1 hc with hc | ⟨rfl, -⟩
    · have := hbefore c hc
      simp only
      omega
    · simp only
      omega

/-- Runs that are taken one after the other have no position in common. -/
theorem pairwise_of_takesRun {visits : List Found}
    (h : Found.InTurn (TakesRun marks text base) claims visits) :
    visits.Pairwise fun a b => ∀ p, a.claim.contains p = true → ¬ b.claim.contains p = true := by
  induction visits generalizing claims with
  | nil => exact List.Pairwise.nil
  | cons found rest ih =>
    refine List.Pairwise.cons ?_ (ih h.2)
    intro later hlater p hp hp'
    obtain ⟨spans, start, mark, run, -, hbefore, -, rfl⟩ := h.2.of_mem hlater
    rw [Span.contains_iff] at hp hp'
    -- the first claim is among those from before the later run
    have hstop := hbefore found.claim (ClaimSet.mem_toList_claimAll_of_mem
      (ClaimSet.mem_toList_claim.2 (.inr ⟨rfl, by omega⟩)))
    simp only at hp'
    omega

/-- A position lies in one run at most. -/
theorem eq_of_contains_of_takesRun {visits : List Found}
    (h : Found.InTurn (TakesRun marks text base) claims visits) {a b : Found} (ha : a ∈ visits)
    (hb : b ∈ visits) {p : Nat} (hpa : a.claim.contains p = true) (hpb : b.claim.contains p = true) :
    a = b := by
  by_contra hne
  have : Std.Symm fun a b : Found => ∀ p, a.claim.contains p = true → ¬ b.claim.contains p = true :=
    ⟨fun _ _ h p hb ha => h p ha hb⟩
  exact (pairwise_of_takesRun h).forall ha hb hne p hpa hpb

/-! ## The highlights of a tagged comment -/

variable {matchers : Matchers}

/-- The line that is read after the mark of a tagged comment opens its tag. -/
theorem IsTagged.ofSegment_eq {i content : Nat} (h : IsTagged matchers marks text i mark content) :
    CommentLine.ofSegment text afterOneBlank (i + mark.length) (text.lineEnd (i + mark.length)) =
      ⟨content, text.trimEnd content (text.lineEnd content), 1, true⟩ := by
  have hfit := mark.add_length_le_of_occursAt (occursAt_of_markAt? (isOpener_iff.1 h.opener).2)
  have hmark := Text.le_lineEnd text (i + mark.length)
  have hsize := Text.lineEnd_le hfit
  have hcontent := h.content_eq
  -- the blank is not the end of the line
  have hblank : i + mark.length < text.lineEnd (i + mark.length) := by
    refine Nat.lt_of_le_of_ne hmark fun heq => ?_
    by_cases hlt : text.lineEnd (i + mark.length) < text.size
    · have hnewline := Text.getElem?_lineEnd hfit hlt
      rw [← heq] at hnewline
      exact Text.ne_newline_of_blankAt h.oneBlank hnewline
    · have hnone : text[i + mark.length]? = none := Array.getElem?_eq_none (by omega)
      have hsome := h.oneBlank
      rw [Text.blankAt, hnone] at hsome
      cases hsome
  have hline : text.lineEnd content = text.lineEnd (i + mark.length) :=
    Text.lineEnd_eq_of_le hfit (by omega) (by omega)
  have hskip : text.skipBlanks (i + mark.length) (text.lineEnd (i + mark.length)) = content := by
    rw [Text.skipBlanks_eq_iff hmark]
    refine ⟨by omega, by omega, fun j h₁ h₂ => ?_, fun _ => h.notBlank⟩
    have hj : j = i + mark.length := by omega
    rw [hj]
    exact h.oneBlank
  have hindent : content - (i + mark.length) = 1 := by omega
  rw [CommentLine.ofSegment, hskip, hline, hindent]
  rfl

/-- If a run takes in a tagged comment by the very mark of the comment, it highlights the comment. -/
theorem IsTagged.exists_highlight {i content : Nat} (h : IsTagged matchers marks text i mark content)
    (inlineMark : Option Mark) {lines : List CommentLine}
    (hline : .ofSegment text afterOneBlank (i + mark.length) (text.lineEnd (i + mark.length)) ∈ lines) :
    ∃ hl ∈ highlightsOf text base (matchers.taggedLines text .indented inlineMark none lines),
      hl.span.start = base + content ∧ hl.span.start < hl.span.stop := by
  rw [h.ofSegment_eq] at hline
  obtain ⟨t, ht, hshown⟩ := Matchers.exists_shown_of_tagAt? .indented inlineMark none hline rfl
    h.nonempty h.tagged
  refine ⟨t.highlight text base, mem_highlightsOf_of_mem ht, ?_⟩
  have hlt := h.nonempty
  rw [TaggedLine.highlight, hshown, Span.shift]
  simp only
  omega

/-- What is left of a longer mark hides the tag after it. -/
theorem start_ne_of_shows {i : Nat} (hmark : mark.Compact) (hocc : text.occursAt mark.chars i = true)
    {other : Mark} (hpre : other.chars <+: mark.chars) (hne : other ≠ mark) {cut : Nat}
    (hcut : i + other.length ≤ cut) {t : TaggedLine}
    (h : matchers.Shows text .indented (some other)
      (.ofSegment text afterOneBlank (i + other.length) cut) t) :
    t.shown.start ≠ i + mark.length + 1 := by
  have hlt : other.length < mark.length := by
    refine Nat.lt_of_le_of_ne hpre.length_le fun heq => hne ?_
    cases other
    cases mark
    rw [Mark.mk.injEq]
    exact hpre.eq_of_length heq
  have hrest := (hmark.not_blankAt hocc (p := i + other.length) (by omega) (by omega)).1
  have hskip : text.skipBlanks (i + other.length) cut = i + other.length := by
    rw [Text.skipBlanks_eq_iff hcut]
    exact ⟨Nat.le_refl _, hcut, fun j h₁ h₂ => by omega, fun _ => hrest⟩
  have hline : CommentLine.ofSegment text afterOneBlank (i + other.length) cut =
      ⟨i + other.length, text.trimEnd (i + other.length) cut, 0, false⟩ := by
    rw [CommentLine.ofSegment, hskip, Nat.sub_self]
    rfl
  rw [hline] at h
  cases h with
  -- the line is not indented
  | continued hgoes =>
    obtain ⟨-, hmode | hindent, -⟩ := Matchers.goesOn_iff.1 hgoes
    · cases hmode
    · exact absurd hindent (Nat.not_lt_zero _)
  | head hhead => cases (Matchers.head?_eq_some hhead).1
  | @ownTag tag htag =>
    obtain ⟨-, ⟨hopener, -⟩ | ⟨_, hsome, hinline⟩⟩ := Matchers.lineTag?_eq_some htag
    · cases hopener
    -- the mark before a tag further on would stand after a blank inside the longer mark
    · cases hsome
      obtain ⟨j, length, hj, -, hblank, -, -, -, rfl⟩ := Matchers.inlineTag?_eq_some hinline
      show j + other.length + 1 ≠ i + mark.length + 1
      intro heq
      have hanchored : text.anchored j = true := by
        rw [Text.anchored, hblank, Bool.or_true]
      simp only at hj
      have hpos := other.length_pos
      rw [hmark.not_anchored hocc (by omega) (by omega)] at hanchored
      cases hanchored

/-- Only a run by the very mark of a tagged comment has a highlight that starts with its content. -/
theorem IsTagged.eq_mark_of_highlight (hmarks : ∀ m ∈ marks, m.Compact) {i content : Nat}
    (h : IsTagged matchers marks text i mark content) {start : Nat} {other : Mark} {run : LineRun}
    (hopener : IsOpener marks text start other)
    (hrun : Follows text base claims other start start run) {hl : Highlight}
    (hmem : hl ∈ highlightsOf text base
      (matchers.taggedLines text .indented (some other) none run.lines))
    (hstart : hl.span.start = base + content) (hlt : hl.span.start < hl.span.stop) :
    start ≤ i ∧ i < run.stop ∧ other = mark := by
  obtain ⟨-, hmark⟩ := isOpener_iff.1 h.opener
  obtain ⟨hanchored, hother⟩ := isOpener_iff.1 hopener
  have hcompact := compact_of_markAt? hmarks hmark
  have hcompact' := compact_of_markAt? hmarks hother
  have hreached : Reached text other start start := ⟨occursAt_of_markAt? hother, .inl rfl⟩
  have hlen := other.length_pos
  have hcontent := h.content_eq
  obtain ⟨line, hline, t, hshows, rfl⟩ :=
    exists_of_mem_highlightsOf (Matchers.taggedLines_shows .indented (some other) none run.lines) hmem
  obtain ⟨-, hlo, hhi⟩ := hshows.shownIn
  obtain ⟨q, cut, hocc, hq, hle, hstop, hcut, hcut', rfl⟩ := hrun.of_mem_lines hreached hanchored hline
  have hfit := other.add_length_le_of_occursAt hocc
  have hwithin : (CommentLine.ofSegment text afterOneBlank (q + other.length) cut).Within text
      (q + other.length) cut :=
    CommentLine.within_ofSegment hcut (Nat.le_trans hcut' (Text.lineEnd_le hfit))
      ((Text.freeOfNewlines_lineEnd hfit).mono (Nat.le_refl _) hcut')
  have hshown : t.shown.start = content := by
    have hshift : t.shown.start + base = base + content := hstart
    omega
  have hafter : q + other.length ≤ content := by
    have := hwithin.lo_le
    omega
  have hline' : content < text.lineEnd (q + other.length) := by
    have hspan : t.shown.start + base < t.shown.stop + base := hlt
    have := hwithin.le_hi
    omega
  -- so the line is read from the mark at `i`
  obtain rfl : q = i :=
    h.leads.eq_of_line hcompact (occursAt_of_markAt? hmark) hcompact' hocc hq (by omega) (by omega)
  refine ⟨hle, by omega, ?_⟩
  obtain ⟨mark', hmark', hpre⟩ := exists_prefix_of_occursAt hother hocc
  rw [hmark] at hmark'
  cases hmark'
  by_contra hne
  exact start_ne_of_shows hcompact (occursAt_of_markAt? hmark) hpre hne hcut hshows
    (by rw [hshown, hcontent])

/-- Where there is a tagged comment, there is something to look for. -/
theorem IsTagged.active {text : String} {i content : Nat}
    (h : IsTagged matchers marks (Text.ofString text) i mark content)
    (hshape : matchers.shape = .code [] marks) : (matchers.isInert || text.isEmpty) = false := by
  have htags : (matchers.multiline.isNone && matchers.line.isNone) = false := by
    rw [← Bool.not_eq_true, Bool.and_eq_true, Option.isNone_iff_eq_none, Option.isNone_iff_eq_none]
    rintro ⟨hmultiline, hline⟩
    have htagged := h.tagged
    rw [Matchers.tagAt?, hmultiline, hline] at htagged
    cases htagged
  have hmarks : marks.isEmpty = false := by
    obtain ⟨first, before, after, hmarks, -⟩ := h.opener.matched
    rw [hmarks]
    simp
  have htext : text.isEmpty = false := by
    rw [← Bool.not_eq_true, String.isEmpty_iff]
    rintro rfl
    have hfit := mark.add_length_le_of_occursAt (occursAt_of_markAt? (isOpener_iff.1 h.opener).2)
    have hlen := mark.length_pos
    have hsize : (Text.ofString "").size = 0 := rfl
    omega
  rw [Matchers.isInert, htags, hshape, htext]
  simp [hmarks]

/-- Some run takes in every opening mark. -/
theorem exists_contains_of_isOpener (hmarks : ∀ m ∈ marks, m.Compact) {i : Nat}
    (h : IsOpener marks text i mark) :
    ∃ found ∈ (pass marks text base).visits .empty 0, found.claim.contains (base + i) = true := by
  have hturn := takesRun_visits marks text base 0 .empty (fun c hc => absurd hc List.not_mem_nil)
  have hfound {c : Span} (hc : c ∈ (ClaimSet.empty.claimAll
      (((pass marks text base).visits .empty 0).map Found.claim)).toList) :
      ∃ found ∈ (pass marks text base).visits .empty 0, found.claim = c := by
    rcases ClaimSet.mem_toList_claimAll.1 hc with hc | ⟨hc, -⟩
    · exact absurd hc List.not_mem_nil
    · exact List.mem_map.1 hc
  rcases allTaken_visits hmarks .empty i mark h with hclaimed | ⟨c, hc, hafter, hbefore⟩
  · obtain ⟨c, hc, hcontains⟩ := ClaimSet.contains_iff.1 hclaimed
    obtain ⟨found, hmem, rfl⟩ := hfound hc
    exact ⟨found, hmem, hcontains⟩
  -- no run starts inside a mark
  · obtain ⟨found, hmem, rfl⟩ := hfound hc
    obtain ⟨spans, start, other, run, hopener, -, -, rfl⟩ := hturn.of_mem hmem
    obtain ⟨-, hmark⟩ := isOpener_iff.1 h
    obtain ⟨hanchored, -⟩ := isOpener_iff.1 hopener
    simp only at hafter hbefore
    rw [(compact_of_markAt? hmarks hmark).not_anchored (occursAt_of_markAt? hmark) (by omega)
      (by omega)] at hanchored
    cases hanchored

/-- Whether a position is taken over is decided by the mark of the one run that takes it in. -/
theorem takenOver_iff {visits : List Found} (hturn : Found.InTurn (TakesRun marks text base) .empty visits)
    {found : Found} (hfound : found ∈ visits) {start i : Nat} {other : Mark}
    (hopener : IsOpener marks text start other) (hstart : found.claim.start = base + start)
    (hcontains : found.claim.contains (base + i) = true) :
    TakenOver marks text base (ClaimSet.empty.claimAll (Found.claimed visits)) i mark ↔ other ≠ mark := by
  constructor
  · rintro ⟨start', other', hopener', hne, c, hc, hcstart, hcontains'⟩
    obtain ⟨hnone, -⟩ | ⟨hc, -⟩ := ClaimSet.mem_toList_claimAll.1 hc
    obtain ⟨⟨found', hfound', rfl⟩, -⟩ := Found.mem_claimed.1 hc
    have hsame := eq_of_contains_of_takesRun hturn hfound hfound' hcontains hcontains'
    rw [← hsame, hstart] at hcstart
    obtain rfl : start = start' := Nat.add_left_cancel hcstart
    rw [hopener.unique hopener']
    exact hne
  · intro hne
    have hlt : found.claim.start < found.claim.stop := by
      rw [Span.contains_iff] at hcontains
      omega
    refine ⟨start, other, hopener, hne, found.claim, ?_, hstart, hcontains⟩
    exact ClaimSet.mem_toList_claimAll.2
      (.inr ⟨Found.mem_claimed.2 ⟨⟨found, hfound, rfl⟩, hlt⟩, hlt⟩)

/-! ## A whole scan -/

variable {σ : Type} [Checkpoint σ]

/-- In source code with line comments only, and no earlier claims, a tagged comment is highlighted from its
content on iff no run that opened with another mark takes it in. -/
theorem scan_highlights_iff (hσ : ∀ c : σ, (Checkpoint.consult c).1 = true) {marks : List Mark}
    (hmarks : ∀ m ∈ marks, m.Compact) {matchers : Matchers} (hshape : matchers.shape = .code [] marks)
    (text : String) (offset : Nat) (checkpoint : σ) {i content : Nat} {mark : Mark}
    (h : IsTagged matchers marks (Text.ofString text) i mark content) :
    let scanned := matchers.scan text offset .empty checkpoint
    ∃ ranges, scanned.result = .ok ranges ∧
      ((∃ hl ∈ ranges.flat, hl.span.start = offset + content) ↔
        ¬ TakenOver marks (Text.ofString text) offset scanned.claims i mark) := by
  intro scanned
  obtain ⟨ranges, hresult⟩ := Matchers.scan_completes hσ matchers text offset .empty checkpoint
  refine ⟨ranges, hresult, ?_⟩
  obtain ⟨hclaims, rfl⟩ := Matchers.scan_code_ok hshape (h.active hshape) hresult
  have hvisits : visitsOf (codePasses [] marks (Text.ofString text) offset) .empty =
      (pass marks (Text.ofString text) offset).visits .empty 0 := List.append_nil _
  rw [hvisits] at hclaims ⊢
  have hturn := takesRun_visits marks (Text.ofString text) offset 0 .empty
    (fun c hc => absurd hc List.not_mem_nil)
  -- the run that takes the comment in
  obtain ⟨found, hfound, hcontains⟩ := exists_contains_of_isOpener hmarks h.opener
  obtain ⟨spans, start, other, run, hopener, hbefore, hrun, rfl⟩ := hturn.of_mem hfound
  dsimp only [scanned]
  rw [hclaims, takenOver_iff hturn hfound hopener rfl hcontains, ne_eq, not_not]
  constructor
  · rintro ⟨hl, hmem, hstart⟩
    -- the run that shows the highlight takes the comment in, so it is the same run
    obtain ⟨hl', hmem', hlt, -, hspan⟩ := TagRanges.mem_flat_collect.1 hmem
    rw [← hspan] at hstart
    obtain ⟨found', hfound', hshown⟩ := List.mem_flatMap.1 hmem'
    obtain ⟨spans', start', other', run', hopener', -, hrun', rfl⟩ := hturn.of_mem hfound'
    obtain ⟨hle, hi, rfl⟩ := h.eq_mark_of_highlight hmarks hopener' hrun' hshown hstart hlt
    have hcontains' : (⟨offset + start', offset + run'.stop⟩ : Span).contains (offset + i) = true :=
      Span.contains_iff.2 ⟨Nat.add_le_add_left hle offset, Nat.add_lt_add_left hi offset⟩
    have hsame := eq_of_contains_of_takesRun hturn hfound hfound' hcontains hcontains'
    exact Option.some.inj (congrArg Found.inlineMark hsame)
  · rintro rfl
    have hmark := (isOpener_iff.1 h.opener).2
    have hcompact := compact_of_markAt? hmarks hmark
    obtain ⟨hlo, hhi⟩ := Span.contains_iff.1 hcontains
    obtain ⟨-, hline⟩ := hrun.mem_lines ⟨occursAt_of_markAt? (isOpener_iff.1 hopener).2, .inl rfl⟩ hcompact
      hbefore h.leads (hcompact.not_blankAt (occursAt_of_markAt? hmark) (Nat.le_refl i)
        (Nat.lt_add_of_pos_right other.length_pos)).1 (Nat.le_of_add_le_add_left hlo)
      (Nat.lt_of_add_lt_add_left hhi)
    obtain ⟨hl, hmem, hstart, hlt⟩ := h.exists_highlight (some other) hline
    refine ⟨⟨Unicode.lowercase hl.tag, hl.span⟩, TagRanges.mem_flat_collect.2 ⟨hl, ?_, hlt, rfl, rfl⟩,
      hstart⟩
    exact List.mem_flatMap.2 ⟨_, hfound, hmem⟩

/-- A comment after `///` below an empty line: the hypotheses hold, and so does what follows from them. -/
theorem scan_highlights_iff_below_empty_line :
    let marks : List Mark := [⟨['/', '/'], by decide⟩]
    let mark : Mark := ⟨['/', '/', '/'], by decide⟩
    let matchers : Matchers := ⟨none, some ⟨"^(?:!)", [['!']]⟩, .code [] marks⟩
    let scanned := matchers.scan "//\n\n/// !" 0 .empty Unlimited.mk
    (∀ m ∈ marks, m.Compact) ∧ IsTagged matchers marks (Text.ofString "//\n\n/// !") 4 mark 8 ∧
      ∃ ranges, scanned.result = .ok ranges ∧
        ((∃ hl ∈ ranges.flat, hl.span.start = 0 + 8) ↔
          ¬ TakenOver marks (Text.ofString "//\n\n/// !") 0 scanned.claims 4 mark) := by
  intro marks mark matchers scanned
  have hmarks : ∀ m ∈ marks, m.Compact := by decide
  have htagged : IsTagged matchers marks (Text.ofString "//\n\n/// !") 4 mark 8 := by
    refine ⟨isOpener_iff.2 ⟨by decide +kernel, ?_⟩,
      ⟨4, by decide +kernel, Nat.le_refl _, fun j h₁ h₂ => by omega⟩, by decide +kernel, rfl,
      by decide +kernel, by decide +kernel, ?_⟩
    · dsimp only [marks, mark]
      decide +kernel
    · dsimp only [matchers, marks]
      decide +kernel
  exact ⟨hmarks, htagged, scan_highlights_iff (fun _ => rfl) hmarks rfl _ 0 Unlimited.mk htagged⟩

/-- Below another comment it is not highlighted: the run of `//` goes on over it and leaves `/ !` to be
read. -/
theorem not_scan_highlights :
    let marks : List Mark := [⟨['/', '/'], by decide⟩]
    let mark : Mark := ⟨['/', '/', '/'], by decide⟩
    let matchers : Matchers := ⟨none, some ⟨"^(?:!)", [['!']]⟩, .code [] marks⟩
    (∀ m ∈ marks, m.Compact) ∧ IsTagged matchers marks (Text.ofString "//\n/// !") 3 mark 7 ∧
      ∃ ranges, (matchers.scan "//\n/// !" 0 .empty Unlimited.mk).result = .ok ranges ∧
        ¬ ∃ hl ∈ ranges.flat, hl.span.start = 7 := by
  intro marks mark matchers
  have htagged : IsTagged matchers marks (Text.ofString "//\n/// !") 3 mark 7 := by
    refine ⟨isOpener_iff.2 ⟨by decide +kernel, ?_⟩,
      ⟨3, by decide +kernel, Nat.le_refl _, fun j h₁ h₂ => by omega⟩, by decide +kernel, rfl,
      by decide +kernel, by decide +kernel, ?_⟩
    · dsimp only [marks, mark]
      decide +kernel
    · dsimp only [matchers, marks]
      decide +kernel
  have heval : (matchers.scan "//\n/// !" 0 .empty Unlimited.mk).result.toOption.map TagRanges.flat =
      some [] := by
    dsimp only [matchers, marks]
    decide +kernel
  refine ⟨by decide, htagged, ?_⟩
  cases hresult : (matchers.scan "//\n/// !" 0 .empty Unlimited.mk).result with
  | error e =>
    rw [hresult] at heval
    cases heval
  | ok ranges =>
    rw [hresult] at heval
    refine ⟨ranges, rfl, ?_⟩
    rintro ⟨hl, hmem, -⟩
    rw [Option.some.inj heval] at hmem
    exact List.not_mem_nil hmem

end CommentTags.LineRun
