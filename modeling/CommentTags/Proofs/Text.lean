import CommentTags.Scan.Anchor

/-!
# What the questions about a text answer

The searches of `Text` are bounded loops. This module says what they find, in terms of the characters
of the text alone.

## Main definitions

* `Text.FreeOfNewlines`: a part of the text lies within one line;
* `Text.anchored`: a position is the start of a line or follows a blank.

## Main results

* `Text.occursAt_iff` and `Text.find?_eq_some_iff`: where a literal stands;
* `Text.lineEnd_eq_iff` and `Text.skipBlanks_eq_iff`: where a line ends and where its content starts;
* `Text.not_isWhiteSpace_of_lt_trimEnd`: trimmed content does not end with white space;
* `Text.segments_spec`: segments are parts of lines, one after the other.
-/

namespace CommentTags

/-- A search that answers the end of its interval when nothing is found stops at the first number that
satisfies `p`, or at the end. -/
theorem firstFrom_getD_eq_iff {p : Nat → Bool} {start stop e : Nat} (h : start ≤ stop) :
    (firstFrom p start (stop - start)).getD stop = e ↔
      start ≤ e ∧ e ≤ stop ∧ (∀ j, start ≤ j → j < e → p j = false) ∧ (e < stop → p e = true) := by
  cases hf : firstFrom p start (stop - start) with
  -- nothing is found, and the search answers the end of the interval
  | none =>
    rw [firstFrom_eq_none_iff] at hf
    rw [Option.getD_none]
    constructor
    · rintro rfl
      exact ⟨h, Nat.le_refl _, fun j h₁ h₂ => hf j h₁ (by omega), fun hlt => by omega⟩
    · rintro ⟨h₁, h₂, -, hp⟩
      refine Nat.le_antisymm ?_ h₂
      refine Nat.le_of_not_lt fun hlt => ?_
      rw [hf e h₁ (by omega)] at hp
      exact Bool.false_ne_true (hp hlt)
  | some i =>
    rw [firstFrom_eq_some_iff] at hf
    obtain ⟨⟨h₁, h₂⟩, hi, hmin⟩ := hf
    rw [Option.getD_some]
    constructor
    · rintro rfl
      exact ⟨h₁, by omega, hmin, fun _ => hi⟩
    · rintro ⟨h₃, h₄, hmin', hp⟩
      rcases Nat.lt_trichotomy i e with hlt | rfl | hlt
      · rw [hmin' i h₁ hlt] at hi
        cases hi
      · rfl
      · rw [hmin e h₃ hlt] at hp
        exact absurd (hp (by omega)) Bool.false_ne_true

namespace Text

variable {text : Text}

/-- No line feed stands in `start ≤ p < stop`. -/
def FreeOfNewlines (text : Text) (start stop : Nat) : Prop :=
  ∀ p, start ≤ p → p < stop → text[p]? ≠ some '\n'

/-- Position `i` starts a line or follows a blank. -/
def anchored (text : Text) (i : Nat) : Bool :=
  text.startsLine i || text.followsBlank i

theorem FreeOfNewlines.mono {start stop start' stop' : Nat} (h : text.FreeOfNewlines start stop)
    (h₁ : start ≤ start') (h₂ : stop' ≤ stop) : text.FreeOfNewlines start' stop' :=
  fun p hp hp' => h p (by omega) (by omega)

/-! ## Literals -/

/-- A literal stands at `i` iff each of its characters stands in its place. -/
theorem occursAt_iff {literal : List Char} {i : Nat} :
    text.occursAt literal i = true ↔
      ∀ k c, literal[k]? = some c → text[i + k]? = some c := by
  induction literal generalizing i with
  | nil => simp [occursAt]
  | cons d rest ih =>
    rw [occursAt, Bool.and_eq_true, beq_iff_eq, ih]
    constructor
    · rintro ⟨hd, hrest⟩ k c hk
      cases k with
      | zero =>
        rw [List.getElem?_cons_zero] at hk
        rw [Nat.add_zero, hd, hk]
      | succ k =>
        rw [List.getElem?_cons_succ] at hk
        rw [← hrest k c hk, Nat.add_right_comm, Nat.add_assoc]
    · intro h
      refine ⟨h 0 d rfl, fun k c hk => ?_⟩
      rw [← h (k + 1) c hk, Nat.add_right_comm, Nat.add_assoc]

/-- The character at a place of a literal that stands at `i`. -/
theorem getElem?_of_occursAt {literal : List Char} {i p : Nat}
    (h : text.occursAt literal i = true) (h₁ : i ≤ p) (h₂ : p < i + literal.length) :
    text[p]? = literal[p - i]? := by
  have hlt : p - i < literal.length := by omega
  rw [List.getElem?_eq_getElem hlt]
  rw [← occursAt_iff.1 h (p - i) literal[p - i] (List.getElem?_eq_getElem hlt)]
  congr 1
  omega

/-- A literal put together from two stands at `i` iff both stand, one after the other. -/
theorem occursAt_append {first second : List Char} {i : Nat} :
    text.occursAt (first ++ second) i = true ↔
      text.occursAt first i = true ∧ text.occursAt second (i + first.length) = true := by
  induction first generalizing i with
  | nil => simp [occursAt]
  | cons c rest ih =>
    have hlen : i + 1 + rest.length = i + (c :: rest).length := by
      rw [List.length_cons]
      omega
    rw [List.cons_append, occursAt, occursAt, Bool.and_eq_true, Bool.and_eq_true, ih, hlen, and_assoc]

/-- Of two literals that stand at one position the one that is no longer starts the other. -/
theorem prefix_of_occursAt {first second : List Char} {i : Nat}
    (h₁ : text.occursAt first i = true) (h₂ : text.occursAt second i = true)
    (hle : first.length ≤ second.length) : first <+: second := by
  rw [List.prefix_iff_eq_take]
  apply List.ext_getElem?
  intro k
  rcases Nat.lt_or_ge k first.length with hk | hk
  · rw [List.getElem?_take_of_lt hk, List.getElem?_eq_getElem hk,
      List.getElem?_eq_getElem (by omega : k < second.length)]
    -- both literals have the character that the text has in this place
    have hc := occursAt_iff.1 h₁ k _ (List.getElem?_eq_getElem hk)
    have hd := occursAt_iff.1 h₂ k _ (List.getElem?_eq_getElem (by omega : k < second.length))
    rw [← hc, hd]
  · rw [List.getElem?_eq_none hk, List.getElem?_eq_none (by rw [List.length_take]; omega)]

/-- A literal that starts one that stands at `i` stands there too. -/
theorem occursAt_of_prefix {first second : List Char} {i : Nat} (h : first <+: second)
    (hocc : text.occursAt second i = true) : text.occursAt first i = true := by
  obtain ⟨rest, rfl⟩ := h
  exact (occursAt_append.1 hocc).1

/-- The search for a literal finds its first occurrence that ends by `stop`. -/
theorem find?_eq_some_iff {literal : List Char} {start stop i : Nat} :
    text.find? literal start stop = some i ↔
      (start ≤ i ∧ i + literal.length ≤ stop ∧ text.occursAt literal i = true) ∧
        ∀ j, start ≤ j → j < i → text.occursAt literal j = false := by
  rw [find?, firstFrom_eq_some_iff]
  simp only [Bool.and_eq_true, decide_eq_true_eq, Bool.and_eq_false_iff, decide_eq_false_iff_not]
  constructor
  · rintro ⟨⟨h₁, h₂⟩, ⟨hfit, hocc⟩, hmin⟩
    -- an earlier occurrence would end by `stop`, too
    refine ⟨⟨h₁, hfit, hocc⟩, fun j hj hji => ?_⟩
    exact (hmin j hj hji).resolve_left (by omega)
  · rintro ⟨⟨h₁, hfit, hocc⟩, hmin⟩
    exact ⟨⟨h₁, by omega⟩, ⟨hfit, hocc⟩, fun j hj hji => .inr (hmin j hj hji)⟩

/-- The search for a literal fails iff no occurrence from `start` on ends by `stop`. -/
theorem find?_eq_none_iff {literal : List Char} {start stop : Nat} :
    text.find? literal start stop = none ↔
      ∀ j, start ≤ j → j + literal.length ≤ stop → text.occursAt literal j = false := by
  rw [find?, firstFrom_eq_none_iff]
  simp only [Bool.and_eq_false_iff, decide_eq_false_iff_not]
  constructor
  · intro h j hj hfit
    exact (h j hj (by omega)).resolve_left (by omega)
  · intro h j hj _
    by_cases hfit : j + literal.length ≤ stop
    · exact .inr (h j hj hfit)
    · exact .inl hfit

/-! ## Lines and blanks -/

/-- A line ends at the first line feed, or at the end of the text. -/
theorem lineEnd_eq_iff {i e : Nat} (h : i ≤ text.size) :
    text.lineEnd i = e ↔
      i ≤ e ∧ e ≤ text.size ∧ text.FreeOfNewlines i e ∧ (e < text.size → text[e]? = some '\n') := by
  rw [lineEnd, Nat.max_eq_right h, firstFrom_getD_eq_iff h]
  simp only [beq_iff_eq, beq_eq_false_iff_ne, FreeOfNewlines]

/-- Up to the end of a line there is no line feed. -/
theorem freeOfNewlines_lineEnd {i : Nat} (h : i ≤ text.size) :
    text.FreeOfNewlines i (text.lineEnd i) :=
  ((lineEnd_eq_iff h).1 rfl).2.2.1

/-- A line that does not end with the text ends at a line feed. -/
theorem getElem?_lineEnd {i : Nat} (h : i ≤ text.size) (hlt : text.lineEnd i < text.size) :
    text[text.lineEnd i]? = some '\n' :=
  ((lineEnd_eq_iff h).1 rfl).2.2.2 hlt

/-- All positions of a line have the same end of line. -/
theorem lineEnd_eq_of_le {i j : Nat} (h : i ≤ text.size) (hij : i ≤ j) (hj : j ≤ text.lineEnd i) :
    text.lineEnd j = text.lineEnd i := by
  obtain ⟨-, hsize, hfree, hend⟩ := (lineEnd_eq_iff h).1 rfl
  rw [lineEnd_eq_iff (by omega)]
  exact ⟨hj, hsize, hfree.mono hij (Nat.le_refl _), hend⟩

/-- Skipping blanks stops at the first character that is no blank, or at the end. -/
theorem skipBlanks_eq_iff {start stop e : Nat} (h : start ≤ stop) :
    text.skipBlanks start stop = e ↔
      start ≤ e ∧ e ≤ stop ∧ (∀ j, start ≤ j → j < e → text.blankAt j = true) ∧
        (e < stop → text.blankAt e = false) := by
  rw [skipBlanks, firstFrom_getD_eq_iff h]
  simp only [Bool.not_eq_true', Bool.not_eq_false']

/-- What is skipped are blanks. -/
theorem blankAt_of_lt_skipBlanks {start stop j : Nat} (h : start ≤ stop) (h₁ : start ≤ j)
    (h₂ : j < text.skipBlanks start stop) : text.blankAt j = true :=
  ((skipBlanks_eq_iff h).1 rfl).2.2.1 j h₁ h₂

/-- Skipping a character stops at the first other one, or at the end. -/
theorem skipChar_eq_iff {c : Char} {start stop e : Nat} (h : start ≤ stop) :
    text.skipChar c start stop = e ↔
      start ≤ e ∧ e ≤ stop ∧ (∀ j, start ≤ j → j < e → text[j]? = some c) ∧
        (e < stop → text[e]? ≠ some c) := by
  rw [skipChar, firstFrom_getD_eq_iff h]
  simp only [bne_eq_false_iff_eq, bne_iff_ne]

/-- A blank is not a line feed. -/
theorem ne_newline_of_blankAt {i : Nat} (h : text.blankAt i = true) : text[i]? ≠ some '\n' := by
  intro hn
  rw [blankAt, hn] at h
  exact absurd h (by decide)

/-! ## Segments -/

/-- The line feeds of a part of the text come in ascending order, and none is left out. -/
theorem mem_lineFeeds {start stop i : Nat} :
    i ∈ text.lineFeeds start stop ↔ start ≤ i ∧ i < stop ∧ text[i]? = some '\n' := by
  rw [lineFeeds, List.mem_filter, List.mem_range'_1, beq_iff_eq]
  constructor
  · rintro ⟨⟨h₁, h₂⟩, hi⟩
    exact ⟨h₁, by omega, hi⟩
  · rintro ⟨h₁, h₂, hi⟩
    exact ⟨⟨h₁, by omega⟩, hi⟩

/-- Cutting at ascending positions, among them all line feeds, gives parts of lines, one after the
other. -/
private theorem cut_at_sound {feeds : List Nat} {start stop : Nat} (h : start ≤ stop)
    (hsorted : feeds.Pairwise (· < ·)) (hin : ∀ i ∈ feeds, start ≤ i ∧ i < stop)
    (hall : ∀ i, start ≤ i → i < stop → text[i]? = some '\n' → i ∈ feeds) :
    (∀ seg ∈ (start :: feeds.map (· + 1)).zip (feeds ++ [stop]),
      start ≤ seg.1 ∧ seg.1 ≤ seg.2 ∧ seg.2 ≤ stop ∧ text.FreeOfNewlines seg.1 seg.2) ∧
    ((start :: feeds.map (· + 1)).zip (feeds ++ [stop])).Pairwise fun a b => a.2 < b.1 := by
  induction feeds generalizing start with
  | nil =>
    simp only [List.map_nil, List.nil_append, List.zip_cons_cons, List.zip_nil_right,
      List.mem_singleton, forall_eq, List.pairwise_singleton, and_true]
    exact ⟨Nat.le_refl _, h, Nat.le_refl _, fun p h₁ h₂ hp => absurd (hall p h₁ h₂ hp) (by simp)⟩
  | cons feed feeds ih =>
    rw [List.pairwise_cons] at hsorted
    have hfeed := hin feed (by simp)
    have hrest := @ih (feed + 1) (by omega) hsorted.2
      (fun i hi => ⟨hsorted.1 i hi, (hin i (List.mem_cons_of_mem _ hi)).2⟩)
      (fun i h₁ h₂ hi => (List.mem_cons.1 (hall i (by omega) h₂ hi)).resolve_left (by omega))
    rw [List.map_cons, List.cons_append, List.zip_cons_cons]
    constructor
    · intro seg hseg
      rcases List.mem_cons.1 hseg with rfl | hseg
      · refine ⟨Nat.le_refl _, hfeed.1, Nat.le_of_lt hfeed.2, fun p h₁ h₂ hp => ?_⟩
        -- a line feed before the first cut would be a cut itself
        rcases List.mem_cons.1 (hall p h₁ (by omega) hp) with rfl | hp
        · exact Nat.lt_irrefl _ h₂
        · exact Nat.lt_asymm h₂ (hsorted.1 p hp)
      · obtain ⟨h₁, h₂⟩ := hrest.1 seg hseg
        exact ⟨by omega, h₂⟩
    · rw [List.pairwise_cons]
      exact ⟨fun seg hseg => (hrest.1 seg hseg).1, hrest.2⟩

/-- Segments are parts of lines, one after the other and at least a line feed apart. -/
theorem segments_spec {start stop : Nat} (h : start ≤ stop) :
    (∀ seg ∈ text.segments start stop,
      start ≤ seg.1 ∧ seg.1 ≤ seg.2 ∧ seg.2 ≤ stop ∧ text.FreeOfNewlines seg.1 seg.2) ∧
    (text.segments start stop).Pairwise fun a b => a.2 < b.1 := by
  refine cut_at_sound h ?_ (fun i hi => ?_) fun i h₁ h₂ hi => ?_
  · exact List.Pairwise.filter _ List.pairwise_lt_range'
  · rw [mem_lineFeeds] at hi
    exact ⟨hi.1, hi.2.1⟩
  · exact mem_lineFeeds.2 ⟨h₁, h₂, hi⟩

/-! ## Trimmed ends -/

/-- Dropping characters at the end does not go beyond either end. -/
theorem dropEndWhile_bounds {p : Char → Bool} {start stop : Nat} (h : start ≤ stop) :
    start ≤ text.dropEndWhile p start stop ∧ text.dropEndWhile p start stop ≤ stop := by
  induction stop with
  | zero => exact ⟨h, Nat.le_refl _⟩
  | succ stop ih =>
    rw [dropEndWhile]
    split
    -- the last character is dropped
    · next hcond =>
      rw [Bool.and_eq_true, decide_eq_true_eq] at hcond
      have := ih hcond.1
      omega
    · exact ⟨h, Nat.le_refl _⟩

/-- The last character that is left does not satisfy the predicate. -/
theorem not_any_of_lt_dropEndWhile {p : Char → Bool} {start stop : Nat}
    (h : start < text.dropEndWhile p start stop) :
    text[text.dropEndWhile p start stop - 1]?.any p = false := by
  induction stop with
  | zero => exact absurd h (Nat.not_lt_zero _)
  | succ stop ih =>
    rw [dropEndWhile] at h ⊢
    split
    · next hcond =>
      rw [if_pos hcond] at h
      exact ih h
    · next hcond =>
      rw [if_neg hcond] at h
      rw [Bool.and_eq_true, decide_eq_true_eq, not_and, Bool.not_eq_true] at hcond
      exact hcond (by omega)

/-- Trimmed content that is not empty does not end with white space. -/
theorem not_isWhiteSpace_of_lt_trimEnd {start stop : Nat} (hstop : stop ≤ text.size)
    (h : start < text.trimEnd start stop) :
    ∃ c, text[text.trimEnd start stop - 1]? = some c ∧ Unicode.isWhiteSpace c = false := by
  -- trimming does not go beyond the end, so the interval is not empty
  have hle : start ≤ stop := by
    refine Nat.le_of_not_lt fun hlt => ?_
    cases stop with
    | zero => exact absurd h (Nat.not_lt_zero _)
    | succ stop =>
      rw [trimEnd, dropEndWhile, if_neg (by simp; omega)] at h
      omega
  have hbounds : text.trimEnd start stop ≤ stop := (dropEndWhile_bounds hle).2
  have hlt : text.trimEnd start stop - 1 < text.size := by omega
  have hany := not_any_of_lt_dropEndWhile h
  refine ⟨text[text.trimEnd start stop - 1], Array.getElem?_eq_getElem hlt, ?_⟩
  rw [← trimEnd, Array.getElem?_eq_getElem hlt, Option.any_some] at hany
  exact hany

end Text

end CommentTags
