import CommentTags.Proofs.Checked.Scan
import CommentTags.Proofs.NormalRanges
import CommentTags.Proofs.Plan

/-!
# A scan elsewhere in its document

Comments are looked for in the text alone; its place in the document and the earlier claims only come in when
a scan asks which part of the text is claimed. So a scan of the same text at another place, with claims that
lie to it as before, does the same at that place. Claims that do not reach into the text do not matter.

## Main definitions

* `ClaimSet.shift`: the claims some offsets further on;
* `ClaimSet.SeenAlike`: within a part of a document the claims are those of another part;
* `ScanAction.shift`: the action some offsets further on;
* `ScanAction.Alike`: an action does elsewhere what another one does here.

## Main results

* `Matchers.planText_shift`: the plan of a scan elsewhere is the plan moved there;
* `Matchers.scan_shift`: a scan elsewhere, by characters or by bytes, finds and claims the same there;
* `Matchers.scan_claimAll_outside`: claims outside the text change neither what is found nor what is claimed.
-/

namespace CommentTags

/-! ## Claims elsewhere -/

namespace ClaimSet

/-- The claims `k` offsets further on. -/
def shift (set : ClaimSet) (k : Nat) : ClaimSet :=
  ofList (set.toList.map (·.shift k))

/-- Claims are determined by the claimed spans, in whatever order. -/
theorem eq_of_toList_perm {set other : ClaimSet} (h : set.toList.Perm other.toList) : set = other :=
  ext_toList (h.eq_of_pairwise (fun _ _ _ _ => Span.le_antisymm) pairwise_toList pairwise_toList)

/-- No claimed span is left out as empty. -/
theorem filter_toList (set : ClaimSet) : set.toList.filter (!·.isEmpty) = set.toList := by
  rw [List.filter_eq_self]
  intro span hspan
  rw [Bool.not_eq_true', ← Bool.not_eq_true, Span.isEmpty_iff, Nat.not_le]
  exact start_lt_stop_of_mem hspan

/-- The claims of the claimed spans are the claims. -/
theorem claimAll_toList (set : ClaimSet) : empty.claimAll set.toList = set := by
  refine eq_of_toList_perm (toList_claimAll_perm.trans ?_)
  rw [filter_toList, toList_empty, List.nil_append]

/-- The claims after several spans are those from before and those of the spans alone. -/
theorem claimAll_toList_claimAll (set : ClaimSet) (spans : List Span) :
    set.claimAll (empty.claimAll spans).toList = set.claimAll spans := by
  have halone : (empty.claimAll spans).toList.Perm (spans.filter (!·.isEmpty)) := toList_claimAll_perm
  refine eq_of_toList_perm (toList_claimAll_perm.trans (.trans ?_ toList_claimAll_perm.symm))
  rw [filter_toList]
  exact halone.append_left _

/-- Claims that are moved are not empty. -/
private theorem filter_shift (spans : List Span) (k : Nat) :
    (spans.map (·.shift k)).filter (!·.isEmpty) = (spans.filter (!·.isEmpty)).map (·.shift k) := by
  have hempty (span : Span) : (span.shift k).isEmpty = span.isEmpty := by
    rw [Bool.eq_iff_iff, Span.isEmpty_iff, Span.isEmpty_iff, Span.shift]
    dsimp only
    omega
  rw [List.filter_map]
  exact congrArg _ (List.filter_congr fun span _ => congrArg _ (hempty span))

@[simp]
theorem toList_shift (set : ClaimSet) (k : Nat) :
    (set.shift k).toList = set.toList.map (·.shift k) := by
  have hperm : (set.shift k).toList.Perm (set.toList.map (·.shift k)) := by
    rw [shift, ofList]
    refine toList_claimAll_perm.trans ?_
    rw [toList_empty, List.nil_append, filter_shift, filter_toList]
  have hsorted : (set.toList.map (·.shift k)).Pairwise fun a b => a ≤ b :=
    set.pairwise_toList.map _ fun a b hab => by
      rw [Span.le_iff, Span.shift, Span.shift] at *
      dsimp only
      omega
  exact hperm.eq_of_pairwise (fun _ _ _ _ => Span.le_antisymm) pairwise_toList hsorted

theorem mem_toList_shift {set : ClaimSet} {k : Nat} {span : Span} :
    span ∈ (set.shift k).toList ↔ ∃ s ∈ set.toList, s.shift k = span := by
  rw [toList_shift, List.mem_map]

/-- To claim spans and move all claims is to move the claims and claim the spans there. -/
theorem shift_claimAll (set : ClaimSet) (spans : List Span) (k : Nat) :
    (set.claimAll spans).shift k = (set.shift k).claimAll (spans.map (·.shift k)) := by
  refine eq_of_toList_perm ?_
  rw [toList_shift]
  refine (toList_claimAll_perm.map _).trans ?_
  refine List.Perm.trans ?_ toList_claimAll_perm.symm
  rw [List.map_append, filter_shift, toList_shift]

/-- If the claims that start within two intervals correspond, so do the first of them. -/
theorem firstStartWithin_eq_map {set other : ClaimSet} {place : Nat → Nat} (hplace : StrictMono place)
    {after before after' before' : Nat}
    (hkept : ∀ s ∈ set.toList, after < s.start → s.start < before →
      after' < place s.start ∧ place s.start < before' ∧ ∃ t ∈ other.toList, t.start = place s.start)
    (hreal : ∀ t ∈ other.toList, after' < t.start → t.start < before' →
      ∃ s ∈ set.toList, t.start = place s.start ∧ after < s.start ∧ s.start < before) :
    other.firstStartWithin after' before' = (set.firstStartWithin after before).map place := by
  cases hc : set.firstStartWithin after before with
  | none =>
    rw [firstStartWithin_eq_none_iff] at hc
    rw [Option.map_none, firstStartWithin_eq_none_iff]
    rintro ⟨t, ht, hafter, hbefore⟩
    obtain ⟨s, hs, -, hwithin⟩ := hreal t ht hafter hbefore
    exact hc ⟨s, hs, hwithin⟩
  | some c =>
    obtain ⟨hafter, hbefore, ⟨s, hs, rfl⟩, hmin⟩ := firstStartWithin_eq_some hc
    obtain ⟨hafter', hbefore', t, ht, hstart⟩ := hkept s hs hafter hbefore
    rw [← hstart] at hafter' hbefore'
    cases hd : other.firstStartWithin after' before' with
    | none =>
      rw [firstStartWithin_eq_none_iff] at hd
      exact absurd ⟨t, ht, hafter', hbefore'⟩ hd
    | some d =>
      obtain ⟨hafter'', hbefore'', ⟨u, hu, rfl⟩, hmin'⟩ := firstStartWithin_eq_some hd
      -- each of the two starts no later than the other
      have hle : u.start ≤ t.start := hmin' t ht hafter'
      obtain ⟨v, hv, hplaced, hlt, -⟩ := hreal u hu hafter'' hbefore''
      have hle' : place s.start ≤ place v.start := hplace.monotone (hmin v hv hlt)
      rw [Option.map_some, Option.some.injEq]
      omega

/-- The claims of `other` that reach into the interval from `lo + k` to `hi + k` are the claims of `set` that
reach into the interval from `lo` to `hi`, `k` offsets further on. -/
structure SeenAlike (lo hi k : Nat) (set other : ClaimSet) : Prop where
  kept : ∀ s ∈ set.toList, s.start < hi → lo < s.stop → s.shift k ∈ other.toList
  real : ∀ t ∈ other.toList, t.start < hi + k → lo + k < t.stop → ∃ s ∈ set.toList, t = s.shift k

/-- Claims that are moved are seen alike everywhere. -/
theorem seenAlike_shift (set : ClaimSet) (lo hi k : Nat) : SeenAlike lo hi k set (set.shift k) where
  kept s hs _ _ := mem_toList_shift.2 ⟨s, hs, rfl⟩
  real t ht _ _ := by
    obtain ⟨s, hs, heq⟩ := mem_toList_shift.1 ht
    exact ⟨s, hs, heq.symm⟩

/-- Further claims are not seen from an interval that they do not reach into. -/
theorem seenAlike_claimAll {lo hi : Nat} (set : ClaimSet) {outside : List Span}
    (h : ∀ s ∈ outside, s.stop ≤ lo ∨ hi ≤ s.start) :
    SeenAlike lo hi 0 set (set.claimAll outside) where
  kept s hs _ _ := mem_toList_claimAll_of_mem hs
  real t ht hstart hstop := by
    rcases mem_toList_claimAll.1 ht with ht | ⟨ht, -⟩
    · exact ⟨t, ht, rfl⟩
    · have := h t ht
      omega

namespace SeenAlike

variable {lo hi k : Nat} {set other : ClaimSet}

/-- Claims that are seen alike are so after one more claim. -/
theorem claim (h : SeenAlike lo hi k set other) (span : Span) :
    SeenAlike lo hi k (set.claim span) (other.claim (span.shift k)) where
  kept s hs hstart hstop := by
    rw [mem_toList_claim] at hs ⊢
    rcases hs with hs | ⟨rfl, hlt⟩
    · exact .inl (h.kept s hs hstart hstop)
    · exact .inr ⟨rfl, Nat.add_lt_add_right hlt k⟩
  real t ht hstart hstop := by
    rcases mem_toList_claim.1 ht with ht | ⟨rfl, hlt⟩
    · obtain ⟨s, hs, heq⟩ := h.real t ht hstart hstop
      exact ⟨s, mem_toList_claim.2 (.inl hs), heq⟩
    · exact ⟨span, mem_toList_claim.2 (.inr ⟨rfl, Nat.lt_of_add_lt_add_right hlt⟩), rfl⟩

theorem contains_eq (h : SeenAlike lo hi k set other) {p : Nat} (hlo : lo ≤ p) (hhi : p < hi) :
    other.contains (p + k) = set.contains p := by
  rw [Bool.eq_iff_iff, contains_iff, contains_iff]
  simp only [Span.contains_iff]
  constructor
  · rintro ⟨t, ht, hstart, hstop⟩
    obtain ⟨s, hs, rfl⟩ := h.real t ht (by omega) (by omega)
    exact ⟨s, hs, Nat.le_of_add_le_add_right hstart, Nat.lt_of_add_lt_add_right hstop⟩
  · rintro ⟨s, hs, hstart, hstop⟩
    exact ⟨s.shift k, h.kept s hs (by omega) (by omega), Nat.add_le_add_right hstart k,
      Nat.add_lt_add_right hstop k⟩

theorem overlaps_eq (h : SeenAlike lo hi k set other) {start stop : Nat} (hlo : lo ≤ start)
    (hlt : start < stop) (hhi : stop ≤ hi) :
    other.overlaps (start + k) (stop + k) = set.overlaps start stop := by
  rw [Bool.eq_iff_iff, overlaps_iff (Nat.add_lt_add_right hlt k), overlaps_iff hlt]
  simp only [Span.overlaps_iff]
  constructor
  · rintro ⟨t, ht, hstart, hstop⟩
    obtain ⟨s, hs, rfl⟩ := h.real t ht (by omega) (by omega)
    exact ⟨s, hs, Nat.lt_of_add_lt_add_right hstart, Nat.lt_of_add_lt_add_right hstop⟩
  · rintro ⟨s, hs, hstart, hstop⟩
    exact ⟨s.shift k, h.kept s hs (by omega) (by omega), Nat.add_lt_add_right hstart k,
      Nat.add_lt_add_right hstop k⟩

/-- The first claim that starts within an interval is the same. -/
theorem firstStartWithin_eq (h : SeenAlike lo hi k set other) {after before : Nat} (hlo : lo ≤ after)
    (hhi : before ≤ hi) :
    other.firstStartWithin (after + k) (before + k) = (set.firstStartWithin after before).map (· + k) := by
  refine firstStartWithin_eq_map (fun _ _ hlt => Nat.add_lt_add_right hlt k) ?_ ?_
  · intro s hs hafter hbefore
    have hlt := start_lt_stop_of_mem hs
    exact ⟨Nat.add_lt_add_right hafter k, Nat.add_lt_add_right hbefore k, s.shift k,
      h.kept s hs (by omega) (by omega), rfl⟩
  · intro t ht hafter hbefore
    have hlt := start_lt_stop_of_mem ht
    obtain ⟨s, hs, rfl⟩ := h.real t ht (by omega) (by omega)
    exact ⟨s, hs, rfl, Nat.lt_of_add_lt_add_right hafter, Nat.lt_of_add_lt_add_right hbefore⟩

end SeenAlike

end ClaimSet

/-! ## Passes elsewhere -/

/-- The comment found in a document `k` offsets further on. -/
def Found.shift (found : Found) (k : Nat) : Found :=
  { found with claim := found.claim.shift k }

variable {text : Text} {base k : Nat} {claims others : ClaimSet}

open ClaimSet (SeenAlike)

/-- A pass elsewhere makes of the next opening mark what the pass here does. -/
def Pass.ShiftsTo (base k : Nat) (here there : Pass text) : Prop :=
  ∀ {claims others : ClaimSet}, SeenAlike base (base + text.size) k claims others →
    ∀ pos, there.next others pos = (here.next claims pos).map (·.shift k)

/-- Whether a comment is skipped depends on the claims that reach into it. -/
theorem Enclosure.pass_shiftsTo (kind : Enclosure) (text : Text) (base k : Nat) :
    Pass.ShiftsTo base k (kind.pass text base) (kind.pass text (base + k)) := by
  intro claims others h pos
  show kind.next text (base + k) others pos = (kind.next text base claims pos).map (·.shift k)
  cases hfind : kind.find? text pos with
  | none => simp [next, hfind]
  | some comment =>
    have hbounds := (find?_eq_some hfind).1.bounds
    have hoverlaps : others.overlaps (base + k + comment.start) (base + k + comment.stop) =
        claims.overlaps (base + comment.start) (base + comment.stop) := by
      rw [Nat.add_right_comm base k, Nat.add_right_comm base k]
      exact h.overlaps_eq (by omega) (by omega) (by omega)
    simp only [next, hfind, Option.bind_eq_bind, Option.bind_some, hoverlaps]
    split
    · simp [Found.shift, Span.shift, Nat.add_right_comm]
    · simp [Found.shift, Span.shift, Nat.add_right_comm]

namespace LineRun

/-- A line is cut at the same place. -/
theorem cutAt_shift (h : SeenAlike base (base + text.size) k claims others) {p eol : Nat}
    (heol : eol ≤ text.size) : cutAt (base + k) others p eol = cutAt base claims p eol := by
  have hfirst : others.firstStartWithin (base + p + k) (base + eol + k) =
      (claims.firstStartWithin (base + p) (base + eol)).map (· + k) :=
    h.firstStartWithin_eq (by omega) (by omega)
  rw [cutAt, cutAt, Nat.add_right_comm base k p, Nat.add_right_comm base k eol, hfirst]
  cases claims.firstStartWithin (base + p) (base + eol) with
  | none => rfl
  | some c =>
    show c + k - (base + k) = c - base
    omega

/-- A run is followed to the same end. -/
theorem read_shift (h : SeenAlike base (base + text.size) k claims others) {mark : Mark}
    (lines : List CommentLine) (stop : Nat) {p : Nat} (hfit : p + mark.length ≤ text.size) :
    read text (base + k) others mark lines stop p = read text base claims mark lines stop p := by
  have heol := Text.lineEnd_le hfit
  have hmark := Text.le_lineEnd text (p + mark.length)
  have hpos := mark.length_pos
  rw [read, read.eq_def text base, cutAt_shift h heol]
  dsimp only
  split
  · rfl
  · split
    · rfl
    · split
      · rfl
      · split
        · rfl
        -- the mark of the next line is claimed there iff it is claimed here
        · next next hnext =>
          have hbounds := continuation?_eq_some hnext (by omega)
          have hcontains : others.contains (base + k + next) = claims.contains (base + next) := by
            rw [Nat.add_right_comm]
            exact h.contains_eq (by omega) (by omega)
          have hless : text.size - next < text.size - p := by omega
          rw [hcontains, read_shift h _ _ hbounds.2]
termination_by text.size - p

/-- What opens at a mark depends on the claims that reach into the rest of the text. -/
theorem pass_shiftsTo (marks : List Mark) (text : Text) (base k : Nat) :
    Pass.ShiftsTo base k (pass marks text base) (pass marks text (base + k)) := by
  intro claims others h pos
  show next marks text (base + k) others pos = (next marks text base claims pos).map (·.shift k)
  cases hfree : text.findFree? (fun i => (markAt? marks text i).isSome) pos with
  | none => simp [next, hfree]
  | some start =>
    obtain ⟨-, hlt, -, hsome⟩ := Text.findFree?_eq_some hfree
    obtain ⟨mark, hmark⟩ := Option.isSome_iff_exists.1 hsome
    have hcontains : others.contains (base + k + start) = claims.contains (base + start) := by
      rw [Nat.add_right_comm]
      exact h.contains_eq (by omega) (by omega)
    have hread := read_shift h [] start (add_length_le_of_markAt? hmark hlt)
    simp only [next, hfree, hmark, Option.bind_eq_bind, Option.bind_some, hcontains, hread]
    split
    · simp [Found.shift, Span.shift, Nat.add_right_comm]
    · simp [Found.shift, Span.shift, Nat.add_right_comm]

end LineRun

/-- A pass elsewhere finds the comments that the pass here finds. -/
theorem Pass.ShiftsTo.visits_eq {here there : Pass text} (hpass : ShiftsTo base k here there)
    (h : SeenAlike base (base + text.size) k claims others) (pos : Nat) :
    there.visits others pos = (here.visits claims pos).map (·.shift k) := by
  fun_induction visits here claims pos generalizing others with
  | case1 claims pos hnone =>
    have hthere := hpass h pos
    rw [hnone] at hthere
    exact visits_of_none hthere
  | case2 claims pos found hsome ih =>
    have hthere := hpass h pos
    rw [hsome] at hthere
    rw [visits_of_some hthere]
    exact congrArg _ (ih (h.claim found.claim))

/-- Claims that are seen alike are so after claims that are moved. -/
theorem ClaimSet.SeenAlike.claimAll {lo hi : Nat} (h : SeenAlike lo hi k claims others)
    (spans : List Span) :
    SeenAlike lo hi k (claims.claimAll spans) (others.claimAll (spans.map (·.shift k))) := by
  induction spans generalizing claims others with
  | nil => exact h
  | cons span spans ih => exact ih (h.claim span)

theorem visitsOf_shift {here there : List (Pass text)}
    (hpasses : List.Forall₂ (Pass.ShiftsTo base k) here there)
    (h : SeenAlike base (base + text.size) k claims others) :
    visitsOf there others = (visitsOf here claims).map (·.shift k) := by
  induction hpasses generalizing claims others with
  | nil => rfl
  | @cons pass pass' _ _ hpass _ ih =>
    have hvisits := Pass.ShiftsTo.visits_eq hpass h 0
    -- the passes that follow start with the claims of this one
    have hclaims := h.claimAll ((pass.visits claims 0).map Found.claim)
    have hcomm : ((pass.visits claims 0).map Found.claim).map (·.shift k) =
        ((pass.visits claims 0).map (·.shift k)).map Found.claim := by
      rw [List.map_map, List.map_map]
      rfl
    rw [hcomm] at hclaims
    rw [visitsOf, visitsOf, List.map_append, hvisits, ih hclaims]

/-! ## Plans elsewhere -/

/-- The action `k` offsets further on. -/
def ScanAction.shift (k : Nat) : ScanAction → ScanAction
  | consult => consult
  | claim span => claim (span.shift k)
  | record highlight => record (highlight.relocate (· + k))

/-- An action does elsewhere what another one does here: it consults the checkpoint, too, claims a span that
corresponds to the other one, or records the highlight at the place to which it is moved. -/
inductive ScanAction.Alike (R : Span → Span → Prop) (place : Nat → Nat) : ScanAction → ScanAction → Prop where
  | consult : Alike R place consult consult
  | claim {span span' : Span} : R span span' → Alike R place (claim span) (claim span')
  | record (highlight : Highlight) : Alike R place (record highlight) (record (highlight.relocate place))

/-- The action further on does there what the action does here. -/
theorem ScanAction.alike_shift (action : ScanAction) (k : Nat) :
    Alike (fun s s' => s.shift k = s') (· + k) action (action.shift k) := by
  cases action with
  | consult => exact .consult
  | claim span => exact .claim rfl
  | record highlight => exact .record highlight

theorem TaggedLine.highlight_shift (text : Text) (base k : Nat) (line : TaggedLine) :
    line.highlight text (base + k) = (line.highlight text base).relocate (· + k) := by
  simp [highlight, Highlight.relocate, Span.relocate, Span.shift, Nat.add_assoc]

theorem recordActions_shift (text : Text) (base k : Nat) (shown : List (Option TaggedLine)) :
    recordActions text (base + k) shown = (recordActions text base shown).map (.shift k) := by
  induction shown with
  | nil => rfl
  | cons line rest ih =>
    cases line with
    | none => exact ih
    | some line =>
      rw [recordActions, recordActions, ih, line.highlight_shift, List.map_append, List.map_cons]
      split
      · rfl
      · rfl

namespace Matchers

/-- The plan of a scan elsewhere is the plan moved there. -/
theorem planText_shift (matchers : Matchers) (h : SeenAlike base (base + text.size) k claims others) :
    matchers.planText text (base + k) others = (matchers.planText text base claims).map (.shift k) := by
  rw [planText, planText]
  cases matchers.shape with
  | code enclosures lineMarks =>
    have hpasses : List.Forall₂ (Pass.ShiftsTo base k) (codePasses enclosures lineMarks text base)
        (codePasses enclosures lineMarks text (base + k)) := by
      rw [codePasses, codePasses]
      refine List.rel_append ?_ (.cons (LineRun.pass_shiftsTo lineMarks text base k) .nil)
      rw [List.forall₂_map_left_iff, List.forall₂_map_right_iff, List.forall₂_same]
      exact fun kind _ => kind.pass_shiftsTo text base k
    have hactions (found : Found) : (found.shift k).actions matchers text (base + k) =
        (found.actions matchers text base).map (.shift k) := by
      rw [Found.actions, Found.actions, List.map_cons, List.map_cons, ← recordActions_shift]
      rfl
    dsimp only
    rw [visitsOf_shift hpasses h, List.map_cons, List.map_flatMap, List.flatMap_map]
    exact congrArg _ (congrArg (List.flatMap · _) (funext hactions))
  | plainText =>
    dsimp only
    rw [List.map_cons, List.map_cons, ← recordActions_shift]
    rfl

theorem plan_shift (matchers : Matchers) {text : String} {offset : Nat}
    (h : SeenAlike offset (offset + text.length) k claims others) :
    matchers.plan text (offset + k) others = (matchers.plan text offset claims).map (.shift k) := by
  rw [plan, plan]
  split
  · rfl
  · have hsize : (Text.ofString text).size = text.length := by
      rw [Text.ofString, List.size_toArray, String.length_toList]
    rw [← hsize] at h
    exact matchers.planText_shift h

end Matchers

section Scans

variable {σ : Type} [Checkpoint σ]

open ScanAction

/-- A plan and a plan that does the same elsewhere, each carried out under its own claims, go equally far. -/
theorem ScanAction.performAll_alike {R : Span → Span → Prop} {place : Nat → Nat}
    {plan plan' : List ScanAction} (hplan : List.Forall₂ (Alike R place) plan plan')
    (claims others : ClaimSet) (found found' : List Highlight) (checkpoint : σ) :
    ∃ made made' checkpoint', List.Forall₂ R made made' ∧
      (performAll plan ⟨claims, found, checkpoint⟩ =
          .ok () ⟨claims.claimAll made, (recorded plan).reverse ++ found, checkpoint'⟩ ∧
        performAll plan' ⟨others, found', checkpoint⟩ =
          .ok () ⟨others.claimAll made', ((recorded plan).map (·.relocate place)).reverse ++ found',
            checkpoint'⟩ ∨
      ∃ last last',
        performAll plan ⟨claims, found, checkpoint⟩ =
            .error .cancelled ⟨claims.claimAll made, last, checkpoint'⟩ ∧
        performAll plan' ⟨others, found', checkpoint⟩ =
          .error .cancelled ⟨others.claimAll made', last', checkpoint'⟩) := by
  induction hplan generalizing claims others found found' checkpoint with
  | nil => exact ⟨[], [], checkpoint, .nil, .inl ⟨rfl, rfl⟩⟩
  | @cons action action' rest rest' haction _ ih =>
    cases haction with
    | @claim span span' hspan =>
      obtain ⟨made, made', checkpoint', hmade, hends⟩ :=
        ih (claims.claim span) (others.claim span') found found' checkpoint
      exact ⟨span :: made, span' :: made', checkpoint', .cons hspan hmade, hends⟩
    | record highlight =>
      obtain ⟨made, made', checkpoint', hmade, hends⟩ :=
        ih claims others (highlight :: found) (highlight.relocate place :: found') checkpoint
      refine ⟨made, made', checkpoint', hmade, ?_⟩
      rw [performAll_record, performAll_record, recorded, List.map_cons, List.reverse_cons, List.reverse_cons,
        List.append_assoc, List.append_assoc]
      exact hends
    | consult =>
      rw [performAll_consult, performAll_consult]
      split
      · exact ih claims others found found' _
      · exact ⟨[], [], _, .nil, .inr ⟨found, found', rfl, rfl⟩⟩

/-- A plan that does the same elsewhere leaves behind what the plan leaves behind, moved. -/
theorem Scanned.ofPlan_alike {R : Span → Span → Prop} {place : Nat → Nat} {plan plan' : List ScanAction}
    (hplan : List.Forall₂ (Alike R place) plan plan') (claims others : ClaimSet) (checkpoint : σ) :
    ∃ made made' checkpoint', List.Forall₂ R made made' ∧
      (ofPlan plan claims checkpoint =
          ⟨.ok (.collect (recorded plan)), claims.claimAll made, checkpoint'⟩ ∧
        ofPlan plan' others checkpoint =
          ⟨.ok (.collect ((recorded plan).map (·.relocate place))), others.claimAll made', checkpoint'⟩ ∨
      ofPlan plan claims checkpoint = ⟨.error .cancelled, claims.claimAll made, checkpoint'⟩ ∧
        ofPlan plan' others checkpoint = ⟨.error .cancelled, others.claimAll made', checkpoint'⟩) := by
  obtain ⟨made, made', checkpoint', hmade, ⟨hhere, hthere⟩ | ⟨last, last', hhere, hthere⟩⟩ :=
    performAll_alike hplan claims others [] [] checkpoint
  · refine ⟨made, made', checkpoint', hmade, .inl ⟨?_, ?_⟩⟩
    · rw [ofPlan, hhere]
      simp
    · rw [ofPlan, hthere]
      simp
  · refine ⟨made, made', checkpoint', hmade, .inr ⟨?_, ?_⟩⟩
    · rw [ofPlan, hhere]
    · rw [ofPlan, hthere]

/-- A plan that is moved leaves behind what the plan leaves behind, moved. -/
theorem Scanned.ofPlan_shift (plan : List ScanAction) (k : Nat) (claims others : ClaimSet)
    (checkpoint : σ) :
    ∃ made checkpoint',
      ofPlan plan claims checkpoint =
          ⟨.ok (.collect (recorded plan)), claims.claimAll made, checkpoint'⟩ ∧
        ofPlan (plan.map (.shift k)) others checkpoint =
          ⟨.ok (.collect ((recorded plan).map (·.relocate (· + k)))),
            others.claimAll (made.map (·.shift k)), checkpoint'⟩ ∨
      ofPlan plan claims checkpoint = ⟨.error .cancelled, claims.claimAll made, checkpoint'⟩ ∧
        ofPlan (plan.map (.shift k)) others checkpoint =
          ⟨.error .cancelled, others.claimAll (made.map (·.shift k)), checkpoint'⟩ := by
  have hplan : List.Forall₂ (Alike (fun s s' => s.shift k = s') (· + k)) plan (plan.map (.shift k)) := by
    rw [List.forall₂_map_right_iff, List.forall₂_same]
    exact fun action _ => action.alike_shift k
  obtain ⟨made, made', checkpoint', hmade, hends⟩ := ofPlan_alike hplan claims others checkpoint
  have hmap : made.map (·.shift k) = made' := by
    rw [← List.forall₂_eq_eq_eq, List.forall₂_map_left_iff]
    exact hmade
  rw [← hmap] at hends
  exact ⟨made, checkpoint', hends⟩

/-- An action that is not moved stays what it is. -/
theorem ScanAction.shift_zero (action : ScanAction) : action.shift 0 = action := by
  cases action with
  | consult => rfl
  | claim span => rfl
  | record highlight => rfl

/-- The claims that a plan is carried out under do not matter to what it leaves behind besides. -/
theorem Scanned.ofPlan_withClaims (plan : List ScanAction) (claims others : ClaimSet) (checkpoint : σ) :
    ∃ made, (ofPlan plan claims checkpoint).claims = claims.claimAll made ∧
      ofPlan plan others checkpoint =
        { ofPlan plan claims checkpoint with claims := others.claimAll made } := by
  have hplan : plan.map (.shift 0) = plan := by
    rw [List.map_congr_left fun action _ => action.shift_zero, List.map_id']
  have hspans (spans : List Span) : spans.map (·.shift 0) = spans := List.map_id' spans
  have hfound (found : List Highlight) : found.map (·.relocate (· + 0)) = found := List.map_id' found
  obtain ⟨made, checkpoint', hends⟩ := ofPlan_shift plan 0 claims others checkpoint
  rw [hplan, hspans, hfound] at hends
  refine ⟨made, ?_⟩
  rcases hends with ⟨hclaims, hothers⟩ | ⟨hclaims, hothers⟩
  · rw [hclaims, hothers]
    exact ⟨rfl, rfl⟩
  · rw [hclaims, hothers]
    exact ⟨rfl, rfl⟩

namespace Matchers

/-- A scan `k` offsets further on, with all claims moved there, answers the ranges of the scan here and leaves
its claims, all moved there. It consults the checkpoint as often, since every checkpoint ends in the same
state. Where all offsets are machine words, scans by bytes do the same. -/
theorem scan_shift (matchers : Matchers) (text : String) (offset k : Nat) (claims : ClaimSet)
    (checkpoint : σ) :
    let here := matchers.scan text offset claims checkpoint
    let there := matchers.scan text (offset + k) (claims.shift k) checkpoint
    there.result.map TagRanges.toList =
        here.result.map (fun ranges => ranges.toList.map fun entry => (entry.1, entry.2.map (·.shift k))) ∧
      there.claims = here.claims.shift k ∧ there.checkpoint = here.checkpoint ∧
      (text.utf8ByteSize < UInt64.size → offset + k + text.length < UInt64.size →
        Checked.scan matchers text offset claims checkpoint = .ok here ∧
          Checked.scan matchers text (offset + k) (claims.shift k) checkpoint = .ok there) := by
  intro here there
  have hplace : StrictMono (· + k) := fun _ _ hlt => Nat.add_lt_add_right hlt k
  have hplan := matchers.plan_shift (claims.seenAlike_shift offset (offset + text.length) k)
  have hhere : here = .ofPlan (matchers.plan text offset claims) claims checkpoint :=
    matchers.scan_eq_ofPlan text offset claims checkpoint
  have hthere : there =
      .ofPlan ((matchers.plan text offset claims).map (.shift k)) (claims.shift k) checkpoint := by
    rw [← hplan]
    exact matchers.scan_eq_ofPlan text (offset + k) (claims.shift k) checkpoint
  have hbytes (hsize : text.utf8ByteSize < UInt64.size) {offset : Nat}
      (hfit : offset + text.length < UInt64.size) : Checked.Fits (Text.ofString text) offset :=
    ⟨by rwa [Text.byteLength_ofString], hfit⟩
  obtain ⟨made, checkpoint', hends⟩ := Scanned.ofPlan_shift (matchers.plan text offset claims) k claims
    (claims.shift k) checkpoint
  rw [← hhere, ← hthere, ← ClaimSet.shift_claimAll] at hends
  refine ⟨?_, ?_, ?_, fun hsize hfit => ⟨?_, ?_⟩⟩
  · rcases hends with ⟨hhere, hthere⟩ | ⟨hhere, hthere⟩
    · rw [hhere, hthere]
      refine congrArg Except.ok ?_
      rw [TagRanges.toList_collect_relocate hplace, TagRanges.toList_relocate]
      rfl
    · rw [hhere, hthere]
      rfl
  · rcases hends with ⟨hhere, hthere⟩ | ⟨hhere, hthere⟩
    · rw [hhere, hthere]
    · rw [hhere, hthere]
  · rcases hends with ⟨hhere, hthere⟩ | ⟨hhere, hthere⟩
    · rw [hhere, hthere]
    · rw [hhere, hthere]
  · exact (hbytes hsize (by omega)).scan_eq matchers claims checkpoint
  · exact (hbytes hsize hfit).scan_eq matchers (claims.shift k) checkpoint

/-- A comment in a text with characters of several bytes, after a claim that starts before the text and cut by
another one: a hundred offsets further on everything is the same, by characters and by bytes. -/
theorem scan_shift_multibyte :
    let matchers : Matchers := ⟨none, some ⟨"^(?:!)", [['!']]⟩, .code [] [⟨['→'], by decide⟩]⟩
    let text := "é\n→ !ü"
    let claims := ClaimSet.ofList [⟨2, 6⟩, ⟨10, 11⟩]
    let there := matchers.scan text (5 + 100) (claims.shift 100) ({} : Budget)
    text.utf8ByteSize < UInt64.size ∧ 5 + 100 + text.length < UInt64.size ∧
      there.result.map TagRanges.toList = .ok [("!", [⟨109, 110⟩])] ∧
      there.claims.toList = [⟨102, 106⟩, ⟨107, 110⟩, ⟨110, 111⟩] ∧
      there.checkpoint.consulted = 2 ∧
      Checked.scan matchers text (5 + 100) (claims.shift 100) ({} : Budget) = .ok there := by
  intro matchers text claims there
  have hsize : text.utf8ByteSize < UInt64.size := by decide
  have hfit : 5 + 100 + text.length < UInt64.size := by decide
  obtain ⟨hresult, hclaims, hcheckpoint, hbytes⟩ := scan_shift matchers text 5 100 claims ({} : Budget)
  refine ⟨hsize, hfit, hresult.trans ?_, ?_, ?_, (hbytes hsize hfit).2⟩
  · dsimp only [claims, matchers, text]
    decide +kernel
  · have htoList := congrArg ClaimSet.toList hclaims
    rw [ClaimSet.toList_shift] at htoList
    refine htoList.trans ?_
    dsimp only [claims, matchers, text]
    decide +kernel
  · refine (congrArg Budget.consulted hcheckpoint).trans ?_
    dsimp only [claims, matchers, text]
    decide +kernel

/-- Claims that do not reach into the text do not change the plan of its scan. -/
theorem plan_claimAll_outside (matchers : Matchers) {text : String} {offset : Nat} (claims : ClaimSet)
    {outside : List Span} (h : ∀ s ∈ outside, s.stop ≤ offset ∨ offset + text.length ≤ s.start) :
    matchers.plan text offset (claims.claimAll outside) = matchers.plan text offset claims := by
  have hplan := matchers.plan_shift (claims.seenAlike_claimAll h)
  rw [List.map_congr_left fun action _ => action.shift_zero, List.map_id'] at hplan
  exact hplan

/-- Claims that do not reach into the text change neither the outcome of a scan nor the claims it makes. -/
theorem scan_claimAll_outside (matchers : Matchers) {text : String} {offset : Nat} (claims : ClaimSet)
    {outside : List Span} (h : ∀ s ∈ outside, s.stop ≤ offset ∨ offset + text.length ≤ s.start)
    (checkpoint : σ) :
    ∃ made, (matchers.scan text offset claims checkpoint).claims = claims.claimAll made ∧
      matchers.scan text offset (claims.claimAll outside) checkpoint =
        { matchers.scan text offset claims checkpoint with
          claims := (claims.claimAll outside).claimAll made } := by
  rw [scan_eq_ofPlan, scan_eq_ofPlan, matchers.plan_claimAll_outside claims h]
  exact Scanned.ofPlan_withClaims _ claims _ checkpoint

end Matchers

end Scans

end CommentTags
