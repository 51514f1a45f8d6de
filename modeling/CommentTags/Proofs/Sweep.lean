import CommentTags.Proofs.Checkpoint
import CommentTags.Proofs.Claims
import CommentTags.Proofs.CommentLine
import CommentTags.Scan

/-!
# What a scan does, apart from its checkpoints

A checkpoint can end a scan early and does nothing else. This module separates the two: it lists the
comments that a pass finds when nothing interrupts it, and shows that a scan goes through this list, to
its end or up to an interruption.

The module introduces:

* `Pass.visits`: the comments that a pass finds from a position on, skipped ones included;
* `Found.highlights`: what is shown of a found comment;
* `visitsOf`: the comments that several passes find, each under the claims of those before it;
* `Found.InTurn`: each of several comments has a property under the claims of those before it.

A sweep that is not interrupted claims the visited comments and records their highlights (`sweep_ok`);
one that is interrupted has claimed the first of them (`sweep_error`). What holds of each step of a pass
holds of all its visits (`inTurn_visits`).
-/

namespace CommentTags

namespace ScanM

variable {σ α β : Type}

/-- Two steps succeed iff the first succeeds and the second does from there. -/
theorem bind_eq_ok_iff {x : ScanM σ α} {f : α → ScanM σ β} {b : β} {s s' : ScanState σ} :
    (x >>= f) s = .ok b s' ↔ ∃ a t, x s = .ok a t ∧ f a t = .ok b s' := by
  show EStateM.bind x f s = .ok b s' ↔ _
  rw [EStateM.bind]
  cases x s with
  | ok a t => simp
  | error e t => simp

/-- Two steps are interrupted iff the first is, or the second is from where the first ends. -/
theorem bind_eq_error_iff {x : ScanM σ α} {f : α → ScanM σ β} {e : Cancelled} {s s' : ScanState σ} :
    (x >>= f) s = .error e s' ↔ x s = .error e s' ∨ ∃ a t, x s = .ok a t ∧ f a t = .error e s' := by
  show EStateM.bind x f s = .error e s' ↔ _
  rw [EStateM.bind]
  cases x s with
  | ok a t => simp
  | error e t => simp

/-- The state in which the step ends, whether or not it is interrupted. -/
def endState (x : ScanM σ α) (s : ScanState σ) : ScanState σ :=
  match x s with
  | .ok _ t => t
  | .error _ t => t

/-- The step is not interrupted. -/
def Completes (x : ScanM σ Unit) (s : ScanState σ) : Prop :=
  x s = .ok () (endState x s)

/-- A step that answers something is not interrupted. -/
theorem completes_of_ok {x : ScanM σ Unit} {s t : ScanState σ} {a : Unit} (h : x s = .ok a t) :
    Completes x s ∧ endState x s = t := by
  rw [Completes, endState, h]
  exact ⟨rfl, rfl⟩

variable [Checkpoint σ] {text : Text} {base : Nat}

/-- A checkpoint that lets the scan go on changes neither the claims nor what was found. -/
theorem consult_ok {s s' : ScanState σ} {a : Unit} (h : (consult : ScanM σ Unit) s = .ok a s') :
    s'.claims = s.claims ∧ s'.found = s.found := by
  rw [consult] at h
  split at h
  · cases h
    exact ⟨rfl, rfl⟩
  · cases h

/-- A checkpoint that ends the scan does not change the claims. -/
theorem consult_error {s s' : ScanState σ} {e : Cancelled}
    (h : (consult : ScanM σ Unit) s = .error e s') : s'.claims = s.claims := by
  rw [consult] at h
  split at h
  · cases h
  · cases h
    rfl

/-- A line that shows something is recorded, a head only after the checkpoint is consulted. -/
theorem recordAll_cons_some {line : TaggedLine} {rest : List (Option TaggedLine)} {s : ScanState σ} :
    recordAll text base (some line :: rest) s =
      if line.isHead then
        match (consult : ScanM σ Unit) s with
        | .ok _ t => recordAll text base rest { t with found := line.highlight text base :: t.found }
        | .error e t => .error e t
      else recordAll text base rest { s with found := line.highlight text base :: s.found } := by
  rw [recordAll]
  by_cases hhead : line.isHead = true
  · rw [if_pos hhead, if_pos hhead]
    show EStateM.bind consult _ s = _
    rw [EStateM.bind]
    cases (consult : ScanM σ Unit) s with
    | ok a t => rfl
    | error e t => rfl
  · rw [if_neg hhead, if_neg hhead]
    rfl

/-- Without an interruption the highlights of all lines are recorded and no claim is made. -/
theorem recordAll_ok {shown : List (Option TaggedLine)} {s s' : ScanState σ} {a : Unit}
    (h : recordAll text base shown s = .ok a s') :
    s'.claims = s.claims ∧ s'.found = (highlightsOf text base shown).reverse ++ s.found := by
  induction shown generalizing s with
  | nil =>
    cases h
    exact ⟨rfl, rfl⟩
  | cons t rest ih =>
    cases t with
    | none => exact ih h
    | some line =>
      have hcons : (highlightsOf text base (some line :: rest)).reverse ++ s.found =
          (highlightsOf text base rest).reverse ++ (line.highlight text base :: s.found) := by
        rw [highlightsOf_cons_some, List.reverse_cons, List.append_assoc]
        rfl
      rw [recordAll_cons_some] at h
      rw [hcons]
      split at h
      -- a head: the checkpoint lets the scan go on
      · split at h
        · next u hconsult =>
          obtain ⟨hclaims, hfound⟩ := consult_ok hconsult
          have := ih h
          rw [hclaims, hfound] at this
          exact this
        · cases h
      · exact ih h

/-- An interruption while highlights are recorded leaves the claims as they are. -/
theorem recordAll_error {shown : List (Option TaggedLine)} {s s' : ScanState σ} {e : Cancelled}
    (h : recordAll text base shown s = .error e s') : s'.claims = s.claims := by
  induction shown generalizing s with
  | nil => cases h
  | cons t rest ih =>
    cases t with
    | none => exact ih h
    | some line =>
      rw [recordAll_cons_some] at h
      split at h
      · split at h
        · next u hconsult =>
          have hclaims := ih h
          exact hclaims.trans (consult_ok hconsult).1
        · next e' u hconsult =>
          cases h
          exact consult_error hconsult
      · have hclaims := ih h
        exact hclaims

/-- A checkpoint that allows work lets the scan go on, and still allows work afterwards. -/
theorem consult_of_allows {s : ScanState σ} (h : Checkpoint.Allows s.checkpoint) :
    ∃ t, (consult : ScanM σ Unit) s = .ok () t ∧ Checkpoint.Allows t.checkpoint := by
  obtain ⟨hagrees, hnext⟩ := h.consult
  rw [consult]
  split
  · next checkpoint heq =>
    rw [heq] at hnext
    exact ⟨_, rfl, hnext⟩
  · next checkpoint heq =>
    rw [heq] at hagrees
    cases hagrees

/-- A checkpoint that refuses work ends the scan. -/
theorem consult_of_refuses {s : ScanState σ} (h : (Checkpoint.consult s.checkpoint).1 = false) :
    (consult : ScanM σ Unit) s =
      .error .cancelled { s with checkpoint := (Checkpoint.consult s.checkpoint).2 } := by
  rw [consult]
  split
  · next checkpoint heq =>
    rw [heq] at h
    cases h
  · next checkpoint heq => rw [heq]

/-- With a checkpoint that allows work all highlights are recorded. -/
theorem recordAll_of_allows (text : Text) (base : Nat) (shown : List (Option TaggedLine))
    {s : ScanState σ} (h : Checkpoint.Allows s.checkpoint) :
    ∃ t, recordAll text base shown s = .ok () t ∧ Checkpoint.Allows t.checkpoint := by
  induction shown generalizing s with
  | nil => exact ⟨s, rfl, h⟩
  | cons line rest ih =>
    cases line with
    | none => exact ih h
    | some line =>
      rw [recordAll_cons_some]
      split
      · obtain ⟨t, ht, hallows⟩ := consult_of_allows h
        rw [ht]
        exact ih hallows
      · exact ih h

end ScanM

namespace Found

variable {σ : Type} [Checkpoint σ] {text : Text} {base : Nat} {matchers : Matchers}

/-- What is shown of the comment. -/
def highlights (matchers : Matchers) (text : Text) (base : Nat) (found : Found) : List Highlight :=
  highlightsOf text base (matchers.taggedLines text .indented found.inlineMark none found.lines)

/-- What a sweep does with the comment: it consults the checkpoint, claims the comment and records what
its lines show. -/
def take (matchers : Matchers) (text : Text) (base : Nat) (found : Found) : ScanM σ Unit := do
  ScanM.consult
  ScanM.claim found.claim
  ScanM.recordAll text base (matchers.taggedLines text .indented found.inlineMark none found.lines)

/-- Without an interruption the comment is claimed and its highlights are recorded. -/
theorem take_ok {found : Found} {s s' : ScanState σ} {a : Unit}
    (h : found.take matchers text base s = .ok a s') :
    s'.claims = s.claims.claim found.claim ∧
      s'.found = (found.highlights matchers text base).reverse ++ s.found := by
  rw [take, ScanM.bind_eq_ok_iff] at h
  obtain ⟨⟨⟩, t, ht, h⟩ := h
  obtain ⟨hclaims, hfound⟩ := ScanM.consult_ok ht
  obtain ⟨⟨⟩, u, hu, h⟩ := ScanM.bind_eq_ok_iff.1 h
  cases hu
  obtain ⟨hclaims', hfound'⟩ := ScanM.recordAll_ok h
  constructor
  · rw [hclaims', ← hclaims]
  · rw [hfound', ← hfound, highlights]

/-- An interruption comes before the comment is claimed or after it. -/
theorem take_error {found : Found} {s s' : ScanState σ} {e : Cancelled}
    (h : found.take matchers text base s = .error e s') :
    s'.claims = s.claims ∨ s'.claims = s.claims.claim found.claim := by
  rw [take, ScanM.bind_eq_error_iff] at h
  rcases h with h | ⟨⟨⟩, t, ht, h⟩
  · exact .inl (ScanM.consult_error h)
  · rcases ScanM.bind_eq_error_iff.1 h with h | ⟨⟨⟩, u, hu, h⟩
    -- claiming is not interrupted
    · cases h
    · cases hu
      right
      rw [ScanM.recordAll_error h, ← (ScanM.consult_ok ht).1]

/-- With a checkpoint that allows work a comment is taken without an interruption. -/
theorem take_of_allows (matchers : Matchers) (text : Text) (base : Nat) (found : Found)
    {s : ScanState σ} (h : Checkpoint.Allows s.checkpoint) :
    ∃ t, found.take matchers text base s = .ok () t ∧ Checkpoint.Allows t.checkpoint := by
  obtain ⟨t, ht, hallows⟩ := ScanM.consult_of_allows h
  obtain ⟨u, hu, hallows'⟩ := @ScanM.recordAll_of_allows _ _ text base
    (matchers.taggedLines text .indented found.inlineMark none found.lines)
    { t with claims := t.claims.claim found.claim } hallows
  refine ⟨u, ?_, hallows'⟩
  rw [take, ScanM.bind_eq_ok_iff]
  exact ⟨(), t, ht, ScanM.bind_eq_ok_iff.2 ⟨(), _, rfl, hu⟩⟩

/-- Each of several comments has the property `R` under the claims of those before it. -/
def InTurn (R : ClaimSet → Found → Prop) : ClaimSet → List Found → Prop
  | _, [] => True
  | claims, found :: rest => R claims found ∧ InTurn R (claims.claim found.claim) rest

/-- The spans that several comments claim, those of skipped comments left out. -/
def claimed (visits : List Found) : List Span :=
  (visits.map Found.claim).filter (!·.isEmpty)

theorem mem_claimed {visits : List Found} {span : Span} :
    span ∈ claimed visits ↔ (∃ found ∈ visits, found.claim = span) ∧ span.start < span.stop := by
  rw [claimed, List.mem_filter, List.mem_map, Bool.not_eq_true', ← Bool.not_eq_true, Span.isEmpty_iff,
    Nat.not_le]

theorem claimAll_claimed {claims : ClaimSet} {visits : List Found} :
    claims.claimAll (claimed visits) = claims.claimAll (visits.map Found.claim) :=
  ClaimSet.claimAll_filter

theorem inTurn_append {R : ClaimSet → Found → Prop} {claims : ClaimSet} {first second : List Found} :
    InTurn R claims (first ++ second) ↔
      InTurn R claims first ∧ InTurn R (claims.claimAll (first.map Found.claim)) second := by
  induction first generalizing claims with
  | nil => simp [InTurn]
  | cons found rest ih => rw [List.cons_append, InTurn, InTurn, ih, and_assoc]; rfl

/-- Each of the comments has the property under the claims from before and some made since. -/
theorem InTurn.of_mem {R : ClaimSet → Found → Prop} {claims : ClaimSet} {visits : List Found}
    (h : InTurn R claims visits) {found : Found} (hmem : found ∈ visits) :
    ∃ spans, R (claims.claimAll spans) found := by
  induction visits generalizing claims with
  | nil => cases hmem
  | cons first rest ih =>
    rcases List.mem_cons.1 hmem with rfl | hmem
    · exact ⟨[], h.1⟩
    · obtain ⟨spans, hspans⟩ := ih h.2 hmem
      exact ⟨first.claim :: spans, hspans⟩

/-- A comment that claims something has the property under the claims made before it. -/
theorem InTurn.of_claimed {R : ClaimSet → Found → Prop} {claims : ClaimSet} {visits : List Found}
    (h : InTurn R claims visits) {before after : List Span} {span : Span}
    (heq : claimed visits = before ++ span :: after) :
    ∃ found, found.claim = span ∧ span.start < span.stop ∧ R (claims.claimAll before) found := by
  induction visits generalizing claims before with
  | nil => exact absurd heq.symm (by simp [claimed])
  | cons found rest ih =>
    by_cases hempty : found.claim.isEmpty = true
    -- a skipped comment leaves the claims as they are
    · have hrest : claimed rest = before ++ span :: after := by
        rw [← heq, claimed, claimed, List.map_cons, List.filter_cons_of_neg (by simp [hempty])]
      have h₂ := h.2
      rw [ClaimSet.claim_of_isEmpty hempty] at h₂
      exact ih h₂ hrest
    · have hcons : claimed (found :: rest) = found.claim :: claimed rest := by
        rw [claimed, List.map_cons, List.filter_cons_of_pos (by simp [hempty])]
        rfl
      rw [hcons] at heq
      cases before with
      -- the span is the claim of the first comment
      | nil =>
        cases heq
        rw [Span.isEmpty_iff, Nat.not_le] at hempty
        exact ⟨found, rfl, hempty, h.1⟩
      | cons first before =>
        rw [List.cons_append, List.cons.injEq] at heq
        obtain ⟨rfl, heq⟩ := heq
        exact ih h.2 heq

end Found

namespace Pass

variable {σ : Type} [Checkpoint σ] {text : Text} {base : Nat} {matchers : Matchers} {pass : Pass text}

/-- The comments that the pass finds from `pos` on, skipped ones included. -/
def visits (pass : Pass text) (claims : ClaimSet) (pos : Nat) : List Found :=
  match _h : pass.next claims pos with
  | none => []
  | some found => found :: visits pass (claims.claim found.claim) found.resume
termination_by text.size - pos
decreasing_by
  have := pass.advances _h
  omega

theorem visits_of_none {claims : ClaimSet} {pos : Nat} (h : pass.next claims pos = none) :
    pass.visits claims pos = [] := by
  rw [visits]
  split
  · rfl
  · next found hsome =>
    rw [h] at hsome
    cases hsome

theorem visits_of_some {claims : ClaimSet} {pos : Nat} {found : Found}
    (h : pass.next claims pos = some found) :
    pass.visits claims pos = found :: pass.visits (claims.claim found.claim) found.resume := by
  rw [visits]
  split
  · next hnone =>
    rw [h] at hnone
    cases hnone
  · next found' hsome =>
    rw [h] at hsome
    cases hsome
    rfl

theorem sweep_of_none {pos : Nat} {s : ScanState σ} (h : pass.next s.claims pos = none) :
    pass.sweep base matchers pos s = .ok () s := by
  rw [sweep]
  split
  · rfl
  · next found hsome =>
    rw [h] at hsome
    cases hsome

/-- A sweep takes one comment after the other. -/
theorem sweep_of_some {pos : Nat} {s : ScanState σ} {found : Found}
    (h : pass.next s.claims pos = some found) :
    pass.sweep base matchers pos s =
      match found.take matchers text base s with
      | .ok _ t => pass.sweep base matchers found.resume t
      | .error e t => .error e t := by
  rw [sweep]
  split
  · next hnone =>
    rw [h] at hnone
    cases hnone
  · next found' hsome =>
    rw [h] at hsome
    cases hsome
    rfl

/-- A sweep that is not interrupted claims all comments it visits and records what they show. -/
theorem sweep_ok {pos : Nat} {s s' : ScanState σ} {a : Unit}
    (h : pass.sweep base matchers pos s = .ok a s') :
    s'.claims = s.claims.claimAll ((pass.visits s.claims pos).map Found.claim) ∧
      s'.found =
        ((pass.visits s.claims pos).flatMap (Found.highlights matchers text base)).reverse ++ s.found := by
  -- induction on the text that is left, which shrinks with every comment
  induction hk : text.size - pos using Nat.strongRecOn generalizing pos s with
  | ind k ih =>
    cases hnext : pass.next s.claims pos with
    | none =>
      rw [sweep_of_none hnext] at h
      rw [visits_of_none hnext]
      cases h
      exact ⟨rfl, rfl⟩
    | some found =>
      have hadvance := pass.advances hnext
      rw [sweep_of_some hnext] at h
      rw [visits_of_some hnext]
      split at h
      · next t htake =>
        obtain ⟨hclaims, hfound⟩ := Found.take_ok htake
        have hrest := ih (text.size - found.resume) (by omega) h rfl
        rw [hclaims, hfound] at hrest
        refine ⟨hrest.1, ?_⟩
        rw [hrest.2, List.flatMap_cons, List.reverse_append, List.append_assoc]
      · cases h

/-- A sweep that is interrupted has claimed the first of the comments it would visit. -/
theorem sweep_error {pos : Nat} {s s' : ScanState σ} {e : Cancelled}
    (h : pass.sweep base matchers pos s = .error e s') :
    ∃ visited, visited <+: pass.visits s.claims pos ∧
      s'.claims = s.claims.claimAll (visited.map Found.claim) := by
  induction hk : text.size - pos using Nat.strongRecOn generalizing pos s with
  | ind k ih =>
    cases hnext : pass.next s.claims pos with
    | none =>
      rw [sweep_of_none hnext] at h
      cases h
    | some found =>
      have hadvance := pass.advances hnext
      rw [sweep_of_some hnext] at h
      rw [visits_of_some hnext]
      split at h
      -- the checkpoint fails at a later comment
      · next t htake =>
        obtain ⟨visited, hpre, hclaims⟩ := ih (text.size - found.resume) (by omega) h rfl
        rw [(Found.take_ok htake).1] at hpre hclaims
        exact ⟨found :: visited, List.cons_prefix_cons.2 ⟨rfl, hpre⟩, hclaims⟩
      -- the comment at which the checkpoint failed may be claimed already
      · next e' t htake =>
        cases h
        rcases Found.take_error htake with hclaims | hclaims
        · exact ⟨[], List.nil_prefix, hclaims⟩
        · exact ⟨[found], by simp, hclaims⟩

/-- However a sweep ends, it has claimed the first of the comments it would visit, and nothing else. -/
theorem claims_endState (pass : Pass text) (base : Nat) (matchers : Matchers) (pos : Nat)
    (s : ScanState σ) :
    ∃ visited, visited <+: pass.visits s.claims pos ∧
      (ScanM.endState (pass.sweep base matchers pos) s).claims =
        s.claims.claimAll (Found.claimed visited) := by
  simp only [Found.claimAll_claimed]
  rw [ScanM.endState]
  split
  · next t hok => exact ⟨_, List.prefix_rfl, (sweep_ok hok).1⟩
  · next e t herror => exact sweep_error herror

/-- A sweep with a checkpoint that allows work is not interrupted. -/
theorem sweep_of_allows (pass : Pass text) (base : Nat) (matchers : Matchers) (pos : Nat)
    {s : ScanState σ} (h : Checkpoint.Allows s.checkpoint) :
    ∃ t, pass.sweep base matchers pos s = .ok () t ∧ Checkpoint.Allows t.checkpoint := by
  induction hk : text.size - pos using Nat.strongRecOn generalizing pos s with
  | ind k ih =>
    cases hnext : pass.next s.claims pos with
    | none => exact ⟨s, sweep_of_none hnext, h⟩
    | some found =>
      have hadvance := pass.advances hnext
      obtain ⟨t, ht, hallows⟩ := Found.take_of_allows matchers text base found h
      rw [sweep_of_some hnext, ht]
      exact ih (text.size - found.resume) (by omega) found.resume hallows rfl

/-- A sweep whose checkpoint never fails is not interrupted. -/
theorem completes_sweep (hσ : ∀ c : σ, (Checkpoint.consult c).1 = true) {pos : Nat} {s : ScanState σ} :
    ScanM.Completes (pass.sweep base matchers pos) s := by
  obtain ⟨t, ht, -⟩ :=
    pass.sweep_of_allows base matchers pos (Checkpoint.allows_of_forall hσ s.checkpoint)
  exact (ScanM.completes_of_ok ht).1

/-- What holds of every step from where the invariant holds does so of all visits in turn, if every step
keeps the invariant. -/
theorem inTurn_visits_of_invariant (pass : Pass text) (Inv : ClaimSet → Nat → Prop)
    {R : ClaimSet → Found → Prop}
    (hstep : ∀ {claims pos found}, Inv claims pos → pass.next claims pos = some found →
      R claims found ∧ Inv (claims.claim found.claim) found.resume)
    {claims : ClaimSet} {pos : Nat} (h : Inv claims pos) :
    Found.InTurn R claims (pass.visits claims pos) := by
  fun_induction visits pass claims pos with
  | case1 claims pos hnone => trivial
  | case2 claims pos found hsome ih =>
    obtain ⟨hfound, hinv⟩ := hstep h hsome
    exact ⟨hfound, ih hinv⟩

/-- What holds of every step of a pass holds of all its visits in turn. -/
theorem inTurn_visits (pass : Pass text) {R : ClaimSet → Found → Prop}
    (hstep : ∀ {claims pos found}, pass.next claims pos = some found → R claims found)
    (claims : ClaimSet) (pos : Nat) : Found.InTurn R claims (pass.visits claims pos) :=
  pass.inTurn_visits_of_invariant (fun _ _ => True) (fun _ hnext => ⟨hstep hnext, trivial⟩) trivial

/-- What holds of every step of a pass holds of the first of its visits in turn. -/
theorem inTurn_of_prefix (pass : Pass text) {R : ClaimSet → Found → Prop}
    (hstep : ∀ {claims pos found}, pass.next claims pos = some found → R claims found)
    {claims : ClaimSet} {pos : Nat} {visited : List Found} (h : visited <+: pass.visits claims pos) :
    Found.InTurn R claims visited := by
  obtain ⟨rest, hrest⟩ := h
  have hall := pass.inTurn_visits hstep claims pos
  rw [← hrest, Found.inTurn_append] at hall
  exact hall.1

/-- A pass settles all that it can see, if each of its steps settles a thing or leaves it in sight, what
is settled stays so, and nothing is in sight at the end. -/
theorem settled_of_visits (pass : Pass text) {ι : Type} (InSight : Nat → ι → Prop)
    (Settled : ClaimSet → ι → Prop)
    (hmono : ∀ {claims x} (spans : List Span), Settled claims x → Settled (claims.claimAll spans) x)
    (hnone : ∀ {claims pos x}, pass.next claims pos = none → ¬ InSight pos x)
    (hsome : ∀ {claims pos found x}, pass.next claims pos = some found → InSight pos x →
      InSight found.resume x ∨ Settled (claims.claim found.claim) x)
    {claims : ClaimSet} {pos : Nat} {x : ι} (h : InSight pos x) :
    Settled (claims.claimAll ((pass.visits claims pos).map Found.claim)) x := by
  fun_induction visits pass claims pos with
  | case1 claims pos hnext => exact absurd h (hnone hnext)
  | case2 claims pos found hnext ih =>
    rw [List.map_cons, ClaimSet.claimAll_cons]
    rcases hsome hnext h with h | h
    · exact ih h
    -- what this step settles stays so under the claims of the steps after it
    · exact hmono _ h

end Pass

/-! ## Several passes -/

/-- The comments that several passes find, each pass under the claims of those before it. -/
def visitsOf {text : Text} : List (Pass text) → ClaimSet → List Found
  | [], _ => []
  | pass :: rest, claims =>
    pass.visits claims 0 ++
      visitsOf rest (claims.claimAll ((pass.visits claims 0).map Found.claim))

section Passes

variable {σ : Type} [Checkpoint σ] {text : Text} {base : Nat} {matchers : Matchers}
  {passes : List (Pass text)}

/-- Several passes that are not interrupted claim all comments they visit and record what they show. -/
theorem sweepAll_ok {s s' : ScanState σ} {a : Unit}
    (h : passes.forM (fun pass => pass.sweep base matchers 0) s = .ok a s') :
    s'.claims = s.claims.claimAll ((visitsOf passes s.claims).map Found.claim) ∧
      s'.found =
        ((visitsOf passes s.claims).flatMap (Found.highlights matchers text base)).reverse ++ s.found := by
  induction passes generalizing s with
  | nil =>
    cases h
    exact ⟨rfl, rfl⟩
  | cons pass passes ih =>
    obtain ⟨⟨⟩, t, hsweep, hrest⟩ := ScanM.bind_eq_ok_iff.1 h
    obtain ⟨hclaims, hfound⟩ := Pass.sweep_ok hsweep
    obtain ⟨hclaims', hfound'⟩ := ih hrest
    rw [visitsOf, ← hclaims]
    constructor
    · rw [hclaims', List.map_append, ClaimSet.claimAll_append, ← hclaims]
    · rw [hfound', hfound, List.flatMap_append, List.reverse_append, List.append_assoc]

/-- What holds of every step of several passes holds of all their visits in turn. -/
theorem inTurn_visitsOf {R : ClaimSet → Found → Prop}
    (hstep : ∀ pass ∈ passes, ∀ {claims pos found}, pass.next claims pos = some found → R claims found)
    (claims : ClaimSet) : Found.InTurn R claims (visitsOf passes claims) := by
  induction passes generalizing claims with
  | nil => trivial
  | cons pass passes ih =>
    rw [List.forall_mem_cons] at hstep
    rw [visitsOf, Found.inTurn_append]
    exact ⟨pass.inTurn_visits hstep.1 claims 0, ih hstep.2 _⟩

/-- Several passes that are interrupted have claimed the first of the comments that they would visit. -/
theorem sweepAll_error {s s' : ScanState σ} {e : Cancelled}
    (h : passes.forM (fun pass => pass.sweep base matchers 0) s = .error e s') :
    ∃ visited, visited <+: visitsOf passes s.claims ∧
      s'.claims = s.claims.claimAll (visited.map Found.claim) := by
  induction passes generalizing s with
  | nil => cases h
  | cons pass passes ih =>
    rw [visitsOf]
    rcases ScanM.bind_eq_error_iff.1 h with hsweep | ⟨⟨⟩, t, hsweep, hrest⟩
    · obtain ⟨visited, hpre, hclaims⟩ := Pass.sweep_error hsweep
      exact ⟨visited, hpre.trans (List.prefix_append _ _), hclaims⟩
    -- the first pass is not interrupted, and a later one is
    · obtain ⟨hclaims, -⟩ := Pass.sweep_ok hsweep
      obtain ⟨visited, hpre, hclaims'⟩ := ih hrest
      rw [← hclaims]
      refine ⟨pass.visits s.claims 0 ++ visited, (List.prefix_append_right_inj _).2 hpre, ?_⟩
      rw [hclaims', List.map_append, ClaimSet.claimAll_append, ← hclaims]

/-- Passes with a checkpoint that allows work are not interrupted. -/
theorem sweepAll_of_allows (passes : List (Pass text)) (base : Nat) (matchers : Matchers)
    {s : ScanState σ} (h : Checkpoint.Allows s.checkpoint) :
    ∃ t, passes.forM (fun pass => pass.sweep base matchers 0) s = .ok () t ∧
      Checkpoint.Allows t.checkpoint := by
  induction passes generalizing s with
  | nil => exact ⟨s, rfl, h⟩
  | cons pass passes ih =>
    obtain ⟨t, hsweep, hallows⟩ := pass.sweep_of_allows base matchers 0 h
    obtain ⟨u, hrest, hallows'⟩ := ih hallows
    exact ⟨u, ScanM.bind_eq_ok_iff.2 ⟨(), t, hsweep, hrest⟩, hallows'⟩

/-- The passes of a second list find their comments under the claims of those of the first. -/
theorem visitsOf_append {first second : List (Pass text)} {claims : ClaimSet} :
    visitsOf (first ++ second) claims =
      visitsOf first claims ++
        visitsOf second (claims.claimAll ((visitsOf first claims).map Found.claim)) := by
  induction first generalizing claims with
  | nil => rfl
  | cons pass first ih =>
    rw [List.cons_append, visitsOf, visitsOf, ih, List.append_assoc, List.map_append,
      ClaimSet.claimAll_append]

end Passes

end CommentTags
