import CommentTags.Proofs.Engine
import CommentTags.Proofs.Sweep

/-!
# A scan carries out a plan

What a scan does, and in which order, follows from its text, its matchers and the claims it starts with.
The checkpoint only decides how far the scan gets. This module lists the actions of a scan, its plan, and
shows that every scan carries out its plan up to the first consultation of the checkpoint that fails.

## Main definitions

* `ScanAction`: what a scan does in one step;
* `ScanAction.performAll`: carries out a plan;
* `ScanAction.claimed`, `ScanAction.recorded` and `ScanAction.consultations`: what a plan amounts to;
* `Matchers.plan` and `Engine.plan`: the plan of a scan.

## Main results

* `Matchers.scan_eq_ofPlan` and `Engine.scan_eq_ofPlan`: a scan carries out its plan;
* `Scanned.ranges_ofPlan`: the ranges that a plan leads to do not depend on the checkpoint.
-/

namespace CommentTags

/-- What a scan does in one step. -/
inductive ScanAction where
  /-- The checkpoint is consulted. -/
  | consult
  /-- The text of a comment is claimed; nothing is if the span is empty. -/
  | claim (span : Span)
  /-- A highlight is recorded. -/
  | record (highlight : Highlight)

namespace ScanAction

variable {σ : Type} [Checkpoint σ]

/-- Carries out one action. -/
def perform : ScanAction → ScanM σ Unit
  | consult => ScanM.consult
  | claim span => ScanM.claim span
  | record highlight => modify fun s => { s with found := highlight :: s.found }

/-- Carries out the actions of a plan until the checkpoint fails. -/
def performAll : List ScanAction → ScanM σ Unit
  | [] => pure ()
  | action :: rest => do
    action.perform
    performAll rest

/-- The spans that a plan claims. -/
def claimed : List ScanAction → List Span
  | [] => []
  | claim span :: rest => if span.isEmpty then claimed rest else span :: claimed rest
  | _ :: rest => claimed rest

/-- The highlights that a plan records. -/
def recorded : List ScanAction → List Highlight
  | [] => []
  | record highlight :: rest => highlight :: recorded rest
  | _ :: rest => recorded rest

/-- How often a plan consults the checkpoint. -/
def consultations : List ScanAction → Nat
  | [] => 0
  | consult :: rest => consultations rest + 1
  | _ :: rest => consultations rest

@[simp]
theorem claimed_consult (rest : List ScanAction) : claimed (consult :: rest) = claimed rest := rfl

@[simp]
theorem claimed_record (highlight : Highlight) (rest : List ScanAction) :
    claimed (record highlight :: rest) = claimed rest := rfl

@[simp]
theorem recorded_consult (rest : List ScanAction) : recorded (consult :: rest) = recorded rest := rfl

theorem claimed_append (first second : List ScanAction) :
    claimed (first ++ second) = claimed first ++ claimed second := by
  induction first with
  | nil => rfl
  | cons action rest ih =>
    cases action with
    | consult => exact ih
    | record highlight => exact ih
    | claim span =>
      rw [List.cons_append, claimed, claimed, ih]
      split
      · rfl
      · rfl

theorem recorded_append (first second : List ScanAction) :
    recorded (first ++ second) = recorded first ++ recorded second := by
  induction first with
  | nil => rfl
  | cons action rest ih => cases action <;> simp [recorded, ih]

/-- To claim what a plan with a claim at its front claims is to claim this span first. -/
@[simp]
theorem claimAll_claimed_claim (claims : ClaimSet) (span : Span) (rest : List ScanAction) :
    claims.claimAll (claimed (claim span :: rest)) = (claims.claim span).claimAll (claimed rest) := by
  rw [claimed]
  split
  · next hempty => rw [ClaimSet.claim_of_isEmpty hempty]
  · rw [ClaimSet.claimAll_cons]

@[simp]
theorem performAll_nil (s : ScanState σ) : performAll [] s = .ok () s := rfl

@[simp]
theorem performAll_claim (span : Span) (rest : List ScanAction) (s : ScanState σ) :
    performAll (claim span :: rest) s = performAll rest { s with claims := s.claims.claim span } := rfl

@[simp]
theorem performAll_record (highlight : Highlight) (rest : List ScanAction) (s : ScanState σ) :
    performAll (record highlight :: rest) s =
      performAll rest { s with found := highlight :: s.found } := rfl

/-- A plan that starts with a consultation goes on if the checkpoint agrees. -/
theorem performAll_consult (rest : List ScanAction) (s : ScanState σ) :
    performAll (consult :: rest) s =
      if (Checkpoint.consult s.checkpoint).1 then
        performAll rest { s with checkpoint := (Checkpoint.consult s.checkpoint).2 }
      else .error .cancelled { s with checkpoint := (Checkpoint.consult s.checkpoint).2 } := by
  show EStateM.bind ScanM.consult (fun _ => performAll rest) s = _
  rw [EStateM.bind, ScanM.consult]
  cases Checkpoint.consult s.checkpoint with
  | mk answer checkpoint => cases answer <;> rfl

/-- Of two plans in a row the second is carried out from where the first ends. -/
theorem performAll_append (first second : List ScanAction) (s : ScanState σ) :
    performAll (first ++ second) s =
      match performAll first s with
      | .ok _ t => performAll second t
      | .error e t => .error e t := by
  induction first generalizing s with
  | nil => rfl
  | cons action rest ih =>
    cases action with
    | claim span => exact ih _
    | record highlight => exact ih _
    | consult =>
      rw [List.cons_append, performAll_consult, performAll_consult]
      split
      · exact ih _
      · rfl

/-- A plan that is carried out to its end claims its spans and records its highlights. -/
theorem performAll_ok {plan : List ScanAction} {s s' : ScanState σ} {a : Unit}
    (h : performAll plan s = .ok a s') :
    s'.claims = s.claims.claimAll (claimed plan) ∧ s'.found = (recorded plan).reverse ++ s.found := by
  induction plan generalizing s with
  | nil =>
    cases h
    exact ⟨rfl, rfl⟩
  | cons action rest ih =>
    cases action with
    | claim span =>
      rw [claimAll_claimed_claim]
      exact ih h
    | record highlight =>
      obtain ⟨hclaims, hfound⟩ := ih h
      refine ⟨hclaims, ?_⟩
      rw [hfound, recorded, List.reverse_cons, List.append_assoc]
      rfl
    | consult =>
      rw [performAll_consult] at h
      split at h
      · obtain ⟨hclaims, hfound⟩ := ih h
        exact ⟨hclaims, hfound⟩
      · cases h

/-- A token that is current beside the checkpoint changes nothing. -/
theorem performAll_guarded {guard : TaskGuard} (hguard : guard.tracker.isCurrent guard.token = true)
    (plan : List ScanAction) (claims : ClaimSet) (found : List Highlight) (checkpoint : σ) :
    performAll plan ⟨claims, found, (guard, checkpoint)⟩ =
      match performAll plan ⟨claims, found, checkpoint⟩ with
      | .ok a t => .ok a ⟨t.claims, t.found, (guard, t.checkpoint)⟩
      | .error e t => .error e ⟨t.claims, t.found, (guard, t.checkpoint)⟩ := by
  have hconsult : Checkpoint.consult guard = (true, guard) := by
    rw [← hguard]
    rfl
  induction plan generalizing claims found checkpoint with
  | nil => rfl
  | cons action rest ih =>
    cases action with
    | claim span => exact ih _ _ _
    | record highlight => exact ih _ _ _
    | consult =>
      rw [performAll_consult, performAll_consult, Checkpoint.consult_prod, hconsult]
      dsimp only
      rw [if_pos rfl]
      by_cases hagrees : (Checkpoint.consult checkpoint).1 = true
      · rw [if_pos hagrees, if_pos hagrees]
        exact ih _ _ _
      · rw [if_neg hagrees, if_neg hagrees]

end ScanAction

/-! ## The plan of a scan -/

/-- The actions that record what several lines show. -/
def recordActions (text : Text) (base : Nat) : List (Option TaggedLine) → List ScanAction
  | [] => []
  | none :: rest => recordActions text base rest
  | some line :: rest =>
    (if line.isHead then [.consult] else []) ++
      .record (line.highlight text base) :: recordActions text base rest

/-- What a sweep does with a found comment. -/
def Found.actions (matchers : Matchers) (text : Text) (base : Nat) (found : Found) : List ScanAction :=
  .consult :: .claim found.claim ::
    recordActions text base (matchers.taggedLines text .indented found.inlineMark none found.lines)

namespace Matchers

/-- The plan of a scan that looks for something. -/
def planText (matchers : Matchers) (text : Text) (base : Nat) (claims : ClaimSet) : List ScanAction :=
  .consult ::
    match matchers.shape with
    | .code enclosures lineMarks =>
      (visitsOf (codePasses enclosures lineMarks text base) claims).flatMap
        (Found.actions matchers text base)
    | .plainText =>
      .consult :: recordActions text base
        (matchers.taggedLines text .untilBlank none none (plainLines text))

/-- What a scan does if nothing interrupts it. -/
def plan (matchers : Matchers) (text : String) (offset : Nat) (claims : ClaimSet) : List ScanAction :=
  if matchers.isInert || text.isEmpty then []
  else matchers.planText (Text.ofString text) offset claims

end Matchers

/-- What a scan does if nothing interrupts it; it does nothing in a language without matchers. -/
def Engine.plan (engine : Engine) (files : Files) (id text : String) (offset : Nat)
    (claims : ClaimSet) : List ScanAction :=
  ((engine.matchersFor files id).value.map (·.plan text offset claims)).getD []

/-- What carrying out a plan leaves behind. -/
def Scanned.ofPlan {σ : Type} [Checkpoint σ] (plan : List ScanAction) (claims : ClaimSet)
    (checkpoint : σ) : Scanned σ :=
  match ScanAction.performAll plan ⟨claims, [], checkpoint⟩ with
  | .ok _ s => ⟨.ok (.collect s.found.reverse), s.claims, s.checkpoint⟩
  | .error e s => ⟨.error e, s.claims, s.checkpoint⟩

section Plans

variable {σ : Type} [Checkpoint σ] {text : Text} {base : Nat} {matchers : Matchers}

open ScanAction

/-- What several lines show is recorded as planned. -/
theorem ScanM.recordAll_eq_performAll (shown : List (Option TaggedLine)) (s : ScanState σ) :
    recordAll text base shown s = performAll (recordActions text base shown) s := by
  induction shown generalizing s with
  | nil => rfl
  | cons line rest ih =>
    cases line with
    | none => exact ih s
    | some line =>
      rw [recordAll_cons_some, recordActions]
      by_cases hhead : line.isHead = true
      · rw [if_pos hhead, if_pos hhead, List.singleton_append, performAll_consult, consult]
        cases Checkpoint.consult s.checkpoint with
        | mk answer checkpoint =>
          cases answer with
          | true => exact ih _
          | false => rfl
      · rw [if_neg hhead, if_neg hhead]
        exact ih _

/-- A step that starts with a consultation is planned if what follows is, whatever has become of the
checkpoint. -/
theorem ScanM.consult_bind_eq_performAll {next : Unit → ScanM σ Unit} {rest : List ScanAction}
    {s : ScanState σ}
    (h : ∀ checkpoint, next () { s with checkpoint } = performAll rest { s with checkpoint }) :
    (consult >>= next) s = performAll (.consult :: rest) s := by
  rw [performAll_consult]
  show EStateM.bind consult next s = _
  rw [EStateM.bind, consult]
  cases Checkpoint.consult s.checkpoint with
  | mk answer checkpoint =>
    cases answer with
    | true => exact h checkpoint
    | false => rfl

/-- A comment is taken as planned. -/
theorem Found.take_eq_performAll (found : Found) (s : ScanState σ) :
    found.take matchers text base s = performAll (found.actions matchers text base) s :=
  ScanM.consult_bind_eq_performAll fun _ => ScanM.recordAll_eq_performAll _ _

/-- A sweep carries out the actions of the comments it visits. -/
theorem Pass.sweep_eq_performAll (pass : Pass text) (pos : Nat) (s : ScanState σ) :
    pass.sweep base matchers pos s =
      performAll ((pass.visits s.claims pos).flatMap (Found.actions matchers text base)) s := by
  -- induction on the text that is left, which shrinks with every comment
  induction hk : text.size - pos using Nat.strongRecOn generalizing pos s with
  | ind k ih =>
    cases hnext : pass.next s.claims pos with
    | none =>
      rw [sweep_of_none hnext, visits_of_none hnext]
      rfl
    | some found =>
      have hadvance := pass.advances hnext
      rw [sweep_of_some hnext, visits_of_some hnext, List.flatMap_cons, performAll_append,
        ← Found.take_eq_performAll]
      cases htake : found.take matchers text base s with
      | error e t => rfl
      -- the rest is visited under the claims that the comment has left
      | ok a t =>
        rw [← (Found.take_ok htake).1]
        exact ih (text.size - found.resume) (by omega) found.resume t rfl

/-- Several passes carry out the actions of the comments they visit. -/
theorem sweepAll_eq_performAll (passes : List (Pass text)) (s : ScanState σ) :
    passes.forM (fun pass => pass.sweep base matchers 0) s =
      performAll ((visitsOf passes s.claims).flatMap (Found.actions matchers text base)) s := by
  induction passes generalizing s with
  | nil => rfl
  | cons pass passes ih =>
    rw [visitsOf, List.flatMap_append, performAll_append, ← Pass.sweep_eq_performAll]
    show EStateM.bind (pass.sweep base matchers 0) _ s = _
    rw [EStateM.bind]
    cases hsweep : pass.sweep base matchers 0 s with
    | error e t => rfl
    | ok a t =>
      rw [← (Pass.sweep_ok hsweep).1]
      exact ih t

namespace Matchers

/-- A scan that looks for something does so as planned. -/
theorem scanText_eq_performAll (matchers : Matchers) (s : ScanState σ) :
    matchers.scanText text base s = performAll (matchers.planText text base s.claims) s := by
  apply ScanM.consult_bind_eq_performAll
  intro checkpoint
  cases matchers.shape with
  | code enclosures lineMarks => exact sweepAll_eq_performAll _ _
  | plainText => exact ScanM.consult_bind_eq_performAll fun _ => ScanM.recordAll_eq_performAll _ _

/-- A scan carries out its plan. -/
theorem scan_eq_ofPlan (matchers : Matchers) (text : String) (offset : Nat) (claims : ClaimSet)
    (checkpoint : σ) :
    matchers.scan text offset claims checkpoint =
      .ofPlan (matchers.plan text offset claims) claims checkpoint := by
  rw [scan, plan, Scanned.ofPlan]
  split
  · rw [performAll_nil]
    dsimp only
    rw [List.reverse_nil, TagRanges.collect_nil]
  · cases hperform : performAll (matchers.planText (Text.ofString text) offset claims)
        ⟨claims, [], checkpoint⟩ with
    | ok a s => simp only [scanText_eq_performAll, hperform]
    | error e s => simp only [scanText_eq_performAll, hperform]

end Matchers

/-- A plan with a current token beside the checkpoint leaves what it leaves without. -/
theorem Scanned.ofPlan_guarded {guard : TaskGuard}
    (hguard : guard.tracker.isCurrent guard.token = true) (plan : List ScanAction) (claims : ClaimSet)
    (checkpoint : σ) :
    ofPlan plan claims (guard, checkpoint) =
      let alone := ofPlan plan claims checkpoint
      ⟨alone.result, alone.claims, (guard, alone.checkpoint)⟩ := by
  rw [ofPlan, ofPlan, performAll_guarded hguard]
  cases performAll plan ⟨claims, [], checkpoint⟩ with
  | ok a t => rfl
  | error e t => rfl

/-- A scan of an engine carries out its plan with the caller's checkpoint: nothing refreshes the engine
meanwhile. -/
theorem Engine.scan_eq_ofPlan (engine : Engine) (files : Files) (id text : String) (offset : Nat)
    (claims : ClaimSet) (checkpoint : σ) :
    (engine.scan files id text offset claims checkpoint).value =
      .ofPlan (engine.plan files id text offset claims) claims checkpoint := by
  rw [scan, plan]
  dsimp only
  cases (engine.matchersFor files id).value with
  | none =>
    dsimp only [Option.map_none, Option.getD_none]
    rw [Scanned.ofPlan, performAll_nil]
    dsimp only
    rw [List.reverse_nil, TagRanges.collect_nil]
  | some matchers =>
    dsimp only [Option.map_some, Option.getD_some]
    rw [matchers.scan_eq_ofPlan, Scanned.ofPlan_guarded]
    exact TaskTracker.isCurrent_watch _

/-- The ranges and the claims that a plan leads to if it is carried out to its end. -/
theorem Scanned.ranges_ofPlan {plan : List ScanAction} {claims : ClaimSet} {checkpoint : σ}
    {ranges : TagRanges} (h : (ofPlan plan claims checkpoint).result = .ok ranges) :
    ranges = .collect (recorded plan) ∧
      (ofPlan plan claims checkpoint).claims = claims.claimAll (claimed plan) := by
  rw [ofPlan] at h ⊢
  cases hperform : performAll plan ⟨claims, [], checkpoint⟩ with
  | error e t =>
    rw [hperform] at h
    cases h
  | ok a t =>
    rw [hperform] at h
    cases h
    obtain ⟨hclaims, hfound⟩ := performAll_ok hperform
    refine ⟨?_, hclaims⟩
    rw [hfound, List.append_nil, List.reverse_reverse]

/-- The ranges of a scan are those that its plan records. -/
theorem Engine.eq_collect_of_scan {engine : Engine} {files : Files} {id text : String} {offset : Nat}
    {claims : ClaimSet} {checkpoint : σ} {ranges : TagRanges}
    (h : (engine.scan files id text offset claims checkpoint).value.result = .ok ranges) :
    ranges = .collect (recorded (engine.plan files id text offset claims)) := by
  rw [scan_eq_ofPlan] at h
  exact (Scanned.ranges_ofPlan h).1

end Plans

end CommentTags
