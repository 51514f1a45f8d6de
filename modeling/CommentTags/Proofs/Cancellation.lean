import CommentTags.Proofs.Plan

/-!
# Cancelling a scan is all or nothing

A checkpoint that counts how often it is asked may fail at any of its consultations. If it fails after the
last one of the scan, the scan does not notice. If it fails earlier, the scan ends at this very
consultation and answers no ranges; what is claimed by then is what the same scan would have claimed first.

## Main definitions

* `AllOrNothing`: how a scan ends, by the consultation at which it is cancelled.

## Main results

* `ScanAction.performAll_of_lt` and `ScanAction.performAll_of_le`: a plan whose checkpoint fails after its
  last consultation, and one whose checkpoint fails at one of them;
* `scan_allOrNothing`: scans with given matchers, and scans of an engine, are all or nothing.
-/

namespace CommentTags

namespace ScanAction

/-- What a plan with a claim at its front claims first is this span, unless it is empty, and then what the
rest claims first. -/
theorem exists_prefix_claimed_claim (claims : ClaimSet) (span : Span) {rest : List ScanAction}
    {first : List Span} (h : first <+: claimed rest) :
    ∃ first', first' <+: claimed (claim span :: rest) ∧
      claims.claimAll first' = (claims.claim span).claimAll first := by
  rw [claimed]
  by_cases hempty : span.isEmpty = true
  · rw [if_pos hempty, ClaimSet.claim_of_isEmpty hempty]
    exact ⟨first, h, rfl⟩
  · rw [if_neg hempty]
    exact ⟨span :: first, List.cons_prefix_cons.2 ⟨rfl, h⟩, rfl⟩

/-- No claim of a plan is empty. -/
theorem nonempty_of_mem_claimed {plan : List ScanAction} {span : Span} (h : span ∈ claimed plan) :
    span.start < span.stop := by
  induction plan with
  | nil => cases h
  | cons action rest ih =>
    cases action with
    | consult => exact ih h
    | record highlight => exact ih h
    | claim s =>
      rw [claimed] at h
      split at h
      · exact ih h
      · next hempty =>
        rcases List.mem_cons.1 h with rfl | h
        · simpa [Span.isEmpty_iff] using hempty
        · exact ih h

/-- A consultation that is not the one to fail is counted. -/
theorem consult_budget_of_lt {budget : Budget}
    (h : ∀ n, budget.failsAt = some n → budget.consulted + 1 < n) :
    Checkpoint.consult budget = (true, { budget with consulted := budget.consulted + 1 }) := by
  cases hfails : budget.failsAt with
  | none => simp [Checkpoint.consult, hfails]
  | some n => simp [Checkpoint.consult, hfails, h n hfails]

/-- The consultation that is to fail is counted as well. -/
theorem consult_budget_of_le {budget : Budget} {n : Nat} (hfails : budget.failsAt = some n)
    (h : n ≤ budget.consulted + 1) :
    Checkpoint.consult budget = (false, { budget with consulted := budget.consulted + 1 }) := by
  simp [Checkpoint.consult, hfails, h]

/-- A plan is carried out to its end, and all its consultations are counted, if the checkpoint does not fail
at any of them. -/
theorem performAll_of_lt (plan : List ScanAction) (claims : ClaimSet) (found : List Highlight)
    {budget : Budget}
    (h : ∀ n, budget.failsAt = some n → budget.consulted + consultations plan < n) :
    performAll plan ⟨claims, found, budget⟩ =
      .ok () ⟨claims.claimAll (claimed plan), (recorded plan).reverse ++ found,
        { budget with consulted := budget.consulted + consultations plan }⟩ := by
  induction plan generalizing claims found budget with
  | nil => rfl
  | cons action rest ih =>
    cases action with
    | claim span =>
      rw [performAll_claim, claimAll_claimed_claim]
      exact ih _ _ h
    | record highlight =>
      rw [performAll_record, recorded, List.reverse_cons, List.append_assoc]
      exact ih _ _ h
    | consult =>
      rw [consultations] at h ⊢
      -- one consultation is counted here, and the rest has one less left to pass
      have hnext := consult_budget_of_lt fun n hn => by
        have := h n hn
        omega
      rw [performAll_consult, hnext, if_pos rfl]
      dsimp only
      rw [ih claims found fun n hn => by
        have := h n hn
        dsimp only
        omega]
      simp only [claimed_consult, recorded, Nat.add_assoc, Nat.add_comm 1]

/-- A plan is cut off at the consultation that is to fail, after the first of its claims. -/
theorem performAll_of_le (plan : List ScanAction) (claims : ClaimSet) (found : List Highlight)
    (budget : Budget) {n : Nat} (hfails : budget.failsAt = some n) (hlt : budget.consulted < n)
    (hle : n ≤ budget.consulted + consultations plan) :
    ∃ first found', first <+: claimed plan ∧
      performAll plan ⟨claims, found, budget⟩ =
        .error .cancelled ⟨claims.claimAll first, found', { budget with consulted := n }⟩ := by
  induction plan generalizing claims found budget with
  | nil => exact absurd hle (by simpa [consultations] using hlt)
  | cons action rest ih =>
    cases action with
    -- the claim is made before whatever the rest makes until it is cut off
    | claim span =>
      obtain ⟨first, found', hfirst, hperform⟩ := ih (claims.claim span) found budget hfails hlt hle
      obtain ⟨first', hfirst', hclaims⟩ := exists_prefix_claimed_claim claims span hfirst
      refine ⟨first', found', hfirst', ?_⟩
      rw [performAll_claim, hclaims]
      exact hperform
    | record highlight =>
      rw [performAll_record]
      exact ih claims (highlight :: found) budget hfails hlt hle
    | consult =>
      rw [consultations] at hle
      rw [performAll_consult]
      by_cases hnow : n = budget.consulted + 1
      -- the checkpoint fails before anything else is done
      · rw [consult_budget_of_le hfails (by omega), ← hnow]
        exact ⟨[], found, List.nil_prefix, rfl⟩
      -- the checkpoint agrees, and the rest is cut off at the same consultation
      · have hnext : Checkpoint.consult budget =
            (true, { budget with consulted := budget.consulted + 1 }) :=
          consult_budget_of_lt fun m hm => by
            rw [hfails] at hm
            cases hm
            omega
        rw [hnext, if_pos rfl]
        exact ih claims found _ hfails (by dsimp only; omega) (by dsimp only; omega)

end ScanAction

/-- The run of `scan` that is never cancelled answers `ranges` and adds the claims `made`, in this order, to
`claims`. A run whose checkpoint would fail after the last consultation of that run ends in the same way. A
run whose checkpoint fails at one of these consultations ends there, without ranges and with the first of
the claims made. -/
structure AllOrNothing (claims : ClaimSet) (ranges : TagRanges) (made : List Span)
    (scan : Budget → Scanned Budget) : Prop where
  /-- No claim is empty. -/
  nonempty : ∀ span ∈ made, span.start < span.stop
  /-- What the run answers that is never cancelled. -/
  answers : (scan {}).result = .ok ranges
  /-- What the run leaves claimed that is never cancelled. -/
  leaves : (scan {}).claims = claims.claimAll made
  /-- A checkpoint that fails later than it is consulted makes no difference. -/
  whole : ∀ n, (scan {}).checkpoint.consulted < n →
    (scan { failsAt := some n }).result = .ok ranges ∧
      (scan { failsAt := some n }).claims = claims.claimAll made
  /-- A checkpoint that fails at one of the consultations ends the scan there. -/
  cut : ∀ n, 1 ≤ n → n ≤ (scan {}).checkpoint.consulted →
    (scan { failsAt := some n }).result = .error .cancelled ∧
      (scan { failsAt := some n }).checkpoint.consulted = n ∧
      ∃ first, first <+: made ∧ (scan { failsAt := some n }).claims = claims.claimAll first

/-- To carry out a plan is all or nothing. -/
theorem Scanned.allOrNothing_ofPlan (plan : List ScanAction) (claims : ClaimSet) :
    AllOrNothing claims (.collect (ScanAction.recorded plan)) (ScanAction.claimed plan)
      (Scanned.ofPlan plan claims) := by
  have hwhole {budget : Budget} (h : ∀ n, budget.failsAt = some n →
      budget.consulted + ScanAction.consultations plan < n) :
      ofPlan plan claims budget =
        ⟨.ok (.collect (ScanAction.recorded plan)), claims.claimAll (ScanAction.claimed plan),
          { budget with consulted := budget.consulted + ScanAction.consultations plan }⟩ := by
    rw [ofPlan, ScanAction.performAll_of_lt plan claims [] h, List.append_nil]
    dsimp only
    rw [List.reverse_reverse]
  have hnever : ofPlan plan claims ({} : Budget) =
      ⟨.ok (.collect (ScanAction.recorded plan)), claims.claimAll (ScanAction.claimed plan),
        { consulted := 0 + ScanAction.consultations plan }⟩ :=
    hwhole fun n hn => by cases hn
  refine ⟨fun _ => ScanAction.nonempty_of_mem_claimed, ?_, ?_, ?_, ?_⟩
  · rw [hnever]
  · rw [hnever]
  · intro n hn
    rw [hnever] at hn
    rw [hwhole fun m hm => by cases hm; exact hn]
    exact ⟨rfl, rfl⟩
  · intro n hpos hn
    rw [hnever] at hn
    obtain ⟨first, found, hfirst, hperform⟩ := ScanAction.performAll_of_le plan claims []
      { failsAt := some n } rfl hpos hn
    rw [ofPlan, hperform]
    exact ⟨rfl, rfl, first, hfirst, rfl⟩

/-- Whatever is scanned, from whatever claims, cancellation is all or nothing, for scans with given matchers
as well as for scans of an engine: the claims made are those of the scan's plan, in order. -/
theorem scan_allOrNothing (text : String) (offset : Nat) (claims : ClaimSet) :
    (∀ matchers : Matchers, ∃ ranges,
      AllOrNothing claims ranges (ScanAction.claimed (matchers.plan text offset claims))
        (fun budget => matchers.scan text offset claims budget)) ∧
    ∀ (engine : Engine) (files : Files) (id : String), ∃ ranges,
      AllOrNothing claims ranges (ScanAction.claimed (engine.plan files id text offset claims))
        (fun budget => (engine.scan files id text offset claims budget).value) := by
  constructor
  · intro matchers
    simp only [Matchers.scan_eq_ofPlan]
    exact ⟨_, Scanned.allOrNothing_ofPlan _ claims⟩
  · intro engine files id
    simp only [Engine.scan_eq_ofPlan]
    exact ⟨_, Scanned.allOrNothing_ofPlan _ claims⟩

end CommentTags
