import CommentTags.Task

/-!
# Checkpoints that never fail

A scan consults its checkpoint again and again, and a checkpoint may change by being asked. What counts
for a whole scan is therefore not one answer but all of them: a checkpoint `Checkpoint.Allows` work if it
lets it go on however often it is asked.

A pair allows work iff both of its parts do (`Checkpoint.allows_prod_iff`), and a token does iff it is
current (`TaskGuard.allows_iff`).
-/

namespace CommentTags

namespace Checkpoint

variable {σ τ : Type} [Checkpoint σ] [Checkpoint τ]

/-- However often the checkpoint is consulted, it lets work go on: it has a property that makes it agree
and that it keeps when it is asked. -/
def Allows (c : σ) : Prop :=
  ∃ Agrees : σ → Prop, Agrees c ∧ ∀ c, Agrees c → (consult c).1 = true ∧ Agrees (consult c).2

theorem Allows.consult {c : σ} (h : Allows c) :
    (Checkpoint.consult c).1 = true ∧ Allows (Checkpoint.consult c).2 := by
  obtain ⟨Agrees, hc, hkeeps⟩ := h
  exact ⟨(hkeeps c hc).1, Agrees, (hkeeps c hc).2, hkeeps⟩

/-- A checkpoint of a kind that never fails allows work. -/
theorem allows_of_forall (hσ : ∀ c : σ, (Checkpoint.consult c).1 = true) (c : σ) : Allows c :=
  ⟨fun _ => True, trivial, fun c _ => ⟨hσ c, trivial⟩⟩

/-- A pair is asked part by part, the second part only if the first agrees. -/
theorem consult_prod (a : σ) (b : τ) :
    Checkpoint.consult (a, b) =
      if (Checkpoint.consult a).1 then
        ((Checkpoint.consult b).1, (Checkpoint.consult a).2, (Checkpoint.consult b).2)
      else (false, (Checkpoint.consult a).2, b) := by
  rw [Checkpoint.consult, instCheckpointProd]
  dsimp only
  cases Checkpoint.consult a with
  | mk answer a' => cases answer <;> rfl

/-- A pair allows work iff both of its parts do. -/
theorem allows_prod_iff {a : σ} {b : τ} : Allows (a, b) ↔ Allows a ∧ Allows b := by
  constructor
  · intro h
    refine ⟨⟨fun a => ∃ b : τ, Allows (a, b), ⟨b, h⟩, ?_⟩, ⟨fun b => ∃ a : σ, Allows (a, b), ⟨a, h⟩, ?_⟩⟩
    · rintro a ⟨b, hab⟩
      obtain ⟨hagrees, hnext⟩ := hab.consult
      rw [consult_prod] at hagrees hnext
      split at hagrees
      · next ha =>
        rw [if_pos ha] at hnext
        exact ⟨ha, _, hnext⟩
      · cases hagrees
    · rintro b ⟨a, hab⟩
      obtain ⟨hagrees, hnext⟩ := hab.consult
      rw [consult_prod] at hagrees hnext
      split at hagrees
      · next ha =>
        rw [if_pos ha] at hnext
        exact ⟨hagrees, _, hnext⟩
      · cases hagrees
  · rintro ⟨ha, hb⟩
    refine ⟨fun c => Allows c.1 ∧ Allows c.2, ⟨ha, hb⟩, ?_⟩
    rintro ⟨a, b⟩ ⟨ha, hb⟩
    rw [consult_prod, if_pos ha.consult.1]
    exact ⟨hb.consult.1, ha.consult.2, hb.consult.2⟩

end Checkpoint

/-- A token that was just asked for is current. -/
theorem TaskTracker.isCurrent_watch (tracker : TaskTracker) : tracker.isCurrent tracker.watch = true :=
  beq_self_eq_true _

/-- The token of a task is current when the task starts. -/
theorem TaskTracker.isCurrent_begin (tracker : TaskTracker) :
    tracker.begin.2.isCurrent tracker.begin.1 = true :=
  beq_self_eq_true _

/-- A token allows work iff it is current. -/
theorem TaskGuard.allows_iff {g : TaskGuard} :
    Checkpoint.Allows g ↔ g.tracker.isCurrent g.token = true := by
  constructor
  · intro h
    exact h.consult.1
  · intro h
    exact ⟨fun g => g.tracker.isCurrent g.token = true, h, fun g hg => ⟨hg, hg⟩⟩

end CommentTags
