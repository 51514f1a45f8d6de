/-!
# Checkpoints

A scan can be interrupted at certain points. At each of them it consults a checkpoint, a value that
answers whether the scan may go on and may change by being asked. A pair interrupts when one of its parts
does; the second is only asked if the first agrees.

## Main definitions

* `Checkpoint`: values that can be asked whether work may go on;
* `Unlimited`: never interrupts, while a `Bool` always gives the same answer;
* `Budget`: counts the consultations and interrupts from a given one on.
-/

namespace CommentTags

/-- The outcome of work that was interrupted at a checkpoint. -/
inductive Cancelled where
  /-- Newer work has made this work void. -/
  | cancelled
deriving DecidableEq, Repr, Inhabited

/-- How an interruption is reported. -/
def Cancelled.message : Cancelled → String
  | cancelled => "scan cancelled by a newer task"

/-- Values that can be asked whether work may go on. -/
class Checkpoint (σ : Type) where
  /-- Whether work may go on, and the checkpoint after being asked. -/
  consult : σ → Bool × σ

/-- A checkpoint that never interrupts. -/
structure Unlimited where
deriving DecidableEq, Repr, Inhabited

instance : Checkpoint Unlimited := ⟨fun c => (true, c)⟩

instance : Checkpoint Bool := ⟨fun b => (b, b)⟩

/-- A checkpoint that counts how often it is consulted. -/
structure Budget where
  /-- The number of consultations so far, the failed ones included. -/
  consulted : Nat := 0
  /-- The number of the first consultation that fails, if any does. -/
  failsAt : Option Nat := none
deriving DecidableEq, Repr, Inhabited

instance : Checkpoint Budget :=
  ⟨fun b =>
    let call := b.consulted + 1
    (b.failsAt.all (call < ·), { b with consulted := call })⟩

instance {σ τ : Type} [Checkpoint σ] [Checkpoint τ] : Checkpoint (σ × τ) :=
  ⟨fun (a, b) =>
    match Checkpoint.consult a with
    | (false, a) => (false, a, b)
    | (true, a) =>
      let (answer, b) := Checkpoint.consult b
      (answer, a, b)⟩

end CommentTags
