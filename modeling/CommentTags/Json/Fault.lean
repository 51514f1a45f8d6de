/-!
# Faults of JSON texts

What is wrong with a JSON text, or with a value that is to be read as something else.

A reader either keeps a value or skips it, and skipping is the more lenient: it accepts an escape that is
half of a surrogate pair, and a number too large for any double. A `Break` holds one fault for either
case.

## Main definitions

* `Fault`: the first thing wrong with a text, and `Fault.category`, how it is reported;
* `Break`: why reading stops at a place.
-/

namespace CommentTags.Json

/-- The first thing wrong with a text or value. -/
inductive Fault where
  /-- The text ends too early. -/
  | endOfInput
  /-- The text is not JSON. -/
  | malformed
  /-- The value has the wrong shape. -/
  | mismatch
  /-- A list has more elements than the record it stands for has fields. -/
  | surplus
deriving DecidableEq, Repr, Inhabited

/-- How a fault in a text is reported. The reader of a text gives up at a surplus element. -/
def Fault.category : Fault → String
  | endOfInput => "eof"
  | malformed => "syntax"
  | mismatch => "data"
  | surplus => "syntax"

/-- A fault found in a value that is no text any more: all that can be wrong is its shape. -/
def Fault.inValue (_ : Fault) : Fault :=
  mismatch

/-- Why reading stops at a place. -/
structure Break where
  /-- The fault for a reader that keeps the value. -/
  kept : Fault
  /-- The fault for a reader that skips it. -/
  skipped : Fault
deriving DecidableEq, Repr, Inhabited

/-- A break with the same fault for either reader. -/
def Break.both (fault : Fault) : Break :=
  ⟨fault, fault⟩

end CommentTags.Json
