import CommentTags.Json.Draft

/-!
# Decoding

Decoders walk over a draft from left to right and answer a value, or the fault they meet first.

## Main definitions

* `Draft.toBool`, `Draft.toText`, `Draft.toNatural`, `Draft.toOption`, `Draft.toList`: decode values of
  one shape;
* `Draft.members`: the fields of a record, which may also be written as the list of its fields'
  values in a fixed order;
* `decodeText` and `decodeValue`: decode a whole text, and a value that is no text any more.
-/

namespace CommentTags.Json

namespace Draft

/-- A truth value. -/
def toBool : Draft → Except Fault Bool
  | bool b => .ok b
  | d => .error d.reject

/-- A string. -/
def toText : Draft → Except Fault String
  | text (.ok s) => .ok s
  | d => .error d.reject

/-- A natural number that fits into 64 bits. -/
def toNatural : Draft → Except Fault Nat
  | number (.ok (.natural n)) => .ok n
  | d => .error d.reject

/-- A value that `decode` accepts, or `null`. -/
def toOption {α : Type} (decode : Draft → Except Fault α) : Draft → Except Fault (Option α)
  | null => .ok none
  | d => (decode d).map some

/-- A list of values that `decode` accepts. -/
def toList {α : Type} (decode : Draft → Except Fault α) : Draft → Except Fault (List α)
  | list items stop => do
    let values ← items.mapM decode
    match stop with
    | some cause => .error cause.kept
    | none => .ok values
  | d => .error d.reject

end Draft

/-- The fields of a record in the order they are read. -/
structure Members where
  /-- The names and values. -/
  fields : List (Except Fault String × Draft)
  /-- The fault that follows the last field. -/
  stop : Option Fault

/-- Which lists may stand for a record. -/
inductive Tail where
  /-- Lists that lack the last fields. -/
  | optional
  /-- Only lists with all fields. -/
  | required
deriving DecidableEq, Repr

/-- The fields of a record whose fields are called `names`. In a list the values stand in the order of
the names. -/
def Draft.members (names : List String) (tail : Tail) : Draft → Except Fault Members
  | .record fields stop => .ok ⟨fields, stop.map Break.kept⟩
  | .list items stop => .ok {
      fields := (names.zip items).map fun (name, item) => (.ok name, item)
      stop :=
        if names.length < items.length then some .surplus
        else if items.length < names.length && tail == .required then
          some ((stop.map Break.kept).getD .mismatch)
        else stop.map Break.kept }
  | d => .error d.reject

namespace Members

/-- Gives the fields to `set` one after the other, starting from `init`. -/
def read {α : Type} (members : Members) (set : α → String → Draft → Except Fault α) (init : α) :
    Except Fault α := do
  let value ← members.fields.foldlM
    (fun value (name, field) => do set value (← name) field) init
  match members.stop with
  | some fault => .error fault
  | none => .ok value

end Members

/-- The value of a field that is read for the first time; a second field with its name is a fault. -/
def once {α : Type} (earlier : Option α) (decode : Draft → Except Fault α) (field : Draft) :
    Except Fault (Option α) :=
  match earlier with
  | some _ => .error .mismatch
  | none => (decode field).map some

/-- Decodes a text. What follows the value may only be blank. -/
def decodeText {α : Type} (decode : Draft → Except Fault α) (s : String) : Except Fault α := do
  let (draft, followed) := Draft.ofText s
  let value ← decode draft
  if followed then .error .malformed else .ok value

/-- Decodes a value. Only its shape can be wrong. -/
def decodeValue {α : Type} (decode : Draft → Except Fault α) (value : Json) : Except Fault α :=
  (decode (Draft.ofJson value)).mapError Fault.inValue

/-- The value of a text. -/
def ofText (s : String) : Except Fault Json :=
  decodeText (Draft.toJson? Draft.maxDepth) s

end CommentTags.Json
