import CommentTags.Json.Numeral

/-!
# JSON values

A JSON value as a host holds it: every field of an object has a name of its own.
-/

namespace CommentTags

/-- A JSON value. -/
inductive Json where
  /-- The value `null`. -/
  | null
  /-- A truth value. -/
  | bool (b : Bool)
  /-- A number. -/
  | number (n : Json.Numeral)
  /-- A string. -/
  | string (s : String)
  /-- A list of values. -/
  | array (items : List Json)
  /-- Values by name. -/
  | object (fields : List (String × Json))
deriving Repr, Inhabited

namespace Json

/-- The field `name` of an object. -/
def field? (name : String) : Json → Option Json
  | object fields => (fields.find? (·.1 == name)).map (·.2)
  | _ => none

/-- `fields` with the value of `name` replaced, or added at the end. -/
def setField (fields : List (String × Json)) (name : String) (value : Json) :
    List (String × Json) :=
  match fields with
  | [] => [(name, value)]
  | (n, v) :: rest => if n == name then (n, value) :: rest else (n, v) :: setField rest name value

end Json

end CommentTags
