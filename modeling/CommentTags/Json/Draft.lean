import CommentTags.Json.Basic
import CommentTags.Json.Lexeme

/-!
# JSON texts as far as they can be read

A `Draft` is what a reader sees of a JSON text from left to right: values in the order they stand, fields
with repeated names included, and at the place where reading stops the reason why. What a reader makes
of the text, and which fault it meets first, is decided by walking over the draft.

## Main definitions

* `Draft.ofText`: the draft of a text, and whether anything follows the value;
* `Draft.ofJson`: the draft of a value, in which nothing is broken;
* `Draft.toJson?`: keeps a draft as a value, if lists and objects are not nested too deeply.
-/

namespace CommentTags.Json

/-- A JSON text up to where reading stops. -/
inductive Draft where
  /-- The value `null`. -/
  | null
  /-- A truth value. -/
  | bool (b : Bool)
  /-- A number, or the fault it is to a reader that keeps it. -/
  | number (kept : Except Fault Numeral)
  /-- A string, or the fault it is to a reader that keeps it. -/
  | text (kept : Except Fault String)
  /-- A list, and why it is not complete. -/
  | list (items : List Draft) (stop : Option Break)
  /-- Fields in order, and why they are not complete. -/
  | record (fields : List (Except Fault String × Draft)) (stop : Option Break)
  /-- A place where a value is expected and reading stops. -/
  | broken (cause : Break)

namespace Draft

/-- A list or record that is being read, with its parts read so far, last first. -/
inductive Frame where
  /-- A list. -/
  | list (items : List Draft)
  /-- A record. -/
  | record (fields : List (Except Fault String × Draft))
  /-- A record whose last field has a name but no value yet. -/
  | field (fields : List (Except Fault String × Draft)) (name : Except Fault String)

/-- What may come next. -/
inductive Expected where
  /-- A value. -/
  | value
  /-- A first value, or the end of the list. -/
  | valueOrClose
  /-- A first name, or the end of the record. -/
  | nameOrClose
  /-- A name. -/
  | name
  /-- A colon. -/
  | colon
  /-- A comma, or the end of the list or record. -/
  | separator

/-- The draft of a text in which reading stops for `cause` while the `frames`, innermost first, are
open. -/
def abandon (cause : Break) (inner : Option Draft) : List Frame → Draft
  | [] => inner.getD (.broken cause)
  | .list items :: frames =>
    abandon cause (some (.list (inner.toList ++ items).reverse (some cause))) frames
  | .record fields :: frames => abandon cause (some (.record fields.reverse (some cause))) frames
  | .field fields name :: frames =>
    abandon cause
      (some (.record ((name, inner.getD (.broken cause)) :: fields).reverse (some cause))) frames

/-- The value of a lexeme that is a value by itself. -/
def leaf? : Lexeme → Option Draft
  | .null => some .null
  | .bool b => some (.bool b)
  | .number kept => some (.number kept)
  | .text kept => some (.text kept)
  | _ => none

/-- What a lexeme does to the open frames. -/
inductive Move where
  /-- Go on with these frames. -/
  | go (expected : Expected) (frames : List Frame)
  /-- A value is complete and stands in these frames. -/
  | finish (value : Draft) (frames : List Frame)
  /-- Reading stops, perhaps in the place of a value. -/
  | stop (cause : Break) (inner : Option Draft)

/-- A lexeme in the place of a value. -/
def moveValue (frames : List Frame) : Lexeme → Move
  | .openList => .go .valueOrClose (.list [] :: frames)
  | .openRecord => .go .nameOrClose (.record [] :: frames)
  | .brokenText cause => .stop cause (some (.broken cause))
  | .broken cause => .stop cause (some (.broken cause))
  | lexeme =>
    match leaf? lexeme with
    | some value => .finish value frames
    | none => .stop (.both .malformed) (some (.broken (.both .malformed)))

/-- A lexeme in the place of a name. -/
def moveName : Lexeme → List Frame → Move
  | .text kept, .record fields :: frames => .go .colon (.field fields kept :: frames)
  | .brokenText cause, _ => .stop cause none
  | _, _ => .stop (.both .malformed) none

/-- What `lexeme` does to the open `frames`, innermost first. -/
def move (expected : Expected) (frames : List Frame) (lexeme : Lexeme) : Move :=
  match expected, lexeme, frames with
  | .valueOrClose, .closeList, .list items :: frames => .finish (.list items.reverse none) frames
  | .separator, .closeList, .list items :: frames => .finish (.list items.reverse none) frames
  | .nameOrClose, .closeRecord, .record fields :: frames =>
    .finish (.record fields.reverse none) frames
  | .separator, .closeRecord, .record fields :: frames =>
    .finish (.record fields.reverse none) frames
  | .separator, .comma, .list _ :: _ => .go .value frames
  | .separator, .comma, .record _ :: _ => .go .name frames
  | .colon, .colon, _ => .go .value frames
  | .value, _, _ => moveValue frames lexeme
  | .valueOrClose, _, _ => moveValue frames lexeme
  | .name, _, _ => moveName lexeme frames
  | .nameOrClose, _, _ => moveName lexeme frames
  | _, _, _ => .stop (.both .malformed) none

/-- Reads `lexemes` into the open `frames`. The answer is the draft and whether anything follows it. -/
def build (expected : Expected) (frames : List Frame) : List Lexeme → Draft × Bool
  | [] =>
    let inner := match expected with
      | .value => some (.broken (.both .endOfInput))
      | _ => none
    (abandon (.both .endOfInput) inner frames, false)
  | lexeme :: rest =>
    match move expected frames lexeme with
    | .go expected frames => build expected frames rest
    | .stop cause inner => (abandon cause inner frames, false)
    | .finish value [] => (value, !rest.isEmpty)
    | .finish value (.list items :: frames) => build .separator (.list (value :: items) :: frames) rest
    | .finish value (.field fields name :: frames) =>
      build .separator (.record ((name, value) :: fields) :: frames) rest
    | .finish _ (.record fields :: frames) => build .separator (.record fields :: frames) rest

/-- The draft of a text, and whether anything but blanks follows the value. -/
def ofText (s : String) : Draft × Bool :=
  build .value [] (Lexeme.ofChars s.toList)

/-- The fault that a value of the wrong shape is. A value that cannot be kept is faulty whatever its
shape. -/
def reject : Draft → Fault
  | number (.error fault) => fault
  | text (.error fault) => fault
  | broken cause => cause.kept
  | _ => .mismatch

/-- Passes over a value without keeping it. -/
def skip : Draft → Except Fault Unit
  | list _ (some cause) => .error cause.skipped
  | record _ (some cause) => .error cause.skipped
  | broken cause => .error cause.skipped
  | _ => .ok ()

/-- Keeps the fields of a record as those of an object; of two fields with one name the last counts. -/
def keepFields (keep : Draft → Except Fault Json) (kept : List (String × Json)) :
    List (Except Fault String × Draft) → Except Fault (List (String × Json))
  | [] => .ok kept
  | (name, value) :: rest => do
    let name ← name
    let value ← keep value
    keepFields keep (Json.setField kept name value) rest

/-- Keeps a draft as a value, in which lists and objects are nested at most `depth` deep. -/
def toJson? (depth : Nat) (d : Draft) : Except Fault Json :=
  match depth, d with
  | _, null => .ok .null
  | _, bool b => .ok (.bool b)
  | _, number kept => kept.map .number
  | _, text kept => kept.map .string
  | _, broken cause => .error cause.kept
  | 0, _ => .error .malformed
  | depth + 1, list items stop => do
    let items ← items.mapM (toJson? depth)
    match stop with
    | some cause => .error cause.kept
    | none => .ok (.array items)
  | depth + 1, record fields stop => do
    let fields ← keepFields (toJson? depth) [] fields
    match stop with
    | some cause => .error cause.kept
    | none => .ok (.object fields)

/-- The greatest depth to which lists and objects may be nested in a text whose values are kept. -/
def maxDepth : Nat := 127

mutual

/-- The draft of a value. -/
def ofJson : Json → Draft
  | .null => null
  | .bool b => bool b
  | .number n => number (.ok n)
  | .string s => text (.ok s)
  | .array items => list (ofItems items) none
  | .object fields => record (ofFields fields) none

/-- The drafts of the elements of a list. -/
def ofItems : List Json → List Draft
  | [] => []
  | item :: rest => ofJson item :: ofItems rest

/-- The drafts of the fields of an object. -/
def ofFields : List (String × Json) → List (Except Fault String × Draft)
  | [] => []
  | (name, value) :: rest => (.ok name, ofJson value) :: ofFields rest

end

end Draft

end CommentTags.Json
