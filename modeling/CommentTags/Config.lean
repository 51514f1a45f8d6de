import CommentTags.Json.Decode
import CommentTags.Tag.Entry

/-!
# Scan configuration

`ScanConfig` is all that a host can configure. It is read from JSON; every field may be left out.

## Main definitions

* `ScanConfig.ofText` and `ScanConfig.ofValue`: the configuration in a text and in a value;
* `ScanConfig.styleFor`: the style of a tag under a color theme.
-/

namespace CommentTags

open Json

namespace TagNames

/-- The number of lists and objects around the names of a tag in a configuration. -/
def depthInConfig : Nat := 3

/-- Reads one name or a list of names. The value is kept as a whole before its shape counts. -/
def decode (d : Draft) : Except Fault TagNames := do
  let _ ← d.toJson? (Draft.maxDepth - depthInConfig)
  match d with
  | .text (.ok name) => .ok (.one name)
  | d => (d.toList Draft.toText).map .many

end TagNames

namespace TagEntry

/-- The fields of a tag entry, as far as they have been read. -/
structure Fields where
  /-- The names. -/
  tag : Option TagNames := none
  /-- The text color. -/
  color : Option (Option String) := none
  /-- The background color. -/
  backgroundColor : Option (Option String) := none
  /-- Whether the text is struck through. -/
  strikethrough : Option (Option Bool) := none
  /-- Whether the text is underlined. -/
  underline : Option (Option Bool) := none
  /-- Whether the text is bold. -/
  bold : Option (Option Bool) := none
  /-- Whether the text is italic. -/
  italic : Option (Option Bool) := none
  /-- Whether the highlight goes on over the following lines. -/
  multiline : Option Bool := none

/-- The names of the fields, in the order in which a list gives their values. -/
def fieldNames : List String :=
  ["tag", "color", "backgroundColor", "strikethrough", "underline", "bold", "italic", "multiline"]

/-- Reads the field called `name`; fields with other names are skipped. -/
def Fields.set (fields : Fields) (name : String) (d : Draft) : Except Fault Fields :=
  match name with
  | "tag" => return { fields with tag := ← once fields.tag TagNames.decode d }
  | "color" => return { fields with color := ← once fields.color (Draft.toOption Draft.toText) d }
  | "backgroundColor" => return { fields with
      backgroundColor := ← once fields.backgroundColor (Draft.toOption Draft.toText) d }
  | "strikethrough" => return { fields with
      strikethrough := ← once fields.strikethrough (Draft.toOption Draft.toBool) d }
  | "underline" => return { fields with
      underline := ← once fields.underline (Draft.toOption Draft.toBool) d }
  | "bold" => return { fields with bold := ← once fields.bold (Draft.toOption Draft.toBool) d }
  | "italic" => return { fields with italic := ← once fields.italic (Draft.toOption Draft.toBool) d }
  | "multiline" => return { fields with multiline := ← once fields.multiline Draft.toBool d }
  | _ => do
    d.skip
    return fields

/-- The entry with the given fields; only the names may not be left out. -/
def Fields.entry (fields : Fields) : Except Fault TagEntry :=
  match fields.tag with
  | none => .error .mismatch
  | some tag => .ok {
      tag
      color := fields.color.join
      backgroundColor := fields.backgroundColor.join
      strikethrough := fields.strikethrough.join
      underline := fields.underline.join
      bold := fields.bold.join
      italic := fields.italic.join
      multiline := fields.multiline.getD false }

/-- Reads a tag entry. -/
def decode (d : Draft) : Except Fault TagEntry := do
  let members ← d.members fieldNames .optional
  (← members.read Fields.set {}).entry

/-- Reads a list of tag entries. -/
def decodeList (d : Draft) : Except Fault (List TagEntry) :=
  d.toList decode

end TagEntry

/-- A color theme. -/
inductive Theme where
  /-- Light background. -/
  | light
  /-- Dark background. -/
  | dark
deriving DecidableEq, Repr, Inhabited

/-- What a host can configure. -/
structure ScanConfig where
  /-- Look for doc comments and block comments. -/
  multilineComments : Bool := true
  /-- Look for doc comments, in languages that have them. -/
  useJSDocStyle : Bool := true
  /-- Scan plain text. -/
  highlightPlainText : Bool := false
  /-- The tags. -/
  tags : List TagEntry := [
    .named "!" "#FF2D00",
    .named "?" "#3498DB",
    { TagEntry.named "//" "#474747" with strikethrough := some true },
    .named "todo" "#FF8C00",
    .named "*" "#98C379"]
  /-- Styles that differ in the light theme. -/
  tagsLight : List TagEntry := []
  /-- Styles that differ in the dark theme. -/
  tagsDark : List TagEntry := []
  /-- How many lines above and below the visible ones the first pass scans. -/
  preloadLines : Nat := 100
  /-- Milliseconds between the first pass and the pass over the whole document. -/
  updateDelay : Nat := 100
  /-- Milliseconds that a request waits for further ones. -/
  debounce : Nat := 100
deriving DecidableEq, Repr, Inhabited

namespace ScanConfig

/-- The configuration in which every field is left out. -/
def default : ScanConfig := {}

/-- The fields of a configuration, as far as they have been read. -/
structure Fields where
  /-- Look for doc comments and block comments. -/
  multilineComments : Option Bool := none
  /-- Look for doc comments. -/
  useJSDocStyle : Option Bool := none
  /-- Scan plain text. -/
  highlightPlainText : Option Bool := none
  /-- The tags. -/
  tags : Option (List TagEntry) := none
  /-- Styles that differ in the light theme. -/
  tagsLight : Option (List TagEntry) := none
  /-- Styles that differ in the dark theme. -/
  tagsDark : Option (List TagEntry) := none
  /-- Lines above and below the visible ones. -/
  preloadLines : Option Nat := none
  /-- Milliseconds between the passes. -/
  updateDelay : Option Nat := none
  /-- Milliseconds that a request waits. -/
  debounce : Option Nat := none

/-- The names of the fields, in the order in which a list gives their values. -/
def fieldNames : List String :=
  ["multilineComments", "useJSDocStyle", "highlightPlainText", "tags", "tagsLight", "tagsDark",
    "preloadLines", "updateDelay", "debounce"]

/-- Reads the field called `name`; fields with other names are skipped. -/
def Fields.set (fields : Fields) (name : String) (d : Draft) : Except Fault Fields :=
  match name with
  | "multilineComments" => return { fields with
      multilineComments := ← once fields.multilineComments Draft.toBool d }
  | "useJSDocStyle" => return { fields with
      useJSDocStyle := ← once fields.useJSDocStyle Draft.toBool d }
  | "highlightPlainText" => return { fields with
      highlightPlainText := ← once fields.highlightPlainText Draft.toBool d }
  | "tags" => return { fields with tags := ← once fields.tags TagEntry.decodeList d }
  | "tagsLight" => return { fields with tagsLight := ← once fields.tagsLight TagEntry.decodeList d }
  | "tagsDark" => return { fields with tagsDark := ← once fields.tagsDark TagEntry.decodeList d }
  | "preloadLines" => return { fields with
      preloadLines := ← once fields.preloadLines Draft.toNatural d }
  | "updateDelay" => return { fields with updateDelay := ← once fields.updateDelay Draft.toNatural d }
  | "debounce" => return { fields with debounce := ← once fields.debounce Draft.toNatural d }
  | _ => do
    d.skip
    return fields

/-- The configuration with the given fields, the others as by default. -/
def Fields.config (fields : Fields) : ScanConfig where
  multilineComments := fields.multilineComments.getD default.multilineComments
  useJSDocStyle := fields.useJSDocStyle.getD default.useJSDocStyle
  highlightPlainText := fields.highlightPlainText.getD default.highlightPlainText
  tags := fields.tags.getD default.tags
  tagsLight := fields.tagsLight.getD default.tagsLight
  tagsDark := fields.tagsDark.getD default.tagsDark
  preloadLines := fields.preloadLines.getD default.preloadLines
  updateDelay := fields.updateDelay.getD default.updateDelay
  debounce := fields.debounce.getD default.debounce

/-- Reads a configuration. -/
def decode (d : Draft) : Except Fault ScanConfig := do
  let members ← d.members fieldNames .optional
  return (← members.read Fields.set {}).config

/-- The configuration written as the JSON text `s`. -/
def ofText (s : String) : Except Fault ScanConfig :=
  decodeText decode s

/-- The configuration that the JSON value `value` describes. -/
def ofValue (value : Json) : Except Fault ScanConfig :=
  decodeValue decode value

/-- How a fault in a configuration is reported. -/
def faultMessage (fault : Fault) : String :=
  "configuration JSON error: " ++ fault.category

/-- The style of the tag `name` under `theme`: that of the first entry with the name, overridden by the
first entry of the theme with the name. A tag without an entry has no style. -/
def styleFor (config : ScanConfig) (name : String) (theme : Theme) : Option TagStyle := do
  let entry ← config.tags.find? (·.namesTag name)
  let themeEntries := match theme with
    | .light => config.tagsLight
    | .dark => config.tagsDark
  match themeEntries.find? (·.namesTag name) with
  | some override => return entry.style.overriddenBy override
  | none => return entry.style

end ScanConfig

end CommentTags
