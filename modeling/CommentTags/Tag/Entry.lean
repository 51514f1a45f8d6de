/-!
# Tag entries and styles

A configuration lists tag entries: one or more names with one style. `TagStyle` is the style an entry
describes; a theme entry overrides those of its fields that it sets.
-/

namespace CommentTags

/-- The names of a tag entry. -/
inductive TagNames where
  /-- A single name. -/
  | one (name : String)
  /-- Several names with one style. -/
  | many (names : List String)
deriving DecidableEq, Repr, Inhabited

/-- The names in the order given. -/
def TagNames.toList : TagNames → List String
  | one name => [name]
  | many names => names

/-- One entry of a tag list. Fields without a value leave the style as it is. -/
structure TagEntry where
  /-- The names of the tags. -/
  tag : TagNames
  /-- The text color. -/
  color : Option String := none
  /-- The background color. -/
  backgroundColor : Option String := none
  /-- Whether the text is struck through. -/
  strikethrough : Option Bool := none
  /-- Whether the text is underlined. -/
  underline : Option Bool := none
  /-- Whether the text is bold. -/
  bold : Option Bool := none
  /-- Whether the text is italic. -/
  italic : Option Bool := none
  /-- Whether the highlight goes on over indented lines that follow. -/
  multiline : Bool := false
deriving DecidableEq, Repr, Inhabited

/-- How the text of a tag is shown. -/
structure TagStyle where
  /-- The text color. -/
  color : Option String := none
  /-- The background color. -/
  backgroundColor : Option String := none
  /-- The text is struck through. -/
  strikethrough : Bool := false
  /-- The text is underlined. -/
  underline : Bool := false
  /-- The text is bold. -/
  bold : Bool := false
  /-- The text is italic. -/
  italic : Bool := false
deriving DecidableEq, Repr, Inhabited

namespace TagStyle

/-- The style with every field that `entry` sets taken from `entry`. -/
def overriddenBy (style : TagStyle) (entry : TagEntry) : TagStyle where
  color := entry.color.or style.color
  backgroundColor := entry.backgroundColor.or style.backgroundColor
  strikethrough := entry.strikethrough.getD style.strikethrough
  underline := entry.underline.getD style.underline
  bold := entry.bold.getD style.bold
  italic := entry.italic.getD style.italic

/-- The lines through and under the text, in the words of CSS. -/
def textDecoration (style : TagStyle) : String :=
  " ".intercalate <|
    (if style.strikethrough then ["line-through"] else []) ++
      (if style.underline then ["underline"] else [])

end TagStyle

namespace TagEntry

/-- An entry with one name and a text color. -/
def named (name color : String) : TagEntry :=
  { tag := .one name, color := some color }

/-- An entry with several names and a text color. -/
def aliases (names : List String) (color : String) : TagEntry :=
  { tag := .many names, color := some color }

/-- One of the entry's names is `name`, ASCII letters in any case. -/
def namesTag (entry : TagEntry) (name : String) : Bool :=
  entry.tag.toList.any (·.toLower == name.toLower)

/-- The style that the entry describes by itself. -/
def style (entry : TagEntry) : TagStyle :=
  TagStyle.overriddenBy {} entry

end TagEntry

end CommentTags
