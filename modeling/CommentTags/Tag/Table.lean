import CommentTags.Tag.Entry
import CommentTags.Tag.Literal
import CommentTags.Unicode.Lowercase

/-!
# The table of tags

The table flattens tag entries: each name becomes a tag of its own. Empty names are left out. Names that
are equal in lower case name one tag, and the first entry defines it.

## Main definitions

* `TagTable.ofEntries`: the table that tag entries define;
* `TagTable.build`: the same table, with its patterns from a cache;
* `TagTable.ignoredNames`: the names among them that define nothing;
* `TagTable.get?`: the tag with a name in any letter case.
-/

namespace CommentTags

/-- One tag name with its pattern and style. -/
structure Tag where
  /-- The name as configured. -/
  name : String
  /-- The name in lower case, under which ranges are reported. -/
  key : String
  /-- The name as a pattern. -/
  escaped : String
  /-- The highlight goes on over indented lines that follow. -/
  multiline : Bool
  /-- The style of the entry. -/
  style : TagStyle
deriving DecidableEq, Repr, Inhabited

/-- The tag that `entry` defines under `name`. -/
def Tag.ofEntry (entry : TagEntry) (name : String) : Tag where
  name := name
  key := Unicode.lowercase name
  escaped := Literal.escape name
  multiline := entry.multiline
  style := entry.style

/-- The tags of a configuration, in its order. -/
structure TagTable where
  /-- The tags; no two have the same key. -/
  tags : List Tag := []
deriving DecidableEq, Repr, Inhabited

namespace TagTable

/-- Every tag that `entries` define, repeated keys included. -/
def definitions (entries : List TagEntry) : List Tag :=
  entries.flatMap fun entry =>
    (entry.tag.toList.filter (!·.isEmpty)).map (Tag.ofEntry entry)

/-- The tags of `tags` whose keys are neither in `seen` nor repeated, and the others. -/
def sift (seen : List String) : List Tag → List Tag × List Tag
  | [] => ([], [])
  | tag :: rest =>
    if seen.contains tag.key then
      let (first, repeated) := sift seen rest
      (first, tag :: repeated)
    else
      let (first, repeated) := sift (tag.key :: seen) rest
      (tag :: first, repeated)

/-- The table that `entries` define. -/
def ofEntries (entries : List TagEntry) : TagTable :=
  ⟨(sift [] (definitions entries)).1⟩

/-- The tags with the patterns that the cache has for their names, in turn, and the cache afterwards. -/
def escapeNames (escapes : EscapeCache) : List Tag → List Tag × EscapeCache
  | [] => ([], escapes)
  | tag :: rest =>
    let (pattern, escapes) := escapes.escape tag.name
    let (tags, escapes) := escapeNames escapes rest
    ({ tag with escaped := pattern } :: tags, escapes)

/-- The table that `entries` define with the patterns that the cache has, and the cache afterwards. -/
def build (entries : List TagEntry) (escapes : EscapeCache) : TagTable × EscapeCache :=
  let (tags, escapes) := escapeNames escapes (ofEntries entries).tags
  (⟨tags⟩, escapes)

/-- The names in `entries` that are ignored because an earlier one has the same key. -/
def ignoredNames (entries : List TagEntry) : List String :=
  (sift [] (definitions entries)).2.map Tag.name

/-- The tags whose highlight goes on over the following lines. -/
def multilineTags (table : TagTable) : List Tag :=
  table.tags.filter (·.multiline)

/-- The tags that end with their line. -/
def lineTags (table : TagTable) : List Tag :=
  table.tags.filter (!·.multiline)

/-- The tag called `name` in any letter case. -/
def get? (table : TagTable) (name : String) : Option Tag :=
  table.tags.find? (·.key == Unicode.lowercase name)

/-- The keys of the tags. -/
def keys (table : TagTable) : List String :=
  table.tags.map Tag.key

/-- The number of tags. -/
def size (table : TagTable) : Nat :=
  table.tags.length

/-- No tag is configured. -/
def isEmpty (table : TagTable) : Bool :=
  table.tags.isEmpty

end TagTable

end CommentTags
