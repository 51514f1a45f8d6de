import CommentTags.Config
import CommentTags.Proofs.Engine
import CommentTags.Proofs.LetterCase.Text
import Mathlib.Data.List.Find

/-!
# The style of a tag under a theme

The table of tags takes two names for the same if their lower-case forms are equal, whereas an entry configures
a name if the two are equal up to the case of ASCII letters. The name of a tag has the style of the tag all the
same: names that are equal in ASCII have one lower-case form, so no entry before that of the tag configures its
name. The key of the tag is its name in lower case, and an entry need not configure it: a tag whose name has a
capital letter beyond ASCII may be left without a style under its key.

## Main definitions

* `ScanConfig.themeEntries`: the entries that differ in a theme;
* `TagStyle.overriddenByFirst`: a style overridden by the first entry that satisfies a condition;
* `Unicode.HasAsciiCase`: a name has the same lower-case form in ASCII.

## Main results

* `TagTable.exists_entry_of_mem_ofEntries`: the entry that configures the name of a tag;
* `ScanConfig.styleFor_tag`: the style of a tag by its name and by its key;
* `ScanConfig.not_styleFor_key`: a tag without a style under its key.
-/

namespace CommentTags

/-! ## Names in ASCII -/

namespace Unicode

/-- The lower-case form of the name differs from it in ASCII letters only. -/
def HasAsciiCase (name : String) : Prop :=
  lowercase name = name.toLower

instance (name : String) : Decidable (HasAsciiCase name) :=
  inferInstanceAs (Decidable (_ = _))

/-- Names that are equal up to the case of ASCII letters have one lower-case form. -/
theorem lowercase_eq_of_toLower_eq {a b : String} (h : a.toLower = b.toLower) : lowercase a = lowercase b := by
  rw [← lowercase_toLower a, h, lowercase_toLower]

/-- For names whose case is one of ASCII the lower-case forms are equal only if they are in ASCII. -/
theorem lowercase_eq_iff {a b : String} (ha : HasAsciiCase a) (hb : HasAsciiCase b) :
    lowercase a = lowercase b ↔ a.toLower = b.toLower := by
  rw [ha, hb]

theorem toLower_toLower (s : String) : s.toLower.toLower = s.toLower := by
  rw [← String.toList_inj, toList_toLower, toList_toLower, List.map_map]
  exact List.map_congr_left fun c _ => apply_toLower (by decide) c

end Unicode

/-! ## Entries by name -/

namespace TagEntry

variable {entry : TagEntry} {name : String}

/-- One of the entry's names has the given lower-case form. -/
def hasKey (entry : TagEntry) (key : String) : Bool :=
  entry.tag.toList.any (Unicode.lowercase · == key)

theorem namesTag_iff : entry.namesTag name = true ↔ ∃ other ∈ entry.tag.toList, other.toLower = name.toLower := by
  simp [namesTag]

/-- Entries configure a name in any case of its ASCII letters. -/
theorem namesTag_congr {other : String} (h : name.toLower = other.toLower) :
    entry.namesTag name = entry.namesTag other := by
  rw [namesTag, namesTag, h]

/-- Where all cases are in ASCII, an entry configures a name iff it has its lower-case form. -/
theorem namesTag_eq_hasKey (hname : Unicode.HasAsciiCase name)
    (hentry : ∀ other ∈ entry.tag.toList, Unicode.HasAsciiCase other) :
    entry.namesTag name = entry.hasKey (Unicode.lowercase name) := by
  rw [Bool.eq_iff_iff, namesTag_iff, hasKey, List.any_eq_true]
  refine exists_congr fun other => and_congr_right fun hother => ?_
  rw [beq_iff_eq, Unicode.lowercase_eq_iff (hentry other hother) hname]

end TagEntry

namespace TagTable

/-- A tag of the table is the first definition with its key. -/
theorem find?_key_of_mem_sift {seen : List String} {tags : List Tag} {tag : Tag}
    (h : tag ∈ (sift seen tags).1) : tags.find? (·.key == tag.key) = some tag := by
  induction tags generalizing seen with
  | nil => cases h
  | cons first rest ih =>
    have hunseen := (keys_sift seen (first :: rest)).2 tag h
    rw [sift] at h
    split at h
    · next hseen =>
      -- the first definition is left out for its key, which is not that of the tag
      have hne : first.key ≠ tag.key := by
        rintro heq
        rw [heq] at hseen
        exact hunseen (by simpa using hseen)
      rw [List.find?_cons_of_neg (by simpa using hne)]
      exact ih h
    · rcases List.mem_cons.1 h with rfl | h
      · exact List.find?_cons_of_pos (beq_self_eq_true _)
      · have hne : first.key ≠ tag.key := by
          intro heq
          exact (keys_sift (first.key :: seen) rest).2 tag h (heq ▸ List.mem_cons_self)
        rw [List.find?_cons_of_neg (by simpa using hne)]
        exact ih h

/-- The first entry that configures the name of a tag is the one that defines the tag. -/
theorem exists_entry_of_mem_ofEntries {entries : List TagEntry} {tag : Tag}
    (h : tag ∈ (ofEntries entries).tags) :
    ∃ entry, entries.find? (·.namesTag tag.name) = some entry ∧ tag = Tag.ofEntry entry tag.name := by
  have hkey : tag.key = Unicode.lowercase tag.name := key_of_mem_ofEntries h
  have hfind := find?_key_of_mem_sift h
  rw [definitions, List.find?_flatMap, List.findSome?_eq_some_iff] at hfind
  obtain ⟨earlier, entry, later, rfl, hentry, hearlier⟩ := hfind
  obtain ⟨name, hname, rfl⟩ := List.mem_map.1 (List.mem_of_find?_eq_some hentry)
  obtain ⟨hname, hnonempty⟩ := List.mem_filter.1 hname
  refine ⟨entry, List.find?_eq_some_iff_append.2
    ⟨TagEntry.namesTag_iff.2 ⟨name, hname, rfl⟩, earlier, later, rfl, fun other hother => ?_⟩, rfl⟩
  -- an earlier entry with the name would define a tag with the same key
  rw [Bool.not_eq_true', Bool.eq_false_iff]
  intro hnames
  obtain ⟨spelling, hspelling, hlower⟩ := TagEntry.namesTag_iff.1 hnames
  have hnonempty' : (!spelling.isEmpty) = true := by
    rw [← isEmpty_toLower, hlower, isEmpty_toLower]
    exact hnonempty
  have hnone := List.find?_eq_none.1 (hearlier other hother) (Tag.ofEntry other spelling)
    (List.mem_map_of_mem (List.mem_filter.2 ⟨hspelling, hnonempty'⟩))
  exact hnone (beq_iff_eq.2 (Unicode.lowercase_eq_of_toLower_eq hlower))

end TagTable

/-! ## Styles -/

/-- The style with every field that the first of the `entries` with `p` sets taken from it. -/
def TagStyle.overriddenByFirst (style : TagStyle) (entries : List TagEntry) (p : TagEntry → Bool) : TagStyle :=
  ((entries.find? p).map style.overriddenBy).getD style

namespace ScanConfig

/-- The entries whose styles differ in the theme. -/
def themeEntries (config : ScanConfig) : Theme → List TagEntry
  | .light => config.tagsLight
  | .dark => config.tagsDark

/-- A name has the style of the first entry that configures it, overridden by the first one of the theme. -/
theorem styleFor_eq (config : ScanConfig) (name : String) (theme : Theme) :
    config.styleFor name theme = (config.tags.find? (·.namesTag name)).map fun entry =>
      entry.style.overriddenByFirst (config.themeEntries theme) (·.namesTag name) := by
  unfold styleFor
  cases hfind : config.tags.find? (·.namesTag name) with
  | none => rfl
  | some entry =>
    cases theme with
    | light => cases hlight : config.tagsLight.find? (·.namesTag name) <;>
        simp [themeEntries, TagStyle.overriddenByFirst, hlight]
    | dark => cases hdark : config.tagsDark.find? (·.namesTag name) <;>
        simp [themeEntries, TagStyle.overriddenByFirst, hdark]

/-- A name has no style iff no entry configures it. -/
theorem styleFor_eq_none_iff {config : ScanConfig} {name : String} {theme : Theme} :
    config.styleFor name theme = none ↔
      ∀ entry ∈ config.tags, ∀ other ∈ entry.tag.toList, other.toLower ≠ name.toLower := by
  rw [styleFor_eq, Option.map_eq_none_iff, List.find?_eq_none]
  simp [TagEntry.namesTag_iff]

/-- Names that are equal up to the case of ASCII letters have one style. -/
theorem styleFor_congr (config : ScanConfig) {name other : String} (h : name.toLower = other.toLower)
    (theme : Theme) : config.styleFor name theme = config.styleFor other theme := by
  have hnames : (fun entry : TagEntry => entry.namesTag name) = fun entry => entry.namesTag other :=
    funext fun entry => TagEntry.namesTag_congr h
  rw [styleFor_eq, styleFor_eq, hnames]

/-- The name of a tag has the style of the tag. -/
theorem styleFor_name (config : ScanConfig) (theme : Theme) {tag : Tag}
    (h : tag ∈ (TagTable.ofEntries config.tags).tags) :
    config.styleFor tag.name theme =
      some (tag.style.overriddenByFirst (config.themeEntries theme) (·.namesTag tag.name)) := by
  obtain ⟨entry, hfind, htag⟩ := TagTable.exists_entry_of_mem_ofEntries h
  have hstyle : entry.style = tag.style := by rw [htag, Tag.ofEntry]
  rw [styleFor_eq, hfind, Option.map_some, hstyle]

/-- Every tag of the table has its style, overridden by the first entry of the theme that configures its name,
under its name in any case of ASCII letters. Under its key, which is its name in lower case, it has this style
if the case of its name is one of ASCII, and no style at all iff no entry has a name that is equal to the key
in ASCII. If the names of the theme have their case in ASCII as well, the entry of the theme is the first one
with a name of the same lower-case form. -/
theorem styleFor_tag (config : ScanConfig) (theme : Theme) {tag : Tag}
    (h : tag ∈ (TagTable.ofEntries config.tags).tags) :
    let styled (p : TagEntry → Bool) : TagStyle :=
      tag.style.overriddenByFirst (config.themeEntries theme) p
    (∀ name : String, name.toLower = tag.name.toLower →
      config.styleFor name theme = some (styled (·.namesTag tag.name))) ∧
    (config.styleFor tag.key theme = none ↔
      ∀ entry ∈ config.tags, ∀ other ∈ entry.tag.toList, other.toLower ≠ tag.key.toLower) ∧
    (Unicode.HasAsciiCase tag.name →
      config.styleFor tag.key theme = some (styled (·.namesTag tag.name)) ∧
      ((∀ entry ∈ config.themeEntries theme, ∀ other ∈ entry.tag.toList, Unicode.HasAsciiCase other) →
        styled (·.namesTag tag.name) = styled (·.hasKey tag.key))) := by
  intro styled
  have hkey : tag.key = Unicode.lowercase tag.name := TagTable.key_of_mem_ofEntries h
  have hname {name : String} (hlower : name.toLower = tag.name.toLower) :
      config.styleFor name theme = some (styled (·.namesTag tag.name)) := by
    rw [styleFor_congr config hlower, styleFor_name config theme h]
  refine ⟨fun name => hname, styleFor_eq_none_iff, fun hcase => ⟨?_, fun hentries => ?_⟩⟩
  · refine hname ?_
    rw [hkey, hcase, Unicode.toLower_toLower]
  · have hfind : (config.themeEntries theme).find? (·.namesTag tag.name) =
        (config.themeEntries theme).find? (·.hasKey tag.key) :=
      List.find?_congr fun entry hentry => by
        rw [hkey, TagEntry.namesTag_eq_hasKey hcase (hentries entry hentry)]
    dsimp only [styled, TagStyle.overriddenByFirst]
    rw [hfind]

/-- The second alias of an entry is styled under its key, and the light theme overrides its style under another
spelling. -/
theorem styleFor_tag_respelled :
    let entry : TagEntry := .aliases ["!", "Fixme"] "red"
    let config : ScanConfig := { tags := [entry, .named "FIXME" "blue"], tagsLight := [.named "fixME" "green"] }
    let tag : Tag := Tag.ofEntry entry "Fixme"
    tag ∈ (TagTable.ofEntries config.tags).tags ∧
      ("FIXME".toLower = tag.name.toLower ∧
        config.styleFor "FIXME" .dark = some { color := some "red" }) ∧
      (Unicode.HasAsciiCase tag.name ∧ tag.key = "fixme" ∧
        config.styleFor tag.key .dark = some { color := some "red" }) ∧
      (∀ entry ∈ config.themeEntries .light, ∀ other ∈ entry.tag.toList, Unicode.HasAsciiCase other) ∧
      config.styleFor tag.key .light =
        some (tag.style.overriddenByFirst (config.themeEntries .light) (·.hasKey tag.key)) := by
  intro entry config tag
  have htag : tag ∈ (TagTable.ofEntries config.tags).tags := by decide +kernel
  have hcase : Unicode.HasAsciiCase tag.name := by decide +kernel
  have htheme : ∀ entry ∈ config.themeEntries .light, ∀ other ∈ entry.tag.toList,
      Unicode.HasAsciiCase other := by decide +kernel
  have hlower : "FIXME".toLower = tag.name.toLower := by
    rw [← String.toList_inj, toList_toLower, toList_toLower]
    decide +kernel
  have hdark : tag.style.overriddenByFirst (config.themeEntries .dark) (·.namesTag tag.name) =
      { color := some "red" } := by decide +kernel
  obtain ⟨-, -, hlight⟩ := styleFor_tag config .light htag
  obtain ⟨hname, -, hkey⟩ := styleFor_tag config .dark htag
  refine ⟨htag, ⟨hlower, ?_⟩, ⟨hcase, by decide +kernel, ?_⟩, htheme, ?_⟩
  · exact (hname _ hlower).trans (congrArg some hdark)
  · exact (hkey hcase).1.trans (congrArg some hdark)
  · exact (hlight hcase).1.trans (congrArg some ((hlight hcase).2 htheme))

/-- A tag with a capital letter beyond ASCII has no style under its key, and the theme does not override its
style although it has an entry with the same lower-case form. -/
theorem not_styleFor_key :
    let config : ScanConfig := { tags := [.named "\u00c9" "red"], tagsLight := [.named "\u00e9" "green"] }
    let tag : Tag := Tag.ofEntry (.named "\u00c9" "red") "\u00c9"
    tag ∈ (TagTable.ofEntries config.tags).tags ∧ config.styleFor tag.key .light = none ∧
      config.styleFor tag.name .light = some { color := some "red" } ∧
      tag.style.overriddenByFirst (config.themeEntries .light) (·.hasKey tag.key) =
        { color := some "green" } := by
  intro config tag
  refine ⟨?_, ?_, ?_, ?_⟩
  · decide +kernel
  · decide +kernel
  · decide +kernel
  · decide +kernel

end ScanConfig

end CommentTags
