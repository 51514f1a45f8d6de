import CommentTags.Proofs.Checked.Tags
import CommentTags.Proofs.TagKeys
import Mathlib.Order.Bounds.Basic

/-!
# The longest name at the start of a line

Names are looked for with a pattern that chooses between them. The pattern has a backslash before every special
character, so that each alternative is read as one name, whatever characters it has. The choice takes the first
alternative that stands in the text; since long names come before short ones, this is the longest name that
stands there, and neither the order of the tags nor further spellings of their names count.

Simple case folding keeps the number of characters but not the number of bytes, so the end of a name is counted
in the text and not in the name.

## Main definitions

* `Literal.readChoice`: the literals between which a pattern chooses;
* `TagAlternation.SpelledAt`: so many characters of a text spell the name of a tag;
* `TagAlternation.candidates`: the starts of lines with a name;
* `TagAlternation.SpellsNamesOf`: every name is a spelling of one of the names of other tags.

## Main results

* `Literal.readChoice_intercalate`: a choice between escaped literals is read as these literals;
* `TagAlternation.matchAt?_eq_some_iff`: what is found at a position is the longest name there;
* `TagAlternation.matchEnd?_eq_some_iff`: where the search through all lines ends;
* `TagAlternation.finds_longest_name`: what is found of the names of some tags, with their pattern.
-/

namespace CommentTags

/-! ## Reading a pattern -/

namespace Literal

/-- The alternatives with a character before the first of them. -/
def prependChar (c : Char) : List (List Char) → List (List Char)
  | [] => [[c]]
  | first :: others => (c :: first) :: others

/-- The literals between which a pattern chooses, if it is made of nothing but literals with bars between them.
A special character is literal after a backslash only. -/
def readChoice : List Char → Option (List (List Char))
  | [] => some [[]]
  | '\\' :: c :: rest => if specialChars.contains c then (readChoice rest).map (prependChar c) else none
  | '|' :: rest => (readChoice rest).map ([] :: ·)
  | c :: rest => if specialChars.contains c then none else (readChoice rest).map (prependChar c)

/-- What is read of a backslash and a special character is this character. -/
theorem readChoice_backslash {c : Char} (hspecial : specialChars.contains c = true) (rest : List Char) :
    readChoice ('\\' :: c :: rest) = (readChoice rest).map (prependChar c) := by
  rw [readChoice, if_pos hspecial]

/-- Characters without a meaning of their own are read as they are. -/
theorem readChoice_plain {c : Char} (hplain : specialChars.contains c = false) (rest : List Char) :
    readChoice (c :: rest) = (readChoice rest).map (prependChar c) := by
  have hbackslash : c ≠ '\\' := by
    rintro rfl
    exact absurd hplain (by decide)
  have hbar : c ≠ '|' := by
    rintro rfl
    exact absurd hplain (by decide)
  rw [readChoice, hplain, if_neg Bool.false_ne_true]
  · exact fun d rest hc => (hbackslash hc).elim
  · exact fun hc => (hbar hc).elim

/-- An escaped literal is read as the literal, whatever comes after it. -/
theorem readChoice_escape_append (literal : String) {rest : List Char} {first : List Char}
    {others : List (List Char)} (h : readChoice rest = some (first :: others)) :
    readChoice ((escape literal).toList ++ rest) = some ((literal.toList ++ first) :: others) := by
  rw [escape, String.toList_ofList]
  -- from its end on, each character of the literal comes before the first alternative that is read after it
  induction literal.toList with
  | nil => exact h
  | cons c chars ih =>
    rw [List.flatMap_cons, List.append_assoc]
    split
    · next hspecial =>
      rw [List.cons_append, List.cons_append, List.nil_append, readChoice_backslash hspecial, ih]
      rfl
    · next hplain =>
      rw [List.cons_append, List.nil_append, readChoice_plain (Bool.eq_false_iff.2 hplain), ih]
      rfl

/-- A choice between escaped literals is read as these literals. -/
theorem readChoice_intercalate {literals : List String} (h : literals ≠ []) :
    readChoice ("|".intercalate (literals.map escape)).toList = some (literals.map String.toList) := by
  induction literals with
  | nil => exact absurd rfl h
  | cons literal rest ih =>
    cases rest with
    | nil =>
      have hread := readChoice_escape_append literal (show readChoice [] = some ([] :: []) from rfl)
      rw [List.append_nil, List.append_nil] at hread
      exact hread
    | cons next rest =>
      -- the bar ends the first literal
      have hbar : readChoice ('|' :: ("|".intercalate ((next :: rest).map escape)).toList) =
          some ([] :: (next :: rest).map String.toList) := by
        rw [readChoice, ih (List.cons_ne_nil _ _)]
        rfl
      have hread := readChoice_escape_append literal hbar
      rw [List.append_nil] at hread
      rw [List.map_cons, List.map_cons, String.intercalate_cons_cons, String.toList_append,
        String.toList_append, List.append_assoc]
      exact hread

/-- A bar of a name has a backslash, one between names has none. -/
example : readChoice (escape "a|b" ++ "|" ++ escape "?").toList = some [['a', '|', 'b'], ['?']] := by
  decide +kernel

end Literal

/-! ## Spellings -/

namespace Spells

variable {word other name : String}

instance (word name : String) : Decidable (Spells word name) :=
  inferInstanceAs (Decidable (_ = _))

theorem trans (h : Spells word other) (h' : Spells other name) : Spells word name :=
  Eq.trans h h'

/-- A spelling has as many characters as the name. -/
theorem length_eq (h : Spells word name) : word.length = name.length := by
  have hlength := congrArg List.length h
  rwa [List.length_map, List.length_map, String.length_toList, String.length_toList] at hlength

end Spells

namespace TagAlternation

variable {text : Text} {tags others : List Tag} {i start length : Nat}

/-- Characters that fold to a name are found as the name, if they end in time. -/
theorem foldedAt_of_map_foldCase {stop : Nat} {name : List Char} (hstop : i + name.length ≤ stop)
    (h : (text.extract i (i + name.length)).toList.map Unicode.foldCase = name) :
    foldedAt text stop name i = true := by
  rw [Array.toList_extract, List.extract_eq_take_drop, Nat.add_sub_cancel_left] at h
  induction name generalizing i with
  | nil => rfl
  | cons c rest ih =>
    rw [List.length_cons] at hstop h
    have hlt : i < text.size := by
      by_contra hge
      rw [List.drop_of_length_le (by rw [Array.length_toList]; omega)] at h
      simp at h
    rw [Text.drop_toList (Array.getElem?_eq_getElem hlt), List.take_succ_cons, List.map_cons, List.cons.injEq] at h
    have hrest : foldedAt text stop rest (i + 1) = true := ih (by omega) h.2
    rw [foldedAt, hrest, Array.getElem?_eq_getElem hlt, Option.any_some, h.1]
    simp only [beq_self_eq_true, Bool.and_true, decide_eq_true_eq]
    omega

/-- A name is found in a text iff the characters that stand there spell it. -/
theorem foldedAt_name_iff {name : String} (hstart : start ≤ text.size) :
    foldedAt text text.size (name.toList.map Unicode.foldCase) start = true ↔
      start + name.length ≤ text.size ∧ Spells (text.slice start (start + name.length)) name := by
  have hlength : (name.toList.map Unicode.foldCase).length = name.length := by
    rw [List.length_map, String.length_toList]
  rw [Spells, Text.slice, String.toList_ofList, ← hlength]
  constructor
  · intro h
    exact ⟨add_length_le_of_foldedAt h hstart, map_foldCase_of_foldedAt h⟩
  · rintro ⟨hstop, h⟩
    exact foldedAt_of_map_foldCase hstop h

/-- The `length` characters of the text from `start` on spell the name of a tag. -/
def SpelledAt (tags : List Tag) (text : Text) (start length : Nat) : Prop :=
  start + length ≤ text.size ∧ ∃ tag ∈ tags, Spells (text.slice start (start + length)) tag.name

/-- Positions at which a line starts with the name of a tag. -/
def candidates (tags : List Tag) (text : Text) : Set Nat :=
  {start | text.startsLine start = true ∧ ∃ length, SpelledAt tags text start length}

/-- Every name of `tags` is a spelling of one of `others`. -/
def SpellsNamesOf (tags others : List Tag) : Prop :=
  ∀ tag ∈ tags, ∃ other ∈ others, Spells tag.name other.name

instance (tags others : List Tag) : Decidable (SpellsNamesOf tags others) :=
  inferInstanceAs (Decidable (∀ tag ∈ tags, ∃ other ∈ others, Spells tag.name other.name))

/-- Characters that spell a name are as many as it has. -/
theorem spelledAt_iff : SpelledAt tags text start length ↔
    start ≤ text.size ∧ ∃ tag ∈ tags, tag.name.length = length ∧
      foldedAt text text.size (tag.name.toList.map Unicode.foldCase) start = true := by
  constructor
  · rintro ⟨hstop, tag, htag, hspells⟩
    have hlength : tag.name.length = length := by
      rw [← hspells.length_eq, Text.slice, String.length_ofList, Array.length_toList, Array.size_extract]
      omega
    subst hlength
    have hstart : start ≤ text.size := Nat.le_of_add_right_le hstop
    exact ⟨hstart, tag, htag, rfl, (foldedAt_name_iff hstart).2 ⟨hstop, hspells⟩⟩
  · rintro ⟨hstart, tag, htag, rfl, hfound⟩
    obtain ⟨hstop, hspells⟩ := (foldedAt_name_iff hstart).1 hfound
    exact ⟨hstop, tag, htag, hspells⟩

/-- Further spellings of the names spell nothing else. -/
theorem SpelledAt.of_spellsNamesOf (h : SpelledAt tags text start length) (hnames : SpellsNamesOf tags others) :
    SpelledAt others text start length := by
  obtain ⟨hstop, tag, htag, hspells⟩ := h
  obtain ⟨other, hother, hname⟩ := hnames tag htag
  exact ⟨hstop, other, hother, hspells.trans hname⟩

/-! ## The longest name -/

/-- A tag has no shorter a name than those after it. -/
theorem pairwise_longestFirst (tags : List Tag) :
    (longestFirst tags).Pairwise fun a b => b.name.length ≤ a.name.length := by
  have hsorted := @List.pairwise_mergeSort Tag (fun a b => decide (b.name.length ≤ a.name.length))
    (fun a b c => by simp only [decide_eq_true_eq]; omega)
    (fun a b => by simp only [Bool.or_eq_true, decide_eq_true_eq]; omega) tags
  exact hsorted.imp of_decide_eq_true

/-- The first of the sorted tags with a property has the longest name of all tags with it. -/
theorem isGreatest_of_find?_longestFirst {p : Tag → Bool} {tag : Tag}
    (h : (longestFirst tags).find? p = some tag) :
    IsGreatest {length | ∃ tag ∈ tags, tag.name.length = length ∧ p tag = true} tag.name.length := by
  obtain ⟨hp, before, after, hsorted, hbefore⟩ := List.find?_eq_some_iff_append.1 h
  refine ⟨⟨tag, mem_longestFirst.1 (List.mem_of_find?_eq_some h), rfl, hp⟩, ?_⟩
  rintro _ ⟨other, hother, rfl, hp'⟩
  have hpairwise := pairwise_longestFirst tags
  rw [hsorted, List.pairwise_append, List.pairwise_cons] at hpairwise
  rw [← mem_longestFirst, hsorted, List.mem_append, List.mem_cons] at hother
  rcases hother with hother | rfl | hother
  -- the longer names before the first one with the property do not have it
  · exact absurd hp' (by simpa using hbefore other hother)
  · exact Nat.le_refl _
  · exact hpairwise.2.1.1 other hother

/-- What is looked for at a position is the first name, in the order of their lengths, that stands there. -/
theorem matchAt?_ofTags (tags : List Tag) (text : Text) (start stop : Nat) :
    (ofTags tags).matchAt? text start stop =
      ((longestFirst tags).find? fun tag =>
        foldedAt text stop (tag.name.toList.map Unicode.foldCase) start).map (·.name.length) := by
  rw [matchAt?, ofTags, List.find?_map, Option.map_map]
  congr 1
  funext tag
  simp only [Function.comp_apply, List.length_map, String.length_toList]

/-- Nothing is found at a position iff no name is spelled there. -/
theorem matchAt?_eq_none_iff (hstart : start ≤ text.size) :
    (ofTags tags).matchAt? text start text.size = none ↔ ∀ length, ¬ SpelledAt tags text start length := by
  rw [matchAt?_ofTags, Option.map_eq_none_iff, List.find?_eq_none]
  constructor
  · intro h length hspelled
    obtain ⟨-, tag, htag, -, hfound⟩ := spelledAt_iff.1 hspelled
    exact h tag (mem_longestFirst.2 htag) hfound
  · intro h tag htag hfound
    exact h _ (spelledAt_iff.2 ⟨hstart, tag, mem_longestFirst.1 htag, rfl, hfound⟩)

/-- What is found at a position is the longest name that is spelled there. -/
theorem matchAt?_eq_some_iff (hstart : start ≤ text.size) :
    (ofTags tags).matchAt? text start text.size = some length ↔
      IsGreatest {length | SpelledAt tags text start length} length := by
  have hgreatest {found : Nat} (h : (ofTags tags).matchAt? text start text.size = some found) :
      IsGreatest {length | SpelledAt tags text start length} found := by
    rw [matchAt?_ofTags] at h
    obtain ⟨tag, hfind, rfl⟩ := Option.map_eq_some_iff.1 h
    have hset : {length | SpelledAt tags text start length} =
        {length | ∃ tag ∈ tags, tag.name.length = length ∧
          foldedAt text text.size (tag.name.toList.map Unicode.foldCase) start = true} :=
      Set.ext fun length => spelledAt_iff.trans (and_iff_right hstart)
    rw [hset]
    exact isGreatest_of_find?_longestFirst hfind
  refine ⟨hgreatest, fun h => ?_⟩
  cases hfound : (ofTags tags).matchAt? text start text.size with
  | none => exact absurd h.1 ((matchAt?_eq_none_iff hstart).1 hfound length)
  | some found => rw [(hgreatest hfound).unique h]

/-! ## The search through the lines -/

theorem le_size_of_mem_candidates (h : start ∈ candidates tags text) : start ≤ text.size := by
  obtain ⟨-, length, hstop, -⟩ := h
  exact Nat.le_of_add_right_le hstop

/-- A position of the text is a candidate iff the search stops there. -/
theorem mem_candidates_iff (hstart : start ≤ text.size) :
    start ∈ candidates tags text ↔
      (text.startsLine start && ((ofTags tags).matchAt? text start text.size).isSome) = true := by
  rw [Bool.and_eq_true, Option.isSome_iff_ne_none, ne_eq, matchAt?_eq_none_iff hstart, not_forall_not]
  rfl

/-- The search stops at the first candidate. -/
theorem firstFrom_eq_some_iff_isLeast :
    firstFrom (fun i => text.startsLine i && ((ofTags tags).matchAt? text i text.size).isSome) 0
      (text.size + 1) = some start ↔ IsLeast (candidates tags text) start := by
  rw [firstFrom_eq_some_iff, Nat.zero_add]
  constructor
  · rintro ⟨⟨-, hlt⟩, hfound, hbefore⟩
    refine ⟨(mem_candidates_iff (Nat.le_of_lt_succ hlt)).2 hfound, fun other hother => ?_⟩
    by_contra hother'
    have hmissed := hbefore other (Nat.zero_le _) (Nat.lt_of_not_le hother')
    rw [(mem_candidates_iff (le_size_of_mem_candidates hother)).1 hother] at hmissed
    cases hmissed
  · rintro ⟨hmem, hleast⟩
    have hstart : start ≤ text.size := le_size_of_mem_candidates hmem
    refine ⟨⟨Nat.zero_le _, Nat.lt_succ_of_le hstart⟩, (mem_candidates_iff hstart).1 hmem, fun j _ hj => ?_⟩
    have hj' : j ≤ text.size := Nat.le_trans (Nat.le_of_lt hj) hstart
    rw [← Bool.not_eq_true, ← mem_candidates_iff hj']
    exact fun hcandidate => absurd (hleast hcandidate) (Nat.not_le_of_lt hj)

/-- Where there are candidates, there is a first one. -/
theorem exists_isLeast_candidates (h : (candidates tags text).Nonempty) :
    ∃ start, IsLeast (candidates tags text) start := by
  cases hfirst : firstFrom (fun i => text.startsLine i && ((ofTags tags).matchAt? text i text.size).isSome) 0
      (text.size + 1) with
  | some start => exact ⟨start, firstFrom_eq_some_iff_isLeast.1 hfirst⟩
  | none =>
    obtain ⟨start, hstart⟩ := h
    have hle : start ≤ text.size := le_size_of_mem_candidates hstart
    have hmissed := firstFrom_eq_none_iff.1 hfirst start (Nat.zero_le _) (by omega)
    rw [(mem_candidates_iff hle).1 hstart] at hmissed
    cases hmissed

/-- The search ends after the longest name at the first candidate. -/
theorem matchEnd?_eq_some_iff {s : String} {b : Nat} :
    (ofTags tags).matchEnd? s = some b ↔
      ∃ start length, IsLeast (candidates tags (.ofString s)) start ∧
        IsGreatest {length | SpelledAt tags (.ofString s) start length} length ∧
        b = ((Text.ofString s).slice 0 (start + length)).utf8ByteSize := by
  have hbyte (start length : Nat) :
      (ByteOffsets.ofText (.ofString s)).byteOfChar (start + length) =
        ((Text.ofString s).slice 0 (start + length)).utf8ByteSize := by
    rw [← utf8Length_toList, Text.slice, String.toList_ofList, Array.toList_extract,
      List.extract_eq_take_drop, List.drop_zero, Nat.sub_zero]
    exact Text.byteAt_eq _ _
  simp only [matchEnd?, Option.bind_eq_bind, Option.bind_eq_some_iff, Option.pure_def, Option.some.injEq]
  constructor
  · rintro ⟨start, hfirst, length, hlength, rfl⟩
    have hleast := firstFrom_eq_some_iff_isLeast.1 hfirst
    have hgreatest := (matchAt?_eq_some_iff (le_size_of_mem_candidates hleast.1)).1 hlength
    exact ⟨start, length, hleast, hgreatest, hbyte start length⟩
  · rintro ⟨start, length, hleast, hgreatest, rfl⟩
    exact ⟨start, firstFrom_eq_some_iff_isLeast.2 hleast, length,
      (matchAt?_eq_some_iff (le_size_of_mem_candidates hleast.1)).2 hgreatest, hbyte start length⟩

/-- The search finds nothing iff there are no candidates. -/
theorem matchEnd?_eq_none_iff {s : String} :
    (ofTags tags).matchEnd? s = none ↔ candidates tags (.ofString s) = ∅ := by
  constructor
  · intro h
    rw [← Set.not_nonempty_iff_eq_empty]
    intro hnonempty
    obtain ⟨start, hleast⟩ := exists_isLeast_candidates hnonempty
    -- some name stands at the first candidate, and so a longest one
    obtain ⟨length, hlength⟩ := Option.isSome_iff_exists.1
      (Bool.and_eq_true_iff.1 ((mem_candidates_iff (le_size_of_mem_candidates hleast.1)).1 hleast.1)).2
    have hgreatest := (matchAt?_eq_some_iff (le_size_of_mem_candidates hleast.1)).1 hlength
    rw [matchEnd?_eq_some_iff.2 ⟨start, length, hleast, hgreatest, rfl⟩] at h
    cases h
  · intro h
    rw [Option.eq_none_iff_forall_ne_some]
    intro b hfound
    obtain ⟨start, -, hleast, -⟩ := matchEnd?_eq_some_iff.1 hfound
    rw [h] at hleast
    exact hleast.1

/-- In a text of one line there is no candidate but its start. -/
theorem eq_zero_of_mem_candidates {s : String} (hline : '\n' ∉ s.toList)
    (h : start ∈ candidates tags (.ofString s)) : start = 0 := by
  have hstarts := h.1
  rw [Text.startsLine, Bool.or_eq_true, beq_iff_eq, beq_iff_eq] at hstarts
  refine hstarts.resolve_right fun hfeed => hline ?_
  obtain ⟨hlt, hget⟩ := Array.getElem?_eq_some_iff.1 hfeed
  have hmem := Array.getElem_mem hlt
  rw [hget] at hmem
  simpa [Text.ofString] using hmem

/-- In a text of one line the search ends after the longest name that the text starts with. -/
theorem matchEnd?_eq_some_iff_of_line {s : String} (hline : '\n' ∉ s.toList) {b : Nat} :
    (ofTags tags).matchEnd? s = some b ↔
      ∃ length, IsGreatest {length | SpelledAt tags (.ofString s) 0 length} length ∧
        b = ((Text.ofString s).slice 0 length).utf8ByteSize := by
  rw [matchEnd?_eq_some_iff]
  constructor
  · rintro ⟨start, length, hleast, hgreatest, rfl⟩
    obtain rfl := eq_zero_of_mem_candidates hline hleast.1
    exact ⟨length, hgreatest, by rw [Nat.zero_add]⟩
  · rintro ⟨length, hgreatest, rfl⟩
    have hleast : IsLeast (candidates tags (.ofString s)) 0 :=
      ⟨⟨rfl, length, hgreatest.1⟩, fun start _ => Nat.zero_le start⟩
    exact ⟨0, length, hleast, hgreatest, by rw [Nat.zero_add]⟩

/-- Tags with the same names up to letter case find the same, in whatever order they are. -/
theorem matchEnd?_congr (h : SpellsNamesOf tags others) (h' : SpellsNamesOf others tags) (s : String) :
    (ofTags tags).matchEnd? s = (ofTags others).matchEnd? s := by
  have hspelled (start length : Nat) :
      SpelledAt tags (.ofString s) start length ↔ SpelledAt others (.ofString s) start length :=
    ⟨fun hspelled => hspelled.of_spellsNamesOf h, fun hspelled => hspelled.of_spellsNamesOf h'⟩
  have hcandidates : candidates tags (.ofString s) = candidates others (.ofString s) := by
    simp only [candidates, hspelled]
  refine Option.ext fun b => ?_
  simp only [matchEnd?_eq_some_iff, hcandidates, hspelled]

/-! ## Building the choice -/

/-- The pattern reads as a choice between the names. -/
theorem readChoice_ofTags (hne : tags ≠ []) (hescaped : ∀ tag ∈ tags, tag.escaped = Literal.escape tag.name) :
    ∃ choice, (ofTags tags).source = "^(?:" ++ choice ++ ")" ∧
      Literal.readChoice choice.toList = some ((longestFirst tags).map (·.name.toList)) := by
  have hsorted : longestFirst tags ≠ [] := fun hnil =>
    hne (List.nil_perm.1 (hnil ▸ longestFirst_perm tags))
  have hpatterns : (longestFirst tags).map Tag.escaped = ((longestFirst tags).map Tag.name).map Literal.escape := by
    rw [List.map_map]
    exact List.map_congr_left fun tag htag => hescaped tag (mem_longestFirst.1 htag)
  refine ⟨_, rfl, ?_⟩
  rw [hpatterns, Literal.readChoice_intercalate (by simpa using hsorted), List.map_map]
  rfl

/-- No name is empty, and neither is what the search passes over. -/
theorem matchEnd?_ne_some_zero (hnames : ∀ tag ∈ tags, tag.name ≠ "") (s : String) :
    (ofTags tags).matchEnd? s ≠ some 0 := by
  intro h
  obtain ⟨start, length, -, ⟨hspelled, -⟩, hzero⟩ := matchEnd?_eq_some_iff.1 h
  obtain ⟨hstart, tag, htag, rfl, -⟩ := spelledAt_iff.1 hspelled
  have hpos : 0 < tag.name.length :=
    Nat.pos_of_ne_zero fun hlength => hnames tag htag (String.length_eq_zero_iff.1 hlength)
  have hstop := hspelled.1
  have hslice := congrArg String.length (String.utf8ByteSize_eq_zero_iff.1 hzero.symm)
  rw [Text.slice, String.length_ofList, Array.length_toList, Array.size_extract, String.length_empty] at hslice
  omega

/-- Names of any characters, none of them empty, are looked for with one pattern that reads as a choice between
them; all that can fail is to compile it. If it is compiled, nothing is found iff no line starts with a name.
Otherwise the search ends, in bytes of the text, after the longest of the names at the first line that starts
with one; in a text of one line it is the longest name that the text starts with. Nothing that is found is
empty. Tags with the same names up to letter case find the same, in whatever order they are. -/
theorem finds_longest_name (compiler : PatternCompiler) (hne : tags ≠ [])
    (htags : ∀ tag ∈ tags, tag.name ≠ "" ∧ tag.escaped = Literal.escape tag.name) :
    (∃ choice alternatives, Literal.readChoice choice.toList = some alternatives ∧
      alternatives.Perm (tags.map (·.name.toList)) ∧
      build compiler tags = (compiler.compile ("^(?:" ++ choice ++ ")") true).map fun _ =>
        some ⟨"^(?:" ++ choice ++ ")", alternatives.map (List.map Unicode.foldCase)⟩) ∧
    ∀ names, build compiler tags = .ok (some names) →
      (∀ s : String,
        (names.matchEnd? s = none ↔ candidates tags (.ofString s) = ∅) ∧
        (∀ b, names.matchEnd? s = some b ↔
          ∃ start length, IsLeast (candidates tags (.ofString s)) start ∧
            IsGreatest {length | SpelledAt tags (.ofString s) start length} length ∧
            b = ((Text.ofString s).slice 0 (start + length)).utf8ByteSize) ∧
        ('\n' ∉ s.toList → ∀ b, names.matchEnd? s = some b ↔
          ∃ length, IsGreatest {length | SpelledAt tags (.ofString s) 0 length} length ∧
            b = ((Text.ofString s).slice 0 length).utf8ByteSize) ∧
        names.matchEnd? s ≠ some 0) ∧
      ∀ others names', SpellsNamesOf tags others → SpellsNamesOf others tags →
        build compiler others = .ok (some names') → ∀ s, names'.matchEnd? s = names.matchEnd? s := by
  constructor
  · obtain ⟨choice, hsource, hread⟩ := readChoice_ofTags hne fun tag htag => (htags tag htag).2
    refine ⟨choice, _, hread, (longestFirst_perm tags).map _, ?_⟩
    rw [build, if_neg (by simpa using hne), ← hsource, List.map_map]
    rfl
  · intro names hnames
    obtain ⟨-, -, rfl⟩ := build_eq_ok_iff.1 hnames
    refine ⟨fun s => ⟨matchEnd?_eq_none_iff, fun b => matchEnd?_eq_some_iff,
      fun hline b => matchEnd?_eq_some_iff_of_line hline,
      matchEnd?_ne_some_zero (fun tag htag => (htags tag htag).1) s⟩, fun others names' h h' hothers s => ?_⟩
    obtain ⟨-, -, rfl⟩ := build_eq_ok_iff.1 hothers
    exact (matchEnd?_congr h h' s).symm

/-- The Kelvin sign, a line feed and a bracket spell the first of three names, whose letter has fewer bytes; the
same is found if the shortest name comes first and another spelling of the first one is added. -/
theorem finds_longest_name_kelvin :
    let entry : TagEntry := .aliases ["k\n(", "??", "?"] "red"
    let tags : List Tag := entry.tag.toList.map (Tag.ofEntry entry)
    let others : List Tag := ["?", "??", "K\n(", "k\n("].map (Tag.ofEntry entry)
    (tags ≠ [] ∧ ∀ tag ∈ tags, tag.name ≠ "" ∧ tag.escaped = Literal.escape tag.name) ∧
      (SpellsNamesOf tags others ∧ SpellsNamesOf others tags) ∧
      build .lenient tags = .ok (some (ofTags tags)) ∧ (ofTags tags).matchEnd? "x\n\u212a\n(!" = some 7 ∧
      ∃ names, build .lenient others = .ok (some names) ∧ names.matchEnd? "x\n\u212a\n(!" = some 7 := by
  intro entry tags others
  have hne : tags ≠ [] := List.cons_ne_nil _ _
  have htags : ∀ tag ∈ tags, tag.name ≠ "" ∧ tag.escaped = Literal.escape tag.name := by decide +kernel
  have hspells : SpellsNamesOf tags others := by decide +kernel
  have hspells' : SpellsNamesOf others tags := by decide +kernel
  have hbuild : build .lenient tags = .ok (some (ofTags tags)) := build_eq_ok_iff.2 ⟨hne, rfl, rfl⟩
  have hfound : (ofTags tags).matchEnd? "x\n\u212a\n(!" = some 7 := by
    have hsorted : longestFirst tags = tags := List.mergeSort_of_pairwise (by decide +kernel)
    have hfolded : (ofTags tags).folded = [['k', '\n', '('], ['?', '?'], ['?']] := by
      rw [ofTags, hsorted]
      decide +kernel
    simp only [matchEnd?, matchAt?, hfolded]
    decide +kernel
  have hbuild' : build .lenient others = .ok (some (ofTags others)) :=
    build_eq_ok_iff.2 ⟨List.cons_ne_nil _ _, rfl, rfl⟩
  have hsame := ((finds_longest_name .lenient hne htags).2 _ hbuild).2 others _ hspells hspells' hbuild'
  exact ⟨⟨hne, htags⟩, ⟨hspells, hspells'⟩, hbuild, hfound, _, hbuild', (hsame _).trans hfound⟩

end TagAlternation

end CommentTags
