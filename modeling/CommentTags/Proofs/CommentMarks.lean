import CommentTags.Language.Rule
import Mathlib.Data.List.Induction

/-!
# Merging comment marks

The marks of several rules are merged in order. A mark that is empty, or one of a pair with an empty half,
is left out, and a mark that comes again stays where it was first. So merging a rule for the second time
changes nothing.

## Main definitions

* `appendNew`: appends an item unless it is there already;
* `CommentRule.usableLine` and `CommentRule.usableBlock`: what a rule contributes;
* `CommentMarks.Knows`: a collection has all that a rule contributes.

## Main results

* `CommentMarks.line_ofRules` and `CommentMarks.block_ofRules`: the marks of several rules;
* `CommentMarks.foldl_addRule_filter`: a language that has been merged may be passed over.
-/

namespace CommentTags

section Appending

variable {α β : Type} [BEq α] [LawfulBEq α]

/-- Nothing is left twice once repetitions are dropped. -/
theorem nodup_eraseDups (l : List α) : l.eraseDups.Nodup := by
  -- from the end, because the first occurrences are those that stay
  induction l using List.reverseRecOn with
  | nil => exact List.nodup_nil
  | append_singleton l a ih =>
    rw [List.eraseDups_append, List.nodup_append]
    refine ⟨ih, ?_, fun x hx y hy => ?_⟩
    · by_cases h : a ∈ l <;> simp [List.removeAll, List.filter, h, List.eraseDups_cons]
    · rintro rfl
      simp [List.removeAll] at hx hy
      exact hy.2 hx

/-- Appends an item, if there is one and it is not in the list. -/
def appendNew (l : List α) : Option α → List α
  | some a => if l.contains a then l else l ++ [a]
  | none => l

/-- What is in the list afterwards. -/
@[simp]
theorem mem_appendNew {l : List α} {item : Option α} {a : α} :
    a ∈ appendNew l item ↔ a ∈ l ∨ item = some a := by
  cases item with
  | none => simp [appendNew]
  | some b =>
    by_cases h : b ∈ l <;> simp [appendNew, h, eq_comm]
    rintro rfl
    exact h

/-- An item that is in the list is not appended. -/
theorem appendNew_of_mem {l : List α} {item : Option α} (h : ∀ a, item = some a → a ∈ l) :
    appendNew l item = l := by
  cases item with
  | none => rfl
  | some a => simp [appendNew, h a rfl]

/-- Dropping repetitions from a list is appending its items one by one, unless they are there. -/
theorem eraseDups_concat (l : List α) (a : α) : (l ++ [a]).eraseDups = appendNew l.eraseDups (some a) := by
  by_cases h : a ∈ l <;> simp [appendNew, List.eraseDups_append, List.removeAll, List.filter, h,
    List.eraseDups_cons]

/-- Items that are appended in turn are there once, each at its first place. -/
theorem foldl_appendNew (item : β → Option α) (l : List β) :
    l.foldl (fun items b => appendNew items (item b)) [] = (l.filterMap item).eraseDups := by
  induction l using List.reverseRecOn with
  | nil => rfl
  | append_singleton l b ih =>
    rw [List.foldl_append, ih, List.filterMap_append, List.foldl_cons, List.foldl_nil]
    cases h : item b with
    | none => simp [h, appendNew]
    | some a => simp [h, eraseDups_concat]

end Appending

namespace CommentRule

/-- The mark that opens a line comment, unless it is empty. -/
def usableLine (rule : CommentRule) : Option String :=
  rule.line.filter (!·.isEmpty)

/-- The marks of a block comment, unless one of them is empty. -/
def usableBlock (rule : CommentRule) : Option (String × String) :=
  rule.block.filter fun (opening, closing) => !(opening.isEmpty || closing.isEmpty)

/-- A usable pair is one of the rule. -/
theorem block_of_usableBlock {rule : CommentRule} {pair : String × String}
    (h : rule.usableBlock = some pair) : rule.block = some pair :=
  (Option.filter_eq_some_iff.1 h).1

/-- A usable mark is not empty. -/
theorem nonempty_of_usableLine {rule : CommentRule} {mark : String} (h : rule.usableLine = some mark) :
    mark ≠ "" := by
  obtain ⟨-, hmark⟩ := Option.filter_eq_some_iff.1 h
  simpa using hmark

/-- Neither mark of a usable pair is empty. -/
theorem nonempty_of_usableBlock {rule : CommentRule} {pair : String × String}
    (h : rule.usableBlock = some pair) : pair.1 ≠ "" ∧ pair.2 ≠ "" := by
  obtain ⟨-, hpair⟩ := Option.filter_eq_some_iff.1 h
  simpa using hpair

/-- A rule is not empty iff it contributes something. -/
theorem isEmpty_eq_false_iff {rule : CommentRule} :
    rule.isEmpty = false ↔ rule.usableLine ≠ none ∨ rule.usableBlock ≠ none := by
  obtain ⟨line, block⟩ := rule
  cases line <;> cases block <;> simp [isEmpty, usableLine, usableBlock, Option.filter, imp_iff_not_or]

end CommentRule

namespace CommentMarks

/-- What a rule adds to the marks of line comments. -/
theorem line_addRule (marks : CommentMarks) (rule : CommentRule) :
    (marks.addRule rule).line = appendNew marks.line rule.usableLine := by
  -- the marks of a block comment do not count
  have hblock (marks : CommentMarks) (opening closing : String) :
      (marks.addBlock opening closing).line = marks.line := by
    rw [addBlock]
    split <;> rfl
  have hline (mark : String) :
      (marks.addLine mark).line = appendNew marks.line ((some mark).filter (!·.isEmpty)) := by
    by_cases hempty : mark.isEmpty = true <;> by_cases hknown : mark ∈ marks.line <;>
      simp [addLine, appendNew, Option.filter, hempty, hknown]
  rw [addRule, CommentRule.usableLine]
  cases rule.line <;> cases rule.block <;> simp only [hblock, hline] <;> rfl

/-- What a rule adds to the marks of block comments. -/
theorem block_addRule (marks : CommentMarks) (rule : CommentRule) :
    (marks.addRule rule).block = appendNew marks.block rule.usableBlock := by
  -- the mark of a line comment does not count
  have hline (mark : String) : (marks.addLine mark).block = marks.block := by
    rw [addLine]
    split <;> rfl
  have hblock (marks : CommentMarks) (opening closing : String) :
      (marks.addBlock opening closing).block = appendNew marks.block
        ((some (opening, closing)).filter fun (opening, closing) =>
          !(opening.isEmpty || closing.isEmpty)) := by
    by_cases hempty : (opening.isEmpty || closing.isEmpty) = true <;>
      by_cases hknown : (opening, closing) ∈ marks.block <;>
      simp [addBlock, appendNew, Option.filter, hempty, hknown]
  rw [addRule, CommentRule.usableBlock]
  cases rule.line <;> cases rule.block <;> simp only [hblock, hline] <;> rfl

/-- The marks of line comments of several rules: each usable one, at its first place. -/
theorem line_ofRules (rules : List CommentRule) :
    (ofRules rules).line = (rules.filterMap (·.usableLine)).eraseDups := by
  -- the line marks alone go through the fold in the same way
  rw [← foldl_appendNew, ofRules]
  exact (List.foldl_hom line fun marks rule => (line_addRule marks rule).symm).symm

/-- The marks of block comments of several rules: each usable pair, at its first place. -/
theorem block_ofRules (rules : List CommentRule) :
    (ofRules rules).block = (rules.filterMap (·.usableBlock)).eraseDups := by
  rw [← foldl_appendNew, ofRules]
  exact (List.foldl_hom block fun marks rule => (block_addRule marks rule).symm).symm

/-- The collection has all the usable marks of `rule`. -/
structure Knows (marks : CommentMarks) (rule : CommentRule) : Prop where
  /-- The mark of line comments is there. -/
  line : ∀ mark, rule.usableLine = some mark → mark ∈ marks.line
  /-- The marks of block comments are there. -/
  block : ∀ pair, rule.usableBlock = some pair → pair ∈ marks.block

/-- A rule that is merged is known. -/
theorem knows_addRule (marks : CommentMarks) (rule : CommentRule) : (marks.addRule rule).Knows rule := by
  constructor
  · intro mark h
    simp [line_addRule, h]
  · intro pair h
    simp [block_addRule, h]

/-- What is known stays known. -/
theorem Knows.addRule {marks : CommentMarks} {rule : CommentRule} (h : marks.Knows rule)
    (other : CommentRule) : (marks.addRule other).Knows rule := by
  constructor
  · intro mark hmark
    simp [line_addRule, h.line mark hmark]
  · intro pair hpair
    simp [block_addRule, h.block pair hpair]

/-- Merging a rule that is known changes nothing. -/
theorem Knows.addRule_eq {marks : CommentMarks} {rule : CommentRule} (h : marks.Knows rule) :
    marks.addRule rule = marks := by
  have hline : (marks.addRule rule).line = marks.line := by
    rw [line_addRule, appendNew_of_mem h.line]
  have hblock : (marks.addRule rule).block = marks.block := by
    rw [block_addRule, appendNew_of_mem h.block]
  cases hmarks : marks.addRule rule
  cases marks
  simp_all

/-- Where the rule of `id` is known, `id` may be passed over. -/
theorem foldl_addRule_filter (rule : String → CommentRule) (id : String) (ids : List String)
    {marks : CommentMarks} (h : marks.Knows (rule id)) :
    ((ids.filter (· != id)).map rule).foldl addRule marks = (ids.map rule).foldl addRule marks := by
  induction ids generalizing marks with
  | nil => rfl
  | cons other ids ih =>
    -- the rule is known at every point of the fold, so it adds nothing wherever `id` comes
    by_cases hother : other = id
    · subst hother
      simp only [bne_self_eq_false, List.filter_cons_of_neg, Bool.false_eq_true, not_false_eq_true,
        List.map_cons, List.foldl_cons, h.addRule_eq]
      exact ih h
    · rw [List.filter_cons_of_pos (by simpa using hother), List.map_cons, List.map_cons, List.foldl_cons,
        List.foldl_cons]
      exact ih (h.addRule _)

end CommentMarks

end CommentTags
