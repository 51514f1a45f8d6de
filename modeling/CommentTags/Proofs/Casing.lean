import CommentTags.Unicode.CaseFolding
import CommentTags.Unicode.Lowercase
import Mathlib.Data.List.Forall2

/-!
# Case folding against lower case

Two words that are equal under simple case folding need not have the same lower-case form: the long s folds
to `s` but stays as it is in lower case, and a sigma at the end of a word has a form of its own. A character
is steady if this cannot happen to it. Words of steady characters have one lower-case form for all their
spellings, and every ASCII character but the letter s is steady, although the Kelvin sign folds to `k`.

## Main definitions

* `capitals`: the characters of ASCII that are others in lower case;
* `Unicode.IsSteady`: all characters that fold to the same as this one have the same lower-case form.

## Main results

* `Unicode.isSteady_of_ascii`: the steady characters of ASCII;
* `Unicode.lowercase_eq_of_foldCase_eq`: the spellings of a steady word have one lower-case form.
-/

namespace CommentTags

/-! ## Capital letters -/

/-- The capital letters of ASCII. -/
def capitals : List Char :=
  ['A', 'B', 'C', 'D', 'E', 'F', 'G', 'H', 'I', 'J', 'K', 'L', 'M', 'N', 'O', 'P', 'Q', 'R', 'S', 'T',
    'U', 'V', 'W', 'X', 'Y', 'Z']

/-- Characters in lower case are the characters themselves, but for the capital letters. -/
theorem toLower_eq_or_mem_capitals (c : Char) : c.toLower = c ∨ c ∈ capitals := by
  by_cases hupper : 65 ≤ c.val ∧ c.val ≤ 90
  -- the capital letters are the code points from 65 to 90
  · right
    have hfirst : 65 ≤ c.toNat := hupper.1
    have hlast : c.toNat ≤ 90 := hupper.2
    have hall : ∀ i < 26, Char.ofNat (65 + i) ∈ capitals := by decide
    have hmem := hall (c.toNat - 65) (by omega)
    rwa [Nat.add_sub_cancel' hfirst, Char.ofNat_toNat] at hmem
  · left
    exact dif_neg hupper

/-- It suffices to look at the capital letters. -/
theorem apply_toLower {α : Type} [DecidableEq α] {f : Char → α}
    (h : (capitals.all fun c => f c.toLower == f c) = true) (c : Char) : f c.toLower = f c := by
  rcases toLower_eq_or_mem_capitals c with heq | hmem
  · rw [heq]
  · exact eq_of_beq (List.all_eq_true.1 h c hmem)

/-- Where a bisection ends the predicate holds, unless it ends with its interval. -/
theorem partitionPoint_eq_or {p : Nat → Bool} {lo hi : Nat} (h : lo ≤ hi) :
    partitionPoint p lo hi = hi ∨ p (partitionPoint p lo hi) = true := by
  fun_induction partitionPoint p lo hi with
  | case1 lo hi hlt mid hp ih =>
    right
    rcases ih (by omega) with heq | hholds
    · rw [heq]
      exact hp
    · exact hholds
  | case2 lo hi hlt mid hp ih => exact ih (by omega)
  | case3 lo hi hlt => exact .inl (by omega)

namespace Unicode

/-! ## Tables -/

/-- A code point that runs map lies in one of them some steps from its start, and the image as far from its image. -/
theorem CharRun.exists_of_image? {runs : Array CharRun} {code image : Nat}
    (h : image? runs code = some image) :
    ∃ run ∈ runs, run.first ≤ code ∧ code ≤ run.last ∧ (code - run.first) % run.step = 0 ∧
      image = run.image + (code - run.first) := by
  simp only [image?, Option.bind_eq_bind, Option.bind_eq_some_iff] at h
  obtain ⟨run, hrun, h⟩ := h
  split at h
  · next hfirst =>
    cases h
    refine ⟨run, Array.mem_of_getElem? hrun, hfirst.1, ?_, hfirst.2, rfl⟩
    -- the bisection ends at a run that does not end before the code point
    rcases partitionPoint_eq_or (p := fun i => runs[i]?.any (code ≤ ·.last)) (Nat.zero_le runs.size) with
      hend | hlast
    · rw [hend, Array.getElem?_eq_none (Nat.le_refl _)] at hrun
      cases hrun
    · rw [hrun] at hlast
      simpa using hlast
  · cases h

/-- The run maps nothing beyond ASCII into ASCII, and its images are characters. -/
def CharRun.KeepsApart (run : CharRun) : Prop :=
  run.last < 0x80 ∨ 0x80 ≤ run.image ∧
    (run.image + (run.last - run.first) < 0xD800 ∨
      0xDFFF < run.image ∧ run.image + (run.last - run.first) < 0x110000)

instance (run : CharRun) : Decidable run.KeepsApart :=
  inferInstanceAs (Decidable (_ ∨ _ ∧ (_ ∨ _ ∧ _)))

/-- Such a run maps a code point beyond ASCII to that of another character beyond ASCII. -/
theorem CharRun.KeepsApart.toNat_ofNat {run : CharRun} (h : run.KeepsApart) {code : Nat} (hcode : 0x80 ≤ code)
    (hlast : code ≤ run.last) :
    0x80 ≤ run.image + (code - run.first) ∧
      (Char.ofNat (run.image + (code - run.first))).toNat = run.image + (code - run.first) := by
  rw [KeepsApart] at h
  have hvalid : (run.image + (code - run.first)).isValidChar := by
    rw [Nat.isValidChar]
    omega
  rw [Char.ofNat, dif_pos hvalid]
  exact ⟨by omega, rfl⟩

/-- Of the characters beyond ASCII only the long s and the Kelvin sign fold into ASCII. -/
theorem keepsApart_of_mem_caseFoldings :
    ∀ run ∈ caseFoldings, run.KeepsApart ∨
      run.first = 0x17F ∧ run.last = 0x17F ∧ run.image = 0x73 ∨
      run.first = 0x212A ∧ run.last = 0x212A ∧ run.image = 0x6B := by
  have hall : caseFoldings.all (fun run => decide (run.KeepsApart ∨
      run.first = 0x17F ∧ run.last = 0x17F ∧ run.image = 0x73 ∨
      run.first = 0x212A ∧ run.last = 0x212A ∧ run.image = 0x6B)) = true := by
    decide +kernel
  intro run hrun
  rw [Array.all_eq_true_iff_forall_mem] at hall
  exact of_decide_eq_true (hall run hrun)

/-! ## Steady characters -/

/-- Whatever folds to the same character as `c` has the same lower-case form, whatever its neighbours. -/
def IsSteady (c : Char) : Prop :=
  ∀ d, foldCase d = foldCase c → d ≠ '\u03a3' ∧ lowercaseChar d = lowercaseChar c

/-- A character beyond ASCII that folds to a character of ASCII is the long s or the Kelvin sign. -/
theorem eq_of_foldCase_lt {d : Char} (hd : 0x80 ≤ d.toNat) (h : (foldCase d).toNat < 0x80) :
    d = '\u017f' ∧ foldCase d = 's' ∨ d = '\u212a' ∧ foldCase d = 'k' := by
  rw [foldCase, if_neg (Nat.not_lt.2 hd), CharRun.apply] at h ⊢
  cases himage : CharRun.image? caseFoldings d.toNat with
  | none =>
    rw [himage] at h
    exact absurd h (Nat.not_lt.2 hd)
  | some image =>
    rw [himage] at h
    dsimp only at h ⊢
    obtain ⟨run, hrun, hfirst, hlast, -, rfl⟩ := CharRun.exists_of_image? himage
    rcases keepsApart_of_mem_caseFoldings run hrun with hkeeps | ⟨h₁, h₂, h₃⟩ | ⟨h₁, h₂, h₃⟩
    -- the image of this run is a character beyond ASCII
    · obtain ⟨hbeyond, himageCode⟩ := hkeeps.toNat_ofNat hd hlast
      rw [himageCode] at h
      exact absurd h (Nat.not_lt.2 hbeyond)
    · left
      have hcode : d.toNat = 0x17F := by omega
      rw [h₁, h₃, hcode]
      refine ⟨?_, rfl⟩
      rw [← Char.ofNat_toNat d, hcode]
    · right
      have hcode : d.toNat = 0x212A := by omega
      rw [h₁, h₃, hcode]
      refine ⟨?_, rfl⟩
      rw [← Char.ofNat_toNat d, hcode]

/-- The lower-case form of an ASCII character is one as well. -/
theorem toNat_toLower_lt {c : Char} (hc : c.toNat < 0x80) : c.toLower.toNat < 0x80 := by
  have hkeeps : decide (c.toLower.toNat < 0x80) = decide (c.toNat < 0x80) :=
    apply_toLower (f := fun c => decide (c.toNat < 0x80)) (by decide) c
  exact (decide_eq_decide.1 hkeeps).2 hc

/-- In ASCII every character but the letter s is steady. -/
theorem isSteady_of_ascii {c : Char} (hc : c.toNat < 0x80) (hs : c.toLower ≠ 's') : IsSteady c := by
  intro d hd
  have hfold : foldCase c = c.toLower := if_pos hc
  have hlower : lowercaseChar c = [c.toLower] := if_pos hc
  rw [hfold] at hd
  rw [hlower]
  by_cases hascii : d.toNat < 0x80
  · have hfold' : foldCase d = d.toLower := if_pos hascii
    have hlower' : lowercaseChar d = [d.toLower] := if_pos hascii
    rw [hlower', ← hfold', hd]
    refine ⟨?_, rfl⟩
    rintro rfl
    exact absurd hascii (by decide)
  -- beyond ASCII only the long s and the Kelvin sign come into question
  · have hlt : (foldCase d).toNat < 0x80 := by
      rw [hd]
      exact toNat_toLower_lt hc
    rcases eq_of_foldCase_lt (Nat.le_of_not_lt hascii) hlt with ⟨-, hs'⟩ | ⟨rfl, hk⟩
    · exact absurd (hd.symm.trans hs') hs
    · rw [← hd, hk]
      exact ⟨by decide, by decide +kernel⟩

/-! ## Words -/

/-- A text without a capital sigma is mapped to lower case character by character. -/
theorem lowercaseFrom_of_not_mem {chars : List Char} (h : '\u03a3' ∉ chars) (before done : List Char) :
    lowercaseFrom before done chars = done.reverse ++ chars.flatMap lowercaseChar := by
  induction chars generalizing before done with
  | nil => simp [lowercaseFrom]
  | cons c chars ih =>
    rw [List.mem_cons, not_or] at h
    rw [lowercaseFrom, ih h.2, lowercaseBetween, if_neg (Ne.symm h.1)]
    simp

/-- All spellings of a steady word have the same lower-case form. -/
theorem lowercase_eq_of_foldCase_eq {word name : String} (hname : ∀ c ∈ name.toList, IsSteady c)
    (hfold : word.toList.map foldCase = name.toList.map foldCase) : lowercase word = lowercase name := by
  have hpairs : List.Forall₂ (fun d c => foldCase d = foldCase c) word.toList name.toList := by
    rw [← List.forall₂_eq_eq_eq, List.forall₂_map_left_iff, List.forall₂_map_right_iff] at hfold
    exact hfold
  have hspellings : '\u03a3' ∉ word.toList ∧ '\u03a3' ∉ name.toList ∧
      word.toList.flatMap lowercaseChar = name.toList.flatMap lowercaseChar := by
    -- induction on the pairs of characters, each of which folds to the same
    generalize word.toList = chars at hpairs
    generalize name.toList = others at hpairs hname
    induction hpairs with
    | nil => simp
    | @cons d c chars others hdc _ ih =>
      rw [List.forall_mem_cons] at hname
      obtain ⟨hsigma, hlower⟩ := hname.1 d hdc
      obtain ⟨hchars, hothers, hrest⟩ := ih hname.2
      have hsigma' := (hname.1 c rfl).1
      simp [hchars, hothers, hrest, hlower, Ne.symm hsigma, Ne.symm hsigma']
  obtain ⟨hword, hname', hmapped⟩ := hspellings
  rw [lowercase, lowercase, lowercaseFrom_of_not_mem hword, lowercaseFrom_of_not_mem hname', hmapped]

end Unicode

end CommentTags
