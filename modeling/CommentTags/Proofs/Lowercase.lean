import CommentTags.Proofs.Casing

/-!
# Lower case once and for all

A text in lower case is not changed by mapping it to lower case again. This rests on the table of mappings, where no
character that something is mapped to is mapped itself, and it includes the two exceptions: what a capital I with a
dot above becomes stays as it is, and so do both forms of the small sigma.

## Main definitions

* `Unicode.IsLower`: a character that is its own lower-case form.

## Main results

* `Unicode.isLower_of_mem_lowercaseFrom`: a text in lower case has no other characters;
* `Unicode.lowercase_lowercase`: mapping to lower case is idempotent.
-/

namespace CommentTags.Unicode

/-- `c` is its own lower-case form. -/
def IsLower (c : Char) : Prop :=
  lowercaseChar c = [c]

instance (c : Char) : Decidable (IsLower c) :=
  inferInstanceAs (Decidable (_ = _))

/-- The capital sigma, whose lower-case form depends on its neighbours, is not its own. -/
theorem IsLower.ne_sigma {c : Char} (h : IsLower c) : c ≠ '\u03a3' := by
  rintro rfl
  exact absurd h (by decide +kernel)

/-! ## The table -/

/-- None of the code points that `other` maps is an image of `run`: they lie apart, or both go two steps at a time
and never meet. -/
def CharRun.avoids (run other : CharRun) : Bool :=
  Nat.blt other.last run.image || Nat.blt (run.image + (run.last - run.first)) other.first ||
    decide (other.step = 2 ∧ (run.step = 2 ∨ run.first = run.last) ∧ (run.image + other.first) % 2 = 1)

theorem CharRun.avoids_iff {run other : CharRun} :
    run.avoids other = true ↔
      other.last < run.image ∨ run.image + (run.last - run.first) < other.first ∨
        other.step = 2 ∧ (run.step = 2 ∨ run.first = run.last) ∧ (run.image + other.first) % 2 = 1 := by
  rw [avoids, Bool.or_eq_true, Bool.or_eq_true, decide_eq_true_eq, Nat.blt_eq, Nat.blt_eq, or_assoc]

/-- Runs whose images all runs avoid do not map an image any further. -/
theorem CharRun.image?_eq_none {runs : Array CharRun} {run : CharRun} {code : Nat}
    (havoids : ∀ other ∈ runs, run.avoids other = true) (hlast : code ≤ run.last)
    (hstep : (code - run.first) % run.step = 0) : image? runs (run.image + (code - run.first)) = none := by
  rw [Option.eq_none_iff_forall_ne_some]
  intro image himage
  obtain ⟨other, hother, hfirst', hlast', hstep', -⟩ := exists_of_image? himage
  rcases CharRun.avoids_iff.1 (havoids other hother) with hbehind | hbefore | ⟨htwo, heven, hodd⟩
  · omega
  · omega
  -- the image is an even number of places from the start of one run and from the image of the other
  · rw [htwo] at hstep'
    rcases heven with heven | hsingle
    · rw [heven] at hstep
      omega
    · omega

/-- No image of the table is mapped any further. -/
theorem avoids_of_mem_lowercaseMappings :
    ∀ run ∈ lowercaseMappings, ∀ other ∈ lowercaseMappings, run.avoids other = true := by
  have hall : lowercaseMappings.toList.all (fun run =>
      lowercaseMappings.toList.all fun other => run.avoids other) = true := by
    decide +kernel
  simp only [List.all_eq_true, Array.mem_toList_iff] at hall
  exact hall

/-- Of the characters beyond ASCII only the Kelvin sign has its lower-case form in ASCII, and none is mapped to the
capital I with a dot above. -/
theorem keepsApart_of_mem_lowercaseMappings :
    ∀ run ∈ lowercaseMappings,
      (run.image + (run.last - run.first) < 0x130 ∨ 0x130 < run.image) ∧
        (run.KeepsApart ∨ run.first = 0x212A ∧ run.last = 0x212A ∧ run.image = 0x6B) := by
  have hall : lowercaseMappings.toList.all (fun run => decide (
      (run.image + (run.last - run.first) < 0x130 ∨ 0x130 < run.image) ∧
        (run.KeepsApart ∨ run.first = 0x212A ∧ run.last = 0x212A ∧ run.image = 0x6B))) = true := by
    decide +kernel
  simp only [List.all_eq_true, decide_eq_true_eq, Array.mem_toList_iff] at hall
  exact hall

/-! ## Characters -/

/-- A character beyond ASCII that the table does not map is its own lower-case form. -/
theorem isLower_of_image? {c : Char} (hc : 0x80 ≤ c.toNat) (hdot : c ≠ '\u0130')
    (himage : CharRun.image? lowercaseMappings c.toNat = none) : IsLower c := by
  rw [IsLower, lowercaseChar, if_neg (Nat.not_lt.2 hc), if_neg hdot, CharRun.apply, himage]

/-- What the table maps a character beyond ASCII to is its own lower-case form. -/
theorem isLower_apply {c : Char} (hc : 0x80 ≤ c.toNat) (hdot : c ≠ '\u0130') :
    IsLower (CharRun.apply lowercaseMappings c) := by
  rw [CharRun.apply]
  cases himage : CharRun.image? lowercaseMappings c.toNat with
  | none => exact isLower_of_image? hc hdot himage
  | some image =>
    dsimp only
    obtain ⟨run, hrun, hfirst, hlast, hstep, rfl⟩ := CharRun.exists_of_image? himage
    obtain ⟨hdotted, hkeeps | ⟨h₁, h₂, h₃⟩⟩ := keepsApart_of_mem_lowercaseMappings run hrun
    · obtain ⟨hbeyond, hcode⟩ := hkeeps.toNat_ofNat hc hlast
      refine isLower_of_image? (by omega) (fun heq => ?_) ?_
      · rw [heq] at hcode
        have hdotCode : '\u0130'.toNat = 0x130 := rfl
        omega
      · rw [hcode]
        exact CharRun.image?_eq_none (avoids_of_mem_lowercaseMappings run hrun) hlast hstep
    -- the Kelvin sign
    · have hcode : c.toNat = 0x212A := by omega
      rw [h₁, h₃, hcode]
      decide

/-- The lower-case form of an ASCII character is its own. -/
theorem isLower_toLower {c : Char} (hc : c.toNat < 0x80) : IsLower c.toLower := by
  have htwice : c.toLower.toLower = c.toLower := apply_toLower (by decide) c
  rw [IsLower, lowercaseChar, if_pos (toNat_toLower_lt hc), htwice]

/-- Whatever its neighbours, a character becomes characters that are their own lower-case forms. -/
theorem isLower_of_mem_lowercaseBetween {before after : List Char} {c d : Char}
    (h : d ∈ lowercaseBetween before c after) : IsLower d := by
  rw [lowercaseBetween] at h
  split at h
  -- the capital sigma becomes one of two small ones
  · rw [List.mem_singleton, lowercaseSigma] at h
    split at h
    all_goals
      subst h
      decide +kernel
  · rw [lowercaseChar] at h
    split at h
    · next hascii =>
      rw [List.mem_singleton.1 h]
      exact isLower_toLower hascii
    · next hascii =>
      split at h
      · rcases List.mem_pair.1 h with rfl | rfl
        all_goals decide +kernel
      · next hdot =>
        rw [List.mem_singleton.1 h]
        exact isLower_apply (Nat.le_of_not_lt hascii) hdot

/-! ## Texts -/

/-- A text in lower case has only characters that are their own lower-case forms. -/
theorem isLower_of_mem_lowercaseFrom {before done chars : List Char} (hdone : ∀ d ∈ done, IsLower d) :
    ∀ d ∈ lowercaseFrom before done chars, IsLower d := by
  induction chars generalizing before done with
  | nil =>
    intro d hd
    exact hdone d (List.mem_reverse.1 hd)
  | cons c chars ih =>
    refine ih fun d hd => ?_
    rcases List.mem_append.1 hd with hd | hd
    · exact isLower_of_mem_lowercaseBetween (List.mem_reverse.1 hd)
    · exact hdone d hd

/-- Characters that are their own lower-case forms stay as they are. -/
theorem lowercase_eq_self {s : String} (h : ∀ c ∈ s.toList, IsLower c) : lowercase s = s := by
  have hsigma : '\u03a3' ∉ s.toList := fun hmem => (h _ hmem).ne_sigma rfl
  have hself : s.toList.flatMap lowercaseChar = s.toList := by
    rw [List.flatMap_congr h, List.flatMap_singleton']
  rw [lowercase, lowercaseFrom_of_not_mem hsigma, hself, List.reverse_nil, List.nil_append,
    String.ofList_toList]

/-- Lower case is mapped to itself. -/
@[simp]
theorem lowercase_lowercase (s : String) : lowercase (lowercase s) = lowercase s := by
  refine lowercase_eq_self fun c hc => ?_
  rw [lowercase, String.toList_ofList] at hc
  exact isLower_of_mem_lowercaseFrom (fun d hd => absurd hd List.not_mem_nil) c hc

-- the dotted I becomes two characters, the sigma at the end takes its final form, and both stay
example : lowercase "İΟΣ" = "i\u0307ος" ∧ lowercase "i\u0307ος" = "i\u0307ος" := by decide +kernel

end CommentTags.Unicode
