import CommentTags.Config
import CommentTags.Proofs.RecordReader

/-!
# A configuration as a text and as a value

A configuration may be decoded while its text is read, or from the value of the text. Where the text can be
decoded and has a value, both give the same configuration, however the host orders the fields of objects.

The module introduces `TagEntry.slots` and `ScanConfig.slots`, the places of the fields of either record. The
main result is `ScanConfig.ofValue_of_ofText`.
-/

namespace CommentTags

open Json

namespace TagNames

/-- A name is kept at any depth. -/
theorem toJson?_of_toText {d : Draft} {name : String} (h : d.toText = .ok name) (depth : Nat) :
    d.toJson? depth = .ok (.string name) := by
  cases d with
  | text kept =>
    cases kept with
    | error fault => cases h
    | ok s =>
      cases h
      simp [Draft.toJson?, Except.map]
  | _ => cases h

/-- The names of a tag are kept as a whole before they are read. The limit of depth does not matter for a value:
a name has no depth, and a list of names has depth one. -/
theorem stable_decode : Draft.Stable TagNames.decode := by
  intro d v names hv h
  obtain ⟨kept, -, h⟩ := bind_eq_ok_iff.1 h
  cases d with
  | text kept =>
    cases kept with
    | error fault => cases h
    | ok name =>
      rw [Draft.eq_of_holds_scalar (.string name) rfl hv]
      exact bind_eq_ok_iff.2 ⟨.string name, toJson?_of_toText rfl _, h⟩
  | list items stop =>
    obtain ⟨many, hmany, rfl⟩ := map_eq_ok_iff.1 h
    obtain ⟨-, values, rfl, -⟩ := Draft.eq_array_of_holds hv
    have hvalue := Draft.stable_toText.toList hv hmany
    have hnames := hvalue
    rw [Draft.ofJson, Draft.toList, bind_eq_ok_iff] at hnames
    obtain ⟨many', hnames, heq⟩ := hnames
    cases heq
    -- the value keeps the names that were read, as a list of strings
    refine bind_eq_ok_iff.2 ⟨.array (many.map .string), ?_, map_eq_ok_iff.2 ⟨many, hvalue, rfl⟩⟩
    rw [Draft.ofJson, Draft.maxDepth, depthInConfig, Draft.toJson?, bind_eq_ok_iff]
    refine ⟨many.map .string, mapM_eq_ok_iff.2 ?_, rfl⟩
    rw [List.forall₂_map_right_iff]
    exact (mapM_eq_ok_iff.1 hnames).imp fun d name hname => toJson?_of_toText hname _
  | _ => cases h

end TagNames

namespace TagEntry

/-- The places of the fields of a tag entry. -/
def slots : List (String × Slot Fields) := [
  ("tag", ⟨Fields.tag, fun fields o => { fields with tag := o }, TagNames.decode⟩),
  ("color", ⟨Fields.color, fun fields o => { fields with color := o }, Draft.toOption Draft.toText⟩),
  ("backgroundColor", ⟨Fields.backgroundColor, fun fields o => { fields with backgroundColor := o },
    Draft.toOption Draft.toText⟩),
  ("strikethrough", ⟨Fields.strikethrough, fun fields o => { fields with strikethrough := o },
    Draft.toOption Draft.toBool⟩),
  ("underline", ⟨Fields.underline, fun fields o => { fields with underline := o },
    Draft.toOption Draft.toBool⟩),
  ("bold", ⟨Fields.bold, fun fields o => { fields with bold := o }, Draft.toOption Draft.toBool⟩),
  ("italic", ⟨Fields.italic, fun fields o => { fields with italic := o }, Draft.toOption Draft.toBool⟩),
  ("multiline", ⟨Fields.multiline, fun fields o => { fields with multiline := o }, Draft.toBool⟩)]

/-- The fields of a tag entry do not interfere. -/
theorem readsSlots : ReadsSlots slots Fields.set where
  known := by
    simp only [slots, List.forall_mem_cons, List.not_mem_nil, false_implies, Fields.set, bind_pure_comp,
      functor_map_eq, Slot.read, implies_true, and_self]
  other := by
    intro name hname fields d
    rw [Fields.set]
    · cases d.skip <;> rfl
    all_goals
      rintro rfl
      exact hname (by decide)
  get_put := by simp [slots]
  stable := by
    simp only [slots, List.forall_mem_cons]
    exact ⟨TagNames.stable_decode, Draft.stable_toText.toOption, Draft.stable_toText.toOption,
      Draft.stable_toBool.toOption, Draft.stable_toBool.toOption, Draft.stable_toBool.toOption,
      Draft.stable_toBool.toOption, Draft.stable_toBool, fun _ h => absurd h List.not_mem_nil⟩
  apart := by
    simp only [slots, List.pairwise_cons, List.forall_mem_cons, List.not_mem_nil, false_implies,
      List.Pairwise.nil, Slot.apart_iff, implies_true, and_self]

theorem stable_decode : Draft.Stable decode := by
  intro d v entry hv h
  rw [decode, ← bind_assoc] at h ⊢
  exact Draft.Stable.bind (readsSlots.stable_read fieldNames {}) Fields.entry hv h

theorem stable_decodeList : Draft.Stable decodeList :=
  stable_decode.toList

end TagEntry

namespace ScanConfig

/-- The places of the fields of a configuration. -/
def slots : List (String × Slot Fields) := [
  ("multilineComments", ⟨Fields.multilineComments, fun fields o => { fields with multilineComments := o },
    Draft.toBool⟩),
  ("useJSDocStyle", ⟨Fields.useJSDocStyle, fun fields o => { fields with useJSDocStyle := o }, Draft.toBool⟩),
  ("highlightPlainText", ⟨Fields.highlightPlainText, fun fields o => { fields with highlightPlainText := o },
    Draft.toBool⟩),
  ("tags", ⟨Fields.tags, fun fields o => { fields with tags := o }, TagEntry.decodeList⟩),
  ("tagsLight", ⟨Fields.tagsLight, fun fields o => { fields with tagsLight := o }, TagEntry.decodeList⟩),
  ("tagsDark", ⟨Fields.tagsDark, fun fields o => { fields with tagsDark := o }, TagEntry.decodeList⟩),
  ("preloadLines", ⟨Fields.preloadLines, fun fields o => { fields with preloadLines := o }, Draft.toNatural⟩),
  ("updateDelay", ⟨Fields.updateDelay, fun fields o => { fields with updateDelay := o }, Draft.toNatural⟩),
  ("debounce", ⟨Fields.debounce, fun fields o => { fields with debounce := o }, Draft.toNatural⟩)]

/-- The fields of a configuration do not interfere. -/
theorem readsSlots : ReadsSlots slots Fields.set where
  known := by
    simp only [slots, List.forall_mem_cons, List.not_mem_nil, false_implies, Fields.set, bind_pure_comp,
      functor_map_eq, Slot.read, implies_true, and_self]
  other := by
    intro name hname fields d
    rw [Fields.set]
    · cases d.skip <;> rfl
    all_goals
      rintro rfl
      exact hname (by decide)
  get_put := by simp [slots]
  stable := by
    simp only [slots, List.forall_mem_cons]
    exact ⟨Draft.stable_toBool, Draft.stable_toBool, Draft.stable_toBool, TagEntry.stable_decodeList,
      TagEntry.stable_decodeList, TagEntry.stable_decodeList, Draft.stable_toNatural, Draft.stable_toNatural,
      Draft.stable_toNatural, fun _ h => absurd h List.not_mem_nil⟩
  apart := by
    simp only [slots, List.pairwise_cons, List.forall_mem_cons, List.not_mem_nil, false_implies,
      List.Pairwise.nil, Slot.apart_iff, implies_true, and_self]

theorem stable_decode : Draft.Stable decode := by
  intro d v config hv h
  rw [decode, ← bind_assoc] at h ⊢
  exact Draft.Stable.bind (readsSlots.stable_read fieldNames {}) (fun fields => pure fields.config) hv h

/-- A text that is decoded to a configuration and has a value: the value is decoded to the same configuration,
with the fields of its objects in any order. -/
theorem ofValue_of_ofText {s : String} {config : ScanConfig} {v : Json} (hconfig : ofText s = .ok config)
    (hv : Json.ofText s = .ok v) :
    ofValue v = .ok config ∧ ∀ v', v.Reordered v' → ofValue v' = .ok config := by
  have hall : ∀ v', v.Reordered v' → ofValue v' = .ok config := by
    intro v' hv'
    obtain ⟨c, hc, hconfig⟩ := bind_eq_ok_iff.1 hconfig
    obtain ⟨kept, hkept, hv⟩ := bind_eq_ok_iff.1 hv
    split at hconfig
    · cases hconfig
    · next hend =>
      rw [if_neg hend] at hv
      cases hconfig
      cases hv
      rw [ofValue, decodeValue, stable_decode ⟨_, _, hkept, hv'⟩ hc]
      rfl
  exact ⟨hall v (Reordered.refl v), hall⟩

/-- A name that is not known stands twice in the text and once in the value, where a host may sort it to the
end; the tag entry is a list. -/
theorem ofValue_of_ofText_repeated_name :
    let s := "\x7b\"x\":1,\"tags\":[[\"!\",null]],\"x\":[]\x7d"
    let config : ScanConfig := { tags := [{ tag := .one "!" }] }
    let tags := Json.array [.array [.string "!", .null]]
    let v := Json.object [("x", .array []), ("tags", tags)]
    let v' := Json.object [("tags", tags), ("x", .array [])]
    ofText s = .ok config ∧ Json.ofText s = .ok v ∧ v.Reordered v' ∧ ofValue v = .ok config ∧
      ofValue v' = .ok config := by
  intro s config tags v v'
  have hconfig : ofText s = .ok config := by
    have heval : (ofText s).toOption = some config := by decide +kernel
    cases hresult : ofText s with
    | error fault =>
      rw [hresult] at heval
      cases heval
    | ok config' =>
      rw [hresult] at heval
      rw [Option.some.inj heval]
  have hv : Json.ofText s = .ok v := by
    -- the lexemes of a text are found by well-founded recursion
    dsimp only [s, v, tags]
    with_unfolding_all rfl
  have hv' : v.Reordered v' := .object rfl (Reordered.refl_fields _) (List.Perm.swap _ _ _)
  obtain ⟨hvalue, hall⟩ := ofValue_of_ofText hconfig hv
  exact ⟨hconfig, hv, hv', hvalue, hall v' hv'⟩

end ScanConfig

end CommentTags
