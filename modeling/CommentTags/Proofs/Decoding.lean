import CommentTags.Json.Decode
import Mathlib.Data.List.Forall2
import Mathlib.Data.List.Nodup

/-!
# Decoding a text and decoding its value

A text is decoded while it is read, with all its fields in the order they stand. A value that was read before has
fewer of them: of fields with one name only the last is kept, and a host that sorts fields by name has them in
another order. This module shows when a decoder answers the same for a text and for its value.

## Main definitions

* `Reordered`: a value with the fields of its objects in another order;
* `Draft.Holds`: a draft holds a value, up to the order of fields;
* `Draft.Stable`: what a decoder answers for a draft it answers for every value that the draft holds.

## Main results

* `Draft.eq_array_of_holds` and `Draft.eq_object_of_holds`: a list holds the values that its elements hold, and
  an object has the fields of the record, as far as their names are not repeated;
* `Draft.Stable.toOption` and `Draft.Stable.toList`: decoders made of stable ones are stable.
-/

namespace CommentTags.Json

/-- A value with the fields of objects in another order. -/
inductive Reordered : Json → Json → Prop
  | null : Reordered null null
  | bool (b : Bool) : Reordered (bool b) (bool b)
  | number (n : Numeral) : Reordered (number n) (number n)
  | string (s : String) : Reordered (string s) (string s)
  | array {items items' : List Json} : List.Forall₂ Reordered items items' →
      Reordered (array items) (array items')
  | object {fields mid fields' : List (String × Json)} : fields.map Prod.fst = mid.map Prod.fst →
      List.Forall₂ Reordered (fields.map Prod.snd) (mid.map Prod.snd) → mid.Perm fields' →
      Reordered (object fields) (object fields')

mutual

/-- The fields may stay in their order. -/
theorem Reordered.refl : ∀ v : Json, Reordered v v
  | .null => .null
  | .bool b => .bool b
  | .number n => .number n
  | .string s => .string s
  | .array items => .array (Reordered.refl_items items)
  | .object fields => .object rfl (Reordered.refl_fields fields) (List.Perm.refl fields)

/-- The elements of a list may stay as they are. -/
theorem Reordered.refl_items : ∀ items : List Json, List.Forall₂ Reordered items items
  | [] => .nil
  | item :: rest => .cons (Reordered.refl item) (Reordered.refl_items rest)

/-- The values of fields may stay as they are. -/
theorem Reordered.refl_fields : ∀ fields : List (String × Json),
    List.Forall₂ Reordered (fields.map Prod.snd) (fields.map Prod.snd)
  | [] => .nil
  | (_, value) :: rest => .cons (Reordered.refl value) (Reordered.refl_fields rest)

end

/-- The value is neither a list nor an object. -/
def isScalar : Json → Bool
  | .array _ | .object _ => false
  | _ => true

/-! ## Steps that may fail -/

section Steps

variable {α β : Type}

/-- A step and the one after it succeed iff both do. -/
theorem bind_eq_ok_iff {x : Except Fault α} {f : α → Except Fault β} {b : β} :
    (x >>= f) = .ok b ↔ ∃ a, x = .ok a ∧ f a = .ok b := by
  cases x with
  | error e =>
    constructor
    · rintro ⟨⟩
    · rintro ⟨a, ⟨⟩, -⟩
  | ok a =>
    constructor
    · exact fun h => ⟨a, rfl, h⟩
    · rintro ⟨_, ⟨⟩, h⟩
      exact h

/-- What a step that succeeds answers is passed on. -/
theorem map_eq_ok_iff {x : Except Fault α} {f : α → β} {b : β} :
    x.map f = .ok b ↔ ∃ a, x = .ok a ∧ f a = b := by
  cases x with
  | error e =>
    constructor
    · rintro ⟨⟩
    · rintro ⟨a, ⟨⟩, -⟩
  | ok a =>
    constructor
    · rintro ⟨⟩
      exact ⟨a, rfl, rfl⟩
    · rintro ⟨_, ⟨⟩, rfl⟩
      rfl

theorem functor_map_eq (f : α → β) (x : Except Fault α) : f <$> x = x.map f :=
  rfl

/-- One step for each element of a list. -/
theorem mapM_eq_ok_iff {f : α → Except Fault β} {xs : List α} {ys : List β} :
    xs.mapM f = .ok ys ↔ List.Forall₂ (fun x y => f x = .ok y) xs ys := by
  induction xs generalizing ys with
  | nil =>
    rw [List.mapM_nil, List.forall₂_nil_left_iff]
    exact ⟨fun h => (Except.ok.inj h).symm, fun h => h ▸ rfl⟩
  | cons x rest ih =>
    rw [List.mapM_cons, bind_eq_ok_iff, List.forall₂_cons_left_iff]
    constructor
    · rintro ⟨y, hy, h⟩
      obtain ⟨tail, htail, h⟩ := bind_eq_ok_iff.1 h
      cases h
      exact ⟨y, tail, hy, ih.1 htail, rfl⟩
    · rintro ⟨y, tail, hy, htail, rfl⟩
      exact ⟨y, hy, bind_eq_ok_iff.2 ⟨tail, ih.2 htail, rfl⟩⟩

/-- Two relations between the elements of lists, one after the other. -/
theorem forall₂_comp {γ : Type} {R : α → β → Prop} {S : β → γ → Prop} {xs : List α} {ys : List β} {zs : List γ}
    (h : List.Forall₂ R xs ys) (h' : List.Forall₂ S ys zs) :
    List.Forall₂ (fun x z => ∃ y, R x y ∧ S y z) xs zs := by
  induction h generalizing zs with
  | nil =>
    cases h'
    exact .nil
  | cons hfirst _ ih =>
    cases h' with
    | cons hfirst' hrest' => exact .cons ⟨_, hfirst, hfirst'⟩ (ih hrest')

end Steps

namespace Draft

theorem ofItems_eq_map (items : List Json) : ofItems items = items.map ofJson := by
  induction items with
  | nil => rfl
  | cons item rest ih => rw [ofItems, ih, List.map_cons]

/-- A field whose name can be read. -/
def withName (field : String × Draft) : Except Fault String × Draft :=
  (.ok field.1, field.2)

/-- A field of an object. -/
def ofField (field : String × Json) : String × Draft :=
  (field.1, ofJson field.2)

theorem ofFields_eq_map (fields : List (String × Json)) :
    ofFields fields = (fields.map ofField).map withName := by
  induction fields with
  | nil => rfl
  | cons field rest ih => rw [ofFields, ih, List.map_cons, List.map_cons, ofField, withName]

/-- Nothing in a value is broken, so that it can be passed over. -/
theorem skip_ofJson (v : Json) : (ofJson v).skip = .ok () := by
  cases v <;> rfl

/-! ## The value of a draft -/

/-- The value is what is kept of the draft, up to the order of fields. -/
def Holds (d : Draft) (v : Json) : Prop :=
  ∃ depth kept, d.toJson? depth = .ok kept ∧ kept.Reordered v

variable {v : Json}

/-- Where there are no fields, exactly the value is kept. -/
theorem eq_of_holds_scalar (w : Json) (hw : w.isScalar = true) (h : (ofJson w).Holds v) : v = w := by
  obtain ⟨depth, kept, hkept, hv⟩ := h
  cases w with
  | array items => cases hw
  | object fields => cases hw
  | _ =>
    simp only [ofJson, toJson?, Except.map, Except.ok.injEq] at hkept
    subst hkept
    cases hv
    rfl

/-- A list holds the values that its elements hold. -/
theorem eq_array_of_holds {items : List Draft} {stop : Option Break} (h : (list items stop).Holds v) :
    stop = none ∧ ∃ values, v = .array values ∧ List.Forall₂ Holds items values := by
  obtain ⟨depth, kept, hkept, hv⟩ := h
  cases depth with
  | zero => cases hkept
  | succ depth =>
    rw [toJson?, bind_eq_ok_iff] at hkept
    obtain ⟨values, hvalues, hkept⟩ := hkept
    cases stop with
    | some cause => cases hkept
    | none =>
      cases hkept
      cases hv with
      | array hitems =>
        refine ⟨rfl, _, rfl, (forall₂_comp (mapM_eq_ok_iff.1 hvalues) hitems).imp ?_⟩
        rintro d value ⟨kept, hkept, hv⟩
        exact ⟨depth, kept, hkept, hv⟩

/-! ## The fields of an object -/

variable {p : String → Bool}

/-- A field with a new name is added at the end. -/
theorem filter_setField_of_pos {kept : List (String × Json)} {name : String} (hname : p name = true)
    (hnew : name ∉ (kept.filter fun field => p field.1).map Prod.fst) (value : Json) :
    (setField kept name value).filter (fun field => p field.1) =
      kept.filter (fun field => p field.1) ++ [(name, value)] := by
  induction kept with
  | nil => simp [setField, hname]
  | cons field rest ih =>
    rw [setField]
    by_cases heq : field.1 = name
    · subst heq
      simp [hname] at hnew
    · rw [if_neg (by simpa using heq)]
      by_cases hp : p field.1 = true
      · rw [List.filter_cons, if_pos hp, List.map_cons, List.mem_cons, not_or] at hnew
        rw [List.filter_cons, List.filter_cons, if_pos hp, if_pos hp, ih hnew.2, List.cons_append]
      · rw [List.filter_cons, if_neg hp] at hnew
        rw [List.filter_cons, List.filter_cons, if_neg hp, if_neg hp, ih hnew]

/-- Setting a field leaves those with other names alone. -/
theorem filter_setField_of_neg {name : String} (hname : ¬ p name = true) (kept : List (String × Json))
    (value : Json) :
    (setField kept name value).filter (fun field => p field.1) = kept.filter fun field => p field.1 := by
  induction kept with
  | nil => simp [setField, hname]
  | cons field rest ih =>
    rw [setField]
    by_cases heq : field.1 = name
    · rw [if_pos (by simpa using heq)]
      subst heq
      rw [List.filter_cons, List.filter_cons, if_neg hname, if_neg hname]
    · rw [if_neg (by simpa using heq), List.filter_cons, List.filter_cons, ih]

/-- Of fields that are kept the names can be read. -/
theorem exists_eq_map_of_keepFields {keep : Draft → Except Fault Json}
    {fields : List (Except Fault String × Draft)} {earlier kept : List (String × Json)}
    (h : keepFields keep earlier fields = .ok kept) :
    ∃ named : List (String × Draft), fields = named.map withName := by
  induction fields generalizing earlier with
  | nil => exact ⟨[], rfl⟩
  | cons field rest ih =>
    obtain ⟨name, d⟩ := field
    rw [keepFields, bind_eq_ok_iff] at h
    obtain ⟨name, rfl, h⟩ := h
    obtain ⟨value, -, h⟩ := bind_eq_ok_iff.1 h
    obtain ⟨named, rfl⟩ := ih h
    exact ⟨(name, d) :: named, rfl⟩

/-- Fields whose names are not repeated are kept in their order, whatever other fields there are. -/
theorem filter_keepFields {keep : Draft → Except Fault Json} {fields : List (String × Draft)}
    {earlier kept : List (String × Json)} (h : keepFields keep earlier (fields.map withName) = .ok kept)
    (hnodup : ((earlier.filter fun field => p field.1).map Prod.fst ++
      (fields.filter fun field => p field.1).map Prod.fst).Nodup) :
    ∃ new, kept.filter (fun field => p field.1) = earlier.filter (fun field => p field.1) ++ new ∧
      List.Forall₂ (fun field value => field.1 = value.1 ∧ keep field.2 = .ok value.2)
        (fields.filter fun field => p field.1) new := by
  -- by induction on the fields, with any fields kept before whose names are not repeated either
  induction fields generalizing earlier with
  | nil =>
    cases h
    exact ⟨[], (List.append_nil _).symm, .nil⟩
  | cons field rest ih =>
    rw [List.map_cons, withName, keepFields, bind_eq_ok_iff] at h
    obtain ⟨_, ⟨⟩, h⟩ := h
    obtain ⟨value, hvalue, h⟩ := bind_eq_ok_iff.1 h
    rw [List.filter_cons] at hnodup ⊢
    by_cases hname : p field.1 = true
    · rw [if_pos hname] at hnodup ⊢
      have hnew : field.1 ∉ (earlier.filter fun field => p field.1).map Prod.fst := by
        intro hmem
        exact (List.nodup_append.1 hnodup).2.2 field.1 hmem field.1 List.mem_cons_self rfl
      have hset := filter_setField_of_pos hname hnew value
      obtain ⟨new, hkept, hnew⟩ := ih h (by
        rw [hset, List.map_append, List.append_assoc]
        exact hnodup)
      refine ⟨(field.1, value) :: new, ?_, .cons ⟨rfl, hvalue⟩ hnew⟩
      rw [hkept, hset, List.append_assoc, List.singleton_append]
    · rw [if_neg hname] at hnodup ⊢
      have hset := filter_setField_of_neg hname earlier value
      obtain ⟨new, hkept, hnew⟩ := ih h (by rwa [hset])
      exact ⟨new, by rw [hkept, hset], hnew⟩

/-- The fields of an object in another order. -/
theorem forall₂_fields {fields mid : List (String × Json)} (hnames : fields.map Prod.fst = mid.map Prod.fst)
    (hvalues : List.Forall₂ Reordered (fields.map Prod.snd) (mid.map Prod.snd)) :
    List.Forall₂ (fun a b => a.1 = b.1 ∧ a.2.Reordered b.2) fields mid := by
  induction fields generalizing mid with
  | nil =>
    cases mid with
    | nil => exact .nil
    | cons field rest => cases hnames
  | cons field rest ih =>
    cases mid with
    | nil => cases hnames
    | cons field' rest' =>
      rw [List.map_cons, List.map_cons, List.cons.injEq] at hnames
      rw [List.map_cons, List.map_cons, List.forall₂_cons] at hvalues
      exact .cons ⟨hnames.1, hvalues.1⟩ (ih hnames.2 hvalues.2)

/-- A record holds an object. Of any names that are not repeated among its fields the object has the same
fields, in some order. -/
theorem eq_object_of_holds {fields : List (Except Fault String × Draft)} {stop : Option Break}
    (h : (record fields stop).Holds v) :
    stop = none ∧ ∃ (named : List (String × Draft)) (fields' : List (String × Json)),
      fields = named.map withName ∧ v = .object fields' ∧
      ∀ p : String → Bool, ((named.filter fun field => p field.1).map Prod.fst).Nodup →
        ∃ mid, List.Forall₂ (fun field value => field.1 = value.1 ∧ field.2.Holds value.2)
            (named.filter fun field => p field.1) mid ∧
          mid.Perm (fields'.filter fun field => p field.1) := by
  obtain ⟨depth, kept, hkept, hv⟩ := h
  cases depth with
  | zero => cases hkept
  | succ depth =>
    rw [toJson?, bind_eq_ok_iff] at hkept
    obtain ⟨kept, hfields, hkept⟩ := hkept
    obtain ⟨named, hnamed⟩ := exists_eq_map_of_keepFields hfields
    cases stop with
    | some cause => cases hkept
    | none =>
      cases hkept
      subst hnamed
      cases hv with
      | @object _ mid fields' hnames hvalues hperm =>
        refine ⟨rfl, named, fields', rfl, rfl, fun p hnodup => ?_⟩
        obtain ⟨new, hnew, hall⟩ := filter_keepFields hfields hnodup
        rw [List.filter_nil, List.nil_append] at hnew
        subst hnew
        -- the values of the fields are reordered in their places, and then the fields themselves
        have hmid : List.Forall₂ (fun a b => a.1 = b.1 ∧ a.2.Reordered b.2)
            (kept.filter fun field => p field.1) (mid.filter fun field => p field.1) :=
          List.rel_filter (fun a b hab => iff_of_eq (congrArg (p · = true) hab.1))
            (forall₂_fields hnames hvalues)
        refine ⟨mid.filter fun field => p field.1, (forall₂_comp hall hmid).imp ?_, hperm.filter _⟩
        rintro field value ⟨held, ⟨hname, hheld⟩, hname', hvalue⟩
        exact ⟨hname.trans hname', depth, held.2, hheld, hvalue⟩

/-! ## Stable decoders -/

/-- What the decoder answers for a draft it answers for every value that the draft holds. -/
def Stable {α : Type} (decode : Draft → Except Fault α) : Prop :=
  ∀ {d : Draft} {v : Json} {a : α}, d.Holds v → decode d = .ok a → decode (ofJson v) = .ok a

theorem stable_toBool : Stable toBool := by
  intro d v b hv h
  cases d with
  | bool b' => rw [eq_of_holds_scalar (.bool b') rfl hv, ofJson, h]
  | _ => cases h

theorem stable_toText : Stable toText := by
  intro d v s hv h
  cases d with
  | text kept =>
    cases kept with
    | error fault => cases h
    | ok s' => rw [eq_of_holds_scalar (.string s') rfl hv, ofJson, h]
  | _ => cases h

theorem stable_toNatural : Stable toNatural := by
  intro d v n hv h
  cases d with
  | number kept =>
    cases kept with
    | error fault => cases h
    | ok n' => rw [eq_of_holds_scalar (.number n') rfl hv, ofJson, h]
  | _ => cases h

section

variable {α β : Type} {decode : Draft → Except Fault α}

/-- What is made of a decoded value afterwards does not matter. -/
theorem Stable.bind (hdecode : Stable decode) (f : α → Except Fault β) : Stable fun d => decode d >>= f := by
  intro d v b hv h
  obtain ⟨a, ha, hb⟩ := bind_eq_ok_iff.1 h
  exact bind_eq_ok_iff.2 ⟨a, hdecode hv ha, hb⟩

/-- Only `null` holds the value `null`. -/
theorem eq_null_of_holds {d : Draft} (h : d.Holds .null) : d = null := by
  cases d with
  | null => rfl
  | bool b => cases eq_of_holds_scalar (.bool b) rfl h
  | number kept =>
    cases kept with
    | error fault =>
      obtain ⟨depth, kept, hkept, -⟩ := h
      simp [toJson?, Except.map] at hkept
    | ok n => cases eq_of_holds_scalar (.number n) rfl h
  | text kept =>
    cases kept with
    | error fault =>
      obtain ⟨depth, kept, hkept, -⟩ := h
      simp [toJson?, Except.map] at hkept
    | ok s => cases eq_of_holds_scalar (.string s) rfl h
  | list items stop =>
    obtain ⟨-, values, hvalues, -⟩ := eq_array_of_holds h
    cases hvalues
  | record fields stop =>
    obtain ⟨-, named, fields', -, hfields, -⟩ := eq_object_of_holds h
    cases hfields
  | broken cause =>
    obtain ⟨depth, kept, hkept, -⟩ := h
    simp [toJson?] at hkept

theorem toOption_of_ne_null {d : Draft} (hd : d ≠ null) : d.toOption decode = (decode d).map some := by
  cases d with
  | null => exact absurd rfl hd
  | _ => rfl

theorem Stable.toOption (hdecode : Stable decode) : Stable (Draft.toOption decode) := by
  intro d v o hv h
  by_cases hd : d = null
  · subst hd
    rw [eq_of_holds_scalar .null rfl hv]
    exact h
  · have hd' : ofJson v ≠ null := by
      intro hnull
      cases v with
      | null => exact hd (eq_null_of_holds hv)
      | _ => cases hnull
    rw [toOption_of_ne_null hd, map_eq_ok_iff] at h
    obtain ⟨a, ha, rfl⟩ := h
    rw [toOption_of_ne_null hd', hdecode hv ha]
    rfl

/-- The elements of a list are decoded as those of the list it is kept as. -/
theorem Stable.mapM (hdecode : Stable decode) {items : List Draft} {values : List Json} {as : List α}
    (hvalues : List.Forall₂ Holds items values) (h : items.mapM decode = .ok as) :
    (values.map ofJson).mapM decode = .ok as := by
  rw [mapM_eq_ok_iff, List.forall₂_map_left_iff]
  refine (forall₂_comp hvalues.flip (mapM_eq_ok_iff.1 h)).imp ?_
  rintro value a ⟨d, hd, ha⟩
  exact hdecode hd ha

theorem Stable.toList (hdecode : Stable decode) : Stable (Draft.toList decode) := by
  intro d v as hv h
  cases d with
  | list items stop =>
    obtain ⟨rfl, values, rfl, hvalues⟩ := eq_array_of_holds hv
    rw [Draft.toList, bind_eq_ok_iff] at h
    obtain ⟨as, has, h⟩ := h
    cases h
    rw [ofJson, ofItems_eq_map, Draft.toList, bind_eq_ok_iff]
    exact ⟨as, hdecode.mapM hvalues has, rfl⟩
  | _ => cases h

end

end Draft

end CommentTags.Json
