import CommentTags.Proofs.Decoding
import Mathlib.Data.List.Pairwise
import Mathlib.Tactic.MkIffOfInductiveProp

/-!
# Reading records

A reader of records looks at one field after the other. Each field that it knows has a place of its own and may
be given once; fields with other names are passed over.

## Main definitions

* `Slot`: the place of a field in a record that is being read;
* `KeepsSlots`: a reader keeps the fields it knows in places that do not interfere;
* `ReadsSlots`: moreover it reads a value as it reads the text of the value;
* `FillsSlots`: moreover a record is made of what is in the places;
* `readAll`: reads several fields with names;
* `valuesOf`: the values of the fields with a name.

## Main results

* `FillsSlots.readAll_eq_ok_iff`: which records are read from several fields;
* `ReadsSlots.readAll_perm`: the order of the fields that are known does not matter;
* `ReadsSlots.stable_read`: a record that was read from a draft can be read from every value that it holds.
-/

namespace CommentTags.Json

/-- The place of a field in a record that is being read. -/
structure Slot (α : Type) where
  /-- The type of the values. -/
  {β : Type}
  /-- The value read so far. -/
  get : α → Option β
  /-- The record with another value. -/
  put : α → Option β → α
  /-- How the value is read. -/
  decode : Draft → Except Fault β

namespace Slot

variable {α : Type}

/-- Reads the field. -/
def read (slot : Slot α) (record : α) (d : Draft) : Except Fault α :=
  (once (slot.get record) slot.decode d).map (slot.put record)

/-- Two places do not interfere. -/
@[mk_iff]
structure Apart (a b : Slot α) : Prop where
  get_put : ∀ record o, a.get (b.put record o) = a.get record
  put_get : ∀ record o, b.get (a.put record o) = b.get record
  put_comm : ∀ record o o', a.put (b.put record o) o' = b.put (a.put record o') o

theorem Apart.symm {a b : Slot α} (h : Apart a b) : Apart b a :=
  ⟨h.put_get, h.get_put, fun record o o' => (h.put_comm record o' o).symm⟩

/-- A field is read iff it was not given before and its value can be decoded. -/
theorem read_eq_ok_iff {slot : Slot α} {record record' : α} {d : Draft} :
    slot.read record d = .ok record' ↔
      slot.get record = none ∧ ∃ x, slot.decode d = .ok x ∧ slot.put record (some x) = record' := by
  rw [read, map_eq_ok_iff]
  cases hget : slot.get record with
  | some x =>
    constructor
    · rintro ⟨o, ⟨⟩, -⟩
    · rintro ⟨⟨⟩, -⟩
  | none =>
    constructor
    · rintro ⟨o, ho, rfl⟩
      obtain ⟨x, hx, rfl⟩ := map_eq_ok_iff.1 ho
      exact ⟨rfl, x, hx, rfl⟩
    · rintro ⟨-, x, hx, rfl⟩
      exact ⟨some x, map_eq_ok_iff.2 ⟨x, hx, rfl⟩, rfl⟩

end Slot

/-- The name is that of a known field. -/
def Slot.knows {α : Type} (slots : List (String × Slot α)) (name : String) : Bool :=
  decide (name ∈ slots.map Prod.fst)

theorem Slot.knows_iff {α : Type} {slots : List (String × Slot α)} {name : String} :
    Slot.knows slots name = true ↔ ∃ p ∈ slots, p.1 = name := by
  rw [Slot.knows, decide_eq_true_eq, List.mem_map]

/-- `set` keeps the fields with the names of `slots` in these places, which do not interfere, and passes over
all others as `pass` does. -/
structure KeepsSlots {α : Type} (slots : List (String × Slot α)) (pass : Draft → Except Fault Unit)
    (set : α → String → Draft → Except Fault α) : Prop where
  known : ∀ p ∈ slots, ∀ record d, set record p.1 d = p.2.read record d
  other : ∀ name, ¬ Slot.knows slots name = true → ∀ record d, set record name d = (pass d).map fun _ => record
  get_put : ∀ p ∈ slots, ∀ record o, p.2.get (p.2.put record o) = o
  apart : slots.Pairwise fun p q => p.2.Apart q.2

/-- The places of different fields do not interfere. -/
theorem KeepsSlots.apart_of_ne {α : Type} {slots : List (String × Slot α)} {pass : Draft → Except Fault Unit}
    {set : α → String → Draft → Except Fault α} (h : KeepsSlots slots pass set) {a b : String × Slot α}
    (ha : a ∈ slots) (hb : b ∈ slots) (hab : a.1 ≠ b.1) : a.2.Apart b.2 := by
  have hsymm : Std.Symm fun p q : String × Slot α => p.2.Apart q.2 := ⟨fun _ _ hpq => hpq.symm⟩
  exact h.apart.forall ha hb fun heq => hab (congrArg Prod.fst heq)

/-- `set` keeps fields in their places, skips all others, and reads values as it reads their texts. -/
structure ReadsSlots {α : Type} (slots : List (String × Slot α)) (set : α → String → Draft → Except Fault α) :
    Prop extends KeepsSlots slots Draft.skip set where
  stable : ∀ p ∈ slots, Draft.Stable p.2.decode

/-- `set` keeps fields in their places, each with a name of its own, and a record is made of what is in them. -/
structure FillsSlots {α : Type} (slots : List (String × Slot α)) (pass : Draft → Except Fault Unit)
    (set : α → String → Draft → Except Fault α) : Prop extends KeepsSlots slots pass set where
  nodup : (slots.map Prod.fst).Nodup
  ext : ∀ record record', (∀ p ∈ slots, p.2.get record = p.2.get record') → record = record'

/-- Reads fields with names, one after the other. -/
def readAll {α : Type} (set : α → String → Draft → Except Fault α) (record : α)
    (fields : List (String × Draft)) : Except Fault α :=
  fields.foldlM (fun record field => set record field.1 field.2) record

section Fields

variable {α : Type} {set : α → String → Draft → Except Fault α} {record record' : α}

theorem readAll_cons_eq_ok_iff {name : String} {d : Draft} {rest : List (String × Draft)} :
    readAll set record ((name, d) :: rest) = .ok record' ↔
      ∃ next, set record name d = .ok next ∧ readAll set next rest = .ok record' := by
  rw [readAll, List.foldlM_cons, bind_eq_ok_iff]
  rfl

/-- Fields whose names can be read are read one after the other. -/
theorem Members.read_map_withName_eq_ok_iff {fields : List (String × Draft)} {stop : Option Fault} :
    Members.read ⟨fields.map Draft.withName, stop⟩ set record = .ok record' ↔
      stop = none ∧ readAll set record fields = .ok record' := by
  rw [Members.read, List.foldlM_map, bind_eq_ok_iff]
  constructor
  · rintro ⟨last, hlast, h⟩
    cases stop with
    | some fault => cases h
    | none =>
      cases h
      exact ⟨rfl, hlast⟩
  · rintro ⟨rfl, h⟩
    exact ⟨record', h, rfl⟩

/-- In a list the values stand in the order of the names. -/
theorem forall₂_zip (names : List String) {items : List Draft} {values : List Json}
    (hvalues : List.Forall₂ Draft.Holds items values) :
    List.Forall₂ (fun field value => field.1 = value.1 ∧ field.2.Holds value.2) (names.zip items)
      (names.zip values) := by
  induction hvalues generalizing names with
  | nil =>
    rw [List.zip_nil_right, List.zip_nil_right]
    exact .nil
  | cons hvalue _ ih =>
    cases names with
    | nil => exact .nil
    | cons name names => exact .cons ⟨rfl, hvalue⟩ (ih names)

theorem map_ofField_zip (names : List String) (values : List Json) :
    (names.zip values).map Draft.ofField = names.zip (values.map Draft.ofJson) := by
  rw [List.zip_map_right]
  rfl

end Fields

/-! ## What is read from several fields -/

/-- The values of the fields called `name`, in order. -/
def valuesOf (name : String) (fields : List (String × Draft)) : List Draft :=
  (fields.filter (·.1 == name)).map Prod.snd

theorem valuesOf_cons_self (name : String) (d : Draft) (rest : List (String × Draft)) :
    valuesOf name ((name, d) :: rest) = d :: valuesOf name rest := by
  simp [valuesOf]

theorem valuesOf_cons_of_ne {name other : String} (h : other ≠ name) (d : Draft)
    (rest : List (String × Draft)) : valuesOf name ((other, d) :: rest) = valuesOf name rest := by
  simp [valuesOf, h]

theorem mem_of_mem_valuesOf {name : String} {fields : List (String × Draft)} {d : Draft}
    (h : d ∈ valuesOf name fields) : (name, d) ∈ fields := by
  obtain ⟨field, hfield, rfl⟩ := List.mem_map.1 h
  obtain ⟨hmem, hname⟩ := List.mem_filter.1 hfield
  rwa [← eq_of_beq hname]

/-- Reads the values of a field, of which there may be one. -/
def readOnce {β : Type} (decode : Draft → Except Fault β) (earlier : Option β) (values : List Draft) :
    Except Fault (Option β) :=
  values.foldlM (fun earlier d => once earlier decode d) earlier

section ReadOnce

variable {β : Type} {decode : Draft → Except Fault β} {earlier later : Option β}

theorem readOnce_nil : readOnce decode earlier [] = .ok later ↔ later = earlier :=
  ⟨fun h => (Except.ok.inj h).symm, fun h => h ▸ rfl⟩

theorem readOnce_cons {d : Draft} {rest : List Draft} :
    readOnce decode earlier (d :: rest) = .ok later ↔
      ∃ next, once earlier decode d = .ok next ∧ readOnce decode next rest = .ok later := by
  rw [readOnce, List.foldlM_cons, bind_eq_ok_iff]
  rfl

/-- Nothing is read, or one value. -/
theorem readOnce_none_eq_ok_iff {values : List Draft} :
    readOnce decode none values = .ok later ↔
      values = [] ∧ later = none ∨ ∃ d x, values = [d] ∧ decode d = .ok x ∧ later = some x := by
  cases values with
  | nil => simp [readOnce_nil]
  | cons d rest =>
    rw [readOnce_cons]
    simp only [once, map_eq_ok_iff]
    cases rest with
    | nil => simp [readOnce_nil]
    | cons d' rest =>
      -- after the first value there is no second
      simp [readOnce_cons, once]

end ReadOnce

namespace FillsSlots

variable {α : Type} {slots : List (String × Slot α)} {pass : Draft → Except Fault Unit}
  {set : α → String → Draft → Except Fault α} (h : FillsSlots slots pass set) {record record' : α}

include h

/-- What holds of all places holds of one of them and of those with other names. -/
theorem forall_iff_of_mem {a : String × Slot α} (ha : a ∈ slots) {P : String × Slot α → Prop} :
    (∀ p ∈ slots, P p) ↔ P a ∧ ∀ p ∈ slots, a.1 ≠ p.1 → P p := by
  constructor
  · exact fun hall => ⟨hall a ha, fun p hp _ => hall p hp⟩
  · rintro ⟨hplace, hothers⟩ p hp
    by_cases hname : a.1 = p.1
    · obtain rfl := List.inj_on_of_nodup_map h.nodup ha hp hname
      exact hplace
    · exact hothers p hp hname

/-- From a record with another value in one place, this place is read on from the value, and all others are
read on as before. -/
theorem forall_readOnce_put_iff {a : String × Slot α} (ha : a ∈ slots) {o : Option a.2.β}
    {fields : List (String × Draft)} :
    (∀ p ∈ slots, readOnce p.2.decode (p.2.get (a.2.put record o)) (valuesOf p.1 fields) =
        .ok (p.2.get record')) ↔
      readOnce a.2.decode o (valuesOf a.1 fields) = .ok (a.2.get record') ∧ ∀ p ∈ slots, a.1 ≠ p.1 →
        readOnce p.2.decode (p.2.get record) (valuesOf p.1 fields) = .ok (p.2.get record') := by
  rw [h.forall_iff_of_mem ha, h.get_put a ha]
  refine and_congr_right fun _ => forall₃_congr fun p hp hne => ?_
  rw [(h.apart_of_ne ha hp hne).put_get]

/-- One more field with the name of a place is read into this place. -/
theorem forall_readOnce_cons_iff {a : String × Slot α} (ha : a ∈ slots) {d : Draft}
    {fields : List (String × Draft)} :
    (∀ p ∈ slots, readOnce p.2.decode (p.2.get record) (valuesOf p.1 ((a.1, d) :: fields)) =
        .ok (p.2.get record')) ↔
      ∃ o, once (a.2.get record) a.2.decode d = .ok o ∧
        ∀ p ∈ slots, readOnce p.2.decode (p.2.get (a.2.put record o)) (valuesOf p.1 fields) =
          .ok (p.2.get record') := by
  have hothers : ∀ p ∈ slots, a.1 ≠ p.1 → valuesOf p.1 ((a.1, d) :: fields) = valuesOf p.1 fields :=
    fun p _ hne => valuesOf_cons_of_ne hne d fields
  rw [h.forall_iff_of_mem ha, valuesOf_cons_self, readOnce_cons]
  simp only [h.forall_readOnce_put_iff ha, ← and_assoc, exists_and_right]
  exact and_congr_right fun _ => forall₃_congr fun p hp hne => by rw [hothers p hp hne]

/-- A record is read from several fields iff each place has what the values with its name give, and all other
fields can be passed over. -/
theorem readAll_eq_ok_iff {fields : List (String × Draft)} :
    readAll set record fields = .ok record' ↔
      (∀ field ∈ fields, ¬ Slot.knows slots field.1 = true → pass field.2 = .ok ()) ∧
        ∀ p ∈ slots, readOnce p.2.decode (p.2.get record) (valuesOf p.1 fields) = .ok (p.2.get record') := by
  -- by induction on the fields, from any record that has been read so far
  induction fields generalizing record with
  | nil =>
    have hget : (∀ p ∈ slots, p.2.get record' = p.2.get record) ↔ record = record' :=
      ⟨fun hget => (h.ext _ _ hget).symm, fun heq p _ => by rw [heq]⟩
    simp only [readAll, List.foldlM_nil, valuesOf, List.filter_nil, List.map_nil, readOnce_nil, hget,
      List.not_mem_nil, false_implies, implies_true, true_and]
    exact ⟨Except.ok.inj, congrArg Except.ok⟩
  | cons field rest ih =>
    obtain ⟨name, d⟩ := field
    rw [readAll_cons_eq_ok_iff, List.forall_mem_cons]
    by_cases hname : Slot.knows slots name = true
    · obtain ⟨a, ha, rfl⟩ := Slot.knows_iff.1 hname
      rw [h.forall_readOnce_cons_iff ha]
      simp only [h.known a ha, Slot.read, map_eq_ok_iff, hname, not_true_eq_false, false_implies, true_and]
      constructor
      · rintro ⟨_, ⟨o, ho, rfl⟩, hrest⟩
        obtain ⟨hpass, hplaces⟩ := ih.1 hrest
        exact ⟨hpass, o, ho, hplaces⟩
      · rintro ⟨hpass, o, ho, hplaces⟩
        exact ⟨_, ⟨o, ho, rfl⟩, ih.2 ⟨hpass, hplaces⟩⟩
    -- what is passed over is a value of no place
    · have hvalues : ∀ p ∈ slots, valuesOf p.1 ((name, d) :: rest) = valuesOf p.1 rest := by
        refine fun p hp => valuesOf_cons_of_ne ?_ d rest
        rintro rfl
        exact hname (Slot.knows_iff.2 ⟨p, hp, rfl⟩)
      simp only [h.other name hname, map_eq_ok_iff]
      constructor
      · rintro ⟨_, ⟨_, hd, rfl⟩, hrest⟩
        obtain ⟨hpass, hplaces⟩ := ih.1 hrest
        refine ⟨⟨fun _ => hd, hpass⟩, fun p hp => ?_⟩
        rw [hvalues p hp]
        exact hplaces p hp
      · rintro ⟨⟨hd, hpass⟩, hplaces⟩
        refine ⟨record, ⟨(), hd hname, rfl⟩, ih.2 ⟨hpass, fun p hp => ?_⟩⟩
        rw [← hvalues p hp]
        exact hplaces p hp

end FillsSlots

/-! ## Reading a text and reading its value -/

namespace ReadsSlots

variable {α : Type} {slots : List (String × Slot α)} {set : α → String → Draft → Except Fault α}
  (h : ReadsSlots slots set) {record record' : α}

include h

/-- Two fields that are known may be read in either order. -/
theorem set_comm {a b : String × Slot α} (ha : a ∈ slots) (hb : b ∈ slots) (hab : a.1 ≠ b.1) {d d' : Draft}
    {next : α} (hset : set record a.1 d = .ok next) (hset' : set next b.1 d' = .ok record') :
    ∃ next', set record b.1 d' = .ok next' ∧ set next' a.1 d = .ok record' := by
  have hapart := h.apart_of_ne ha hb hab
  rw [h.known a ha, Slot.read_eq_ok_iff] at hset
  rw [h.known b hb, Slot.read_eq_ok_iff] at hset'
  obtain ⟨hfree, x, hx, rfl⟩ := hset
  obtain ⟨hfree', y, hy, rfl⟩ := hset'
  rw [hapart.put_get] at hfree'
  refine ⟨b.2.put record (some y), ?_, ?_⟩
  · rw [h.known b hb, Slot.read_eq_ok_iff]
    exact ⟨hfree', y, hy, rfl⟩
  · rw [h.known a ha, Slot.read_eq_ok_iff]
    exact ⟨by rwa [hapart.get_put], x, hx, hapart.put_comm record (some y) (some x)⟩

/-- A field that is known can be read once. -/
theorem not_set_twice {a : String × Slot α} (ha : a ∈ slots) {d d' : Draft} {next : α}
    (hset : set record a.1 d = .ok next) : set next a.1 d' ≠ .ok record' := by
  rw [h.known a ha, Slot.read_eq_ok_iff] at hset
  obtain ⟨-, x, -, rfl⟩ := hset
  rw [h.known a ha, ne_eq, Slot.read_eq_ok_iff, h.get_put a ha]
  rintro ⟨⟨⟩, -⟩

/-- Fields that are known may be read in any order. -/
theorem readAll_perm {fields fields' : List (String × Draft)} (hperm : fields.Perm fields')
    (hknown : ∀ field ∈ fields, Slot.knows slots field.1 = true)
    (hread : readAll set record fields = .ok record') : readAll set record fields' = .ok record' := by
  induction hperm generalizing record with
  | nil => exact hread
  | cons field _ ih =>
    obtain ⟨next, hset, hread⟩ := readAll_cons_eq_ok_iff.1 hread
    exact readAll_cons_eq_ok_iff.2
      ⟨next, hset, ih (fun field hfield => hknown field (List.mem_cons_of_mem _ hfield)) hread⟩
  | swap first second rest =>
    obtain ⟨next, hset, hread⟩ := readAll_cons_eq_ok_iff.1 hread
    obtain ⟨next', hset', hread⟩ := readAll_cons_eq_ok_iff.1 hread
    obtain ⟨a, ha, hname⟩ := Slot.knows_iff.1 (hknown second List.mem_cons_self)
    obtain ⟨b, hb, hname'⟩ := Slot.knows_iff.1 (hknown first (List.mem_cons_of_mem _ List.mem_cons_self))
    rw [← hname] at hset
    rw [← hname'] at hset'
    -- a field that is given twice cannot be read
    have hne : a.1 ≠ b.1 := by
      intro heq
      rw [← heq] at hset'
      exact h.not_set_twice ha hset hset'
    obtain ⟨other, hother, hother'⟩ := h.set_comm ha hb hne hset hset'
    rw [hname'] at hother
    rw [hname] at hother'
    exact readAll_cons_eq_ok_iff.2 ⟨other, hother, readAll_cons_eq_ok_iff.2 ⟨next', hother', hread⟩⟩
  | trans hperm _ ih ih' =>
    exact ih' (fun field hfield => hknown field (hperm.mem_iff.2 hfield)) (ih hknown hread)

/-- Among fields that are known and can be read no name is repeated. -/
theorem nodup_of_readAll {fields : List (String × Draft)}
    (hknown : ∀ field ∈ fields, Slot.knows slots field.1 = true)
    (hread : readAll set record fields = .ok record') : (fields.map Prod.fst).Nodup := by
  induction fields generalizing record with
  | nil => exact List.nodup_nil
  | cons field rest ih =>
    obtain ⟨next, hset, hread⟩ := readAll_cons_eq_ok_iff.1 hread
    have hrest : ∀ field ∈ rest, Slot.knows slots field.1 = true :=
      fun field hfield => hknown field (List.mem_cons_of_mem _ hfield)
    rw [List.map_cons, List.nodup_cons]
    refine ⟨fun hmem => ?_, ih hrest hread⟩
    -- the other field with the name could be read right after the first one
    obtain ⟨other, hother, hname⟩ := List.mem_map.1 hmem
    obtain ⟨before, after, rfl⟩ := List.append_of_mem hother
    obtain ⟨a, ha, heq⟩ := Slot.knows_iff.1 (hknown field List.mem_cons_self)
    obtain ⟨next', hset', -⟩ := readAll_cons_eq_ok_iff.1
      (h.readAll_perm List.perm_middle hrest hread)
    rw [hname, ← heq] at hset'
    rw [← heq] at hset
    exact h.not_set_twice ha hset hset'

/-- Whatever else is among the fields, those that are known can be read by themselves. -/
theorem readAll_filter {fields : List (String × Draft)} (hread : readAll set record fields = .ok record') :
    readAll set record (fields.filter fun field => Slot.knows slots field.1) = .ok record' := by
  induction fields generalizing record with
  | nil => exact hread
  | cons field rest ih =>
    obtain ⟨next, hset, hread⟩ := readAll_cons_eq_ok_iff.1 hread
    rw [List.filter_cons]
    split
    · exact readAll_cons_eq_ok_iff.2 ⟨next, hset, ih hread⟩
    · next hname =>
      rw [h.other field.1 hname, map_eq_ok_iff] at hset
      obtain ⟨-, -, rfl⟩ := hset
      exact ih hread

/-- In a value, everything else can be passed over. -/
theorem readAll_of_filter {fields : List (String × Json)}
    (hread : readAll set record ((fields.filter fun field => Slot.knows slots field.1).map
      Draft.ofField) = .ok record') :
    readAll set record (fields.map Draft.ofField) = .ok record' := by
  induction fields generalizing record with
  | nil => exact hread
  | cons field rest ih =>
    rw [List.filter_cons] at hread
    split at hread
    · obtain ⟨next, hset, hread⟩ := readAll_cons_eq_ok_iff.1 hread
      exact readAll_cons_eq_ok_iff.2 ⟨next, hset, ih hread⟩
    · next hname =>
      refine readAll_cons_eq_ok_iff.2 ⟨record, ?_, ih hread⟩
      rw [h.other field.1 hname, Draft.skip_ofJson]
      rfl

/-- Reading a field is stable, known or not. -/
theorem set_stable {name : String} {d : Draft} {v : Json} (hv : d.Holds v) {next : α}
    (hset : set record name d = .ok next) : set record name (Draft.ofJson v) = .ok next := by
  by_cases hname : Slot.knows slots name = true
  · obtain ⟨a, ha, rfl⟩ := Slot.knows_iff.1 hname
    rw [h.known a ha, Slot.read_eq_ok_iff] at hset ⊢
    obtain ⟨hfree, x, hx, rfl⟩ := hset
    exact ⟨hfree, x, h.stable a ha hv hx, rfl⟩
  · rw [h.other name hname, map_eq_ok_iff] at hset
    obtain ⟨-, -, rfl⟩ := hset
    rw [h.other name hname, Draft.skip_ofJson]
    rfl

/-- Reading fields is stable. -/
theorem readAll_stable {fields : List (String × Draft)} {values : List (String × Json)}
    (hvalues : List.Forall₂ (fun field value => field.1 = value.1 ∧ field.2.Holds value.2) fields values)
    (hread : readAll set record fields = .ok record') :
    readAll set record (values.map Draft.ofField) = .ok record' := by
  induction hvalues generalizing record with
  | nil => exact hread
  | cons hfield _ ih =>
    obtain ⟨next, hset, hread⟩ := readAll_cons_eq_ok_iff.1 hread
    rw [List.map_cons, Draft.ofField, ← hfield.1]
    exact readAll_cons_eq_ok_iff.2 ⟨next, h.set_stable hfield.2 hset, ih hread⟩

/-- Reading a record is stable, written with names or as a list. -/
theorem stable_read (names : List String) (init : α) :
    Draft.Stable fun d => d.members names .optional >>= fun members => members.read set init := by
  intro d v a hv hread
  obtain ⟨members, hmembers, hread⟩ := bind_eq_ok_iff.1 hread
  cases d with
  | record fields stop =>
    cases hmembers
    obtain ⟨rfl, named, fields', rfl, rfl, hfields⟩ := Draft.eq_object_of_holds hv
    obtain ⟨-, hread⟩ := Members.read_map_withName_eq_ok_iff.1 hread
    -- the known fields stand in the object as well, in some order
    have hfiltered := h.readAll_filter hread
    have hknown : ∀ field ∈ named.filter fun field => Slot.knows slots field.1,
        Slot.knows slots field.1 = true := fun field hfield => (List.mem_filter.1 hfield).2
    obtain ⟨mid, hmid, hperm⟩ := hfields (Slot.knows slots) (h.nodup_of_readAll hknown hfiltered)
    have hknown' : ∀ field ∈ mid.map Draft.ofField, Slot.knows slots field.1 = true := by
      intro field hfield
      obtain ⟨value, hvalue, rfl⟩ := List.mem_map.1 hfield
      exact (List.mem_filter.1 (hperm.mem_iff.1 hvalue)).2
    have hobject := h.readAll_perm (hperm.map Draft.ofField) hknown' (h.readAll_stable hmid hfiltered)
    rw [Draft.ofJson, Draft.ofFields_eq_map]
    exact Members.read_map_withName_eq_ok_iff.2 ⟨rfl, h.readAll_of_filter hobject⟩
  | list items stop =>
    cases hmembers
    obtain ⟨rfl, values, rfl, hvalues⟩ := Draft.eq_array_of_holds hv
    obtain ⟨hstop, hread⟩ := Members.read_map_withName_eq_ok_iff.1 hread
    rw [hvalues.length_eq] at hstop
    have hlist := h.readAll_stable (forall₂_zip names hvalues) hread
    rw [map_ofField_zip] at hlist
    rw [Draft.ofJson, Draft.ofItems_eq_map]
    refine Members.read_map_withName_eq_ok_iff.2 ⟨?_, hlist⟩
    rw [List.length_map]
    exact hstop
  | _ => cases hmembers

end ReadsSlots

end CommentTags.Json
