import CommentTags.Language.File
import CommentTags.Proofs.RecordReader

/-!
# What a language file gives

A language file gives comment marks in its field `comments`. This module says what the fields of a file give,
apart from how a file is read, and shows that reading a file answers exactly that.

A record of a file may be written by name, where fields with other names do not count, or as the list of all its
values.

## Main definitions

* `Draft.Complete`: reading stops nowhere inside a draft;
* `IsRecord`: the fields of a record;
* `OptionalField`: what a field gives that may be missing;
* `LanguageFile.GivesRule`: the comment marks that the text of a language file gives.

## Main results

* `Draft.complete_of_ofText`: where a text is a list or an object up to its end, nothing inside is missing;
* `CommentRule.ofText_eq_ok_some_iff`: a file is read as the marks it gives.
-/

namespace CommentTags.Json

/-! ## Complete drafts -/

namespace Draft

/-- Reading stops nowhere inside the draft. -/
inductive Complete : Draft → Prop
  | null : Complete null
  | bool (b : Bool) : Complete (bool b)
  | number (kept : Except Fault Numeral) : Complete (number kept)
  | text (kept : Except Fault String) : Complete (text kept)
  | list {items : List Draft} : (∀ d ∈ items, Complete d) → Complete (list items none)
  | record {fields : List (Except Fault String × Draft)} : (∀ field ∈ fields, Complete field.2) →
      Complete (record fields none)

/-- What is complete can be passed over. -/
theorem Complete.skip {d : Draft} (h : d.Complete) : d.skip = .ok () := by
  induction h <;> rfl

/-- Reading stops somewhere at the end of the draft. -/
def isStopped : Draft → Bool
  | list _ stop | record _ stop => stop.isSome
  | broken _ => true
  | _ => false

/-- What is open has been read completely so far. -/
def Frame.Complete : Frame → Prop
  | .list items => ∀ d ∈ items, d.Complete
  | .record fields | .field fields _ => ∀ field ∈ fields, field.2.Complete

/-- Where reading stops, everything that is open is stopped. -/
theorem isStopped_abandon (cause : Break) {inner : Option Draft} (hinner : ∀ d ∈ inner, d.isStopped = true)
    (frames : List Frame) : (abandon cause inner frames).isStopped = true := by
  -- by induction on what is open, from the inside out
  induction frames generalizing inner with
  | nil =>
    cases inner with
    | none => rfl
    | some d => exact hinner d rfl
  | cons frame frames ih =>
    cases frame <;> exact ih (by simp [isStopped])

/-- What a lexeme makes of open frames that are complete. -/
def Move.Complete : Move → Prop
  | .go _ frames => ∀ frame ∈ frames, frame.Complete
  | .finish value frames => value.Complete ∧ ∀ frame ∈ frames, frame.Complete
  | .stop _ inner => ∀ d ∈ inner, d.isStopped = true

theorem complete_moveValue {frames : List Frame} (hframes : ∀ frame ∈ frames, frame.Complete) (lexeme : Lexeme) :
    (moveValue frames lexeme).Complete := by
  cases lexeme with
  | null => exact ⟨.null, hframes⟩
  | bool b => exact ⟨.bool b, hframes⟩
  | number kept => exact ⟨.number kept, hframes⟩
  | text kept => exact ⟨.text kept, hframes⟩
  | openList | openRecord => simpa [moveValue, Move.Complete, Frame.Complete] using hframes
  | _ => simp [moveValue, leaf?, Move.Complete, isStopped]

theorem complete_moveName {frames : List Frame} (hframes : ∀ frame ∈ frames, frame.Complete) (lexeme : Lexeme) :
    (moveName lexeme frames).Complete := by
  unfold moveName
  split
  · simpa [Move.Complete, Frame.Complete] using hframes
  all_goals simp [Move.Complete]

/-- A lexeme keeps open frames complete, finishes a value that is complete, or stops the reading. -/
theorem complete_move {frames : List Frame} (hframes : ∀ frame ∈ frames, frame.Complete) (expected : Expected)
    (lexeme : Lexeme) : (move expected frames lexeme).Complete := by
  unfold move
  split
  -- a closing bracket ends the list or the object that was opened last
  case h_1 | h_2 =>
    rw [List.forall_mem_cons] at hframes
    exact ⟨.list fun d hd => hframes.1 d (List.mem_reverse.1 hd), hframes.2⟩
  case h_3 | h_4 =>
    rw [List.forall_mem_cons] at hframes
    exact ⟨.record fun field hfield => hframes.1 field (List.mem_reverse.1 hfield), hframes.2⟩
  case h_5 | h_6 | h_7 => exact hframes
  case h_8 | h_9 => exact complete_moveValue hframes _
  case h_10 | h_11 => exact complete_moveName hframes _
  all_goals simp [Move.Complete]

/-- A draft that is not stopped at its end is complete. -/
theorem complete_build {expected : Expected} {frames : List Frame} (hframes : ∀ frame ∈ frames, frame.Complete)
    (lexemes : List Lexeme) (h : (build expected frames lexemes).1.isStopped = false) :
    (build expected frames lexemes).1.Complete := by
  -- by induction on the lexemes: what is open stays complete
  induction lexemes generalizing expected frames with
  | nil =>
    have hstopped : (build expected frames []).1.isStopped = true :=
      isStopped_abandon _ (by cases expected <;> simp [isStopped]) frames
    rw [hstopped] at h
    cases h
  | cons lexeme rest ih =>
    have hmove := complete_move hframes expected lexeme
    rw [build] at h ⊢
    split at h
    · next heq =>
      rw [heq] at hmove
      exact ih hmove h
    · next heq =>
      rw [heq] at hmove
      rw [isStopped_abandon _ hmove] at h
      cases h
    · next heq =>
      rw [heq] at hmove
      exact hmove.1
    · next heq =>
      rw [heq] at hmove
      obtain ⟨hvalue, hopen⟩ := hmove
      obtain ⟨hframe, hframes⟩ := List.forall_mem_cons.1 hopen
      exact ih (List.forall_mem_cons.2 ⟨List.forall_mem_cons.2 ⟨hvalue, hframe⟩, hframes⟩) h
    · next heq =>
      rw [heq] at hmove
      obtain ⟨hvalue, hopen⟩ := hmove
      obtain ⟨hframe, hframes⟩ := List.forall_mem_cons.1 hopen
      exact ih (List.forall_mem_cons.2 ⟨List.forall_mem_cons.2 ⟨hvalue, hframe⟩, hframes⟩) h
    · next heq =>
      rw [heq] at hmove
      exact ih hmove.2 h

/-- Where a text is a list or an object up to its end, reading stops nowhere inside. -/
theorem complete_of_ofText {s : String} {d : Draft} {followed : Bool} (h : ofText s = (d, followed))
    (hd : d.isStopped = false) : d.Complete := by
  obtain rfl : (ofText s).1 = d := congrArg Prod.fst h
  exact complete_build (fun _ hframe => absurd hframe List.not_mem_nil) _ hd

end Draft

/-! ## Records -/

/-- The fields of a record, given by name or as the list of their values in the order of `names`. -/
inductive IsRecord (names : List String) : Draft → List (String × Draft) → Prop
  | byName (fields : List (String × Draft)) : IsRecord names (.record (fields.map Draft.withName) none) fields
  | inOrder {items : List Draft} : items.length = names.length →
      IsRecord names (.list items none) (names.zip items)

/-- The end of a record is there. -/
theorem IsRecord.isStopped_eq_false {names : List String} {d : Draft} {fields : List (String × Draft)}
    (h : IsRecord names d fields) : d.isStopped = false := by
  cases h <;> rfl

/-- The fields of a complete record are complete. -/
theorem IsRecord.complete {names : List String} {d : Draft} {fields : List (String × Draft)}
    (h : IsRecord names d fields) (hd : d.Complete) : ∀ field ∈ fields, field.2.Complete := by
  cases h with
  | byName =>
    cases hd with
    | record hfields => exact fun field hfield => hfields _ (List.mem_map_of_mem hfield)
  | inOrder =>
    cases hd with
    | list hitems => exact fun field hfield => hitems _ (List.of_mem_zip hfield).2

/-- Where fields are read, their names can be read. -/
theorem Members.exists_eq_map_of_read {α : Type} {set : α → String → Draft → Except Fault α} {init a : α}
    {fields : List (Except Fault String × Draft)} {stop : Option Fault}
    (h : Members.read ⟨fields, stop⟩ set init = .ok a) :
    ∃ named : List (String × Draft), fields = named.map Draft.withName := by
  induction fields generalizing init with
  | nil => exact ⟨[], rfl⟩
  | cons field rest ih =>
    rw [Members.read, List.foldlM_cons, bind_assoc, bind_eq_ok_iff] at h
    obtain ⟨next, hnext, h⟩ := h
    obtain ⟨name, hname, -⟩ := bind_eq_ok_iff.1 hnext
    obtain ⟨named, rfl⟩ := ih h
    exact ⟨(name, field.2) :: named, by rw [List.map_cons, Draft.withName, ← hname]⟩

/-- A record is read iff its fields are. -/
theorem read_members_eq_ok_iff {α : Type} {set : α → String → Draft → Except Fault α} {init a : α}
    {names : List String} {d : Draft} :
    (d.members names .required >>= fun members => members.read set init) = .ok a ↔
      ∃ fields, IsRecord names d fields ∧ readAll set init fields = .ok a := by
  rw [bind_eq_ok_iff]
  constructor
  · rintro ⟨members, hmembers, hread⟩
    cases d with
    | record fields stop =>
      cases hmembers
      -- names that cannot be read stop the reading, so all of them were read
      obtain ⟨named, rfl⟩ := Members.exists_eq_map_of_read hread
      obtain ⟨hstop, hall⟩ := Members.read_map_withName_eq_ok_iff.1 hread
      rw [Option.map_eq_none_iff] at hstop
      subst hstop
      exact ⟨named, .byName named, hall⟩
    | list items stop =>
      cases hmembers
      obtain ⟨hstop, hall⟩ := Members.read_map_withName_eq_ok_iff.1 hread
      -- a list with more or fewer values than names is refused
      split at hstop
      · cases hstop
      · split at hstop
        · cases hstop
        · next hlong hshort =>
          rw [Option.map_eq_none_iff] at hstop
          subst hstop
          have hlength : items.length = names.length := by
            simp at hshort
            omega
          exact ⟨names.zip items, .inOrder hlength, hall⟩
    | _ => cases hmembers
  · rintro ⟨fields, hrecord, hread⟩
    cases hrecord with
    | byName => exact ⟨_, rfl, Members.read_map_withName_eq_ok_iff.2 ⟨rfl, hread⟩⟩
    | inOrder hlength =>
      exact ⟨_, rfl, Members.read_map_withName_eq_ok_iff.2 ⟨by simp [hlength], hread⟩⟩

/-! ## Fields that may be missing -/

/-- What the values of a field give that may be missing or `null`: a value as `Gives` says, or nothing. -/
inductive OptionalField {β : Type} (Gives : Draft → β → Prop) : List Draft → Option β → Prop
  | absent : OptionalField Gives [] none
  | null : OptionalField Gives [.null] none
  | present {d : Draft} {b : β} : Gives d b → OptionalField Gives [d] (some b)

section Optional

variable {β : Type} {decode : Draft → Except Fault β}

theorem toOption_eq_ok_none_iff {d : Draft} : d.toOption decode = .ok none ↔ d = .null := by
  constructor
  · intro h
    by_contra hd
    rw [Draft.toOption_of_ne_null hd, map_eq_ok_iff] at h
    obtain ⟨b, -, ⟨⟩⟩ := h
  · rintro rfl
    rfl

theorem toOption_eq_ok_some_iff (hnull : ∀ b, decode .null ≠ .ok b) {d : Draft} {b : β} :
    d.toOption decode = .ok (some b) ↔ decode d = .ok b := by
  by_cases hd : d = .null
  · subst hd
    exact ⟨by rintro ⟨⟩, fun h => absurd h (hnull b)⟩
  · simp [Draft.toOption_of_ne_null hd, map_eq_ok_iff]

/-- A field that may be missing is read as what it gives. -/
theorem optionalField_iff {Gives : Draft → β → Prop} (hdecode : ∀ {d b}, decode d = .ok b ↔ Gives d b)
    (hnull : ∀ b, decode .null ≠ .ok b) {values : List Draft} {b : Option β} :
    OptionalField Gives values b ↔
      ∃ o, readOnce (Draft.toOption decode) none values = .ok o ∧ o.join = b := by
  simp only [readOnce_none_eq_ok_iff]
  constructor
  · rintro (_ | _ | hgives)
    · exact ⟨none, .inl ⟨rfl, rfl⟩, rfl⟩
    · exact ⟨some none, .inr ⟨.null, none, rfl, rfl, rfl⟩, rfl⟩
    · next d b =>
      exact ⟨some (some b), .inr ⟨d, some b, rfl, (toOption_eq_ok_some_iff hnull).2 (hdecode.2 hgives), rfl⟩, rfl⟩
  · rintro ⟨o, ⟨rfl, rfl⟩ | ⟨d, x, rfl, hx, rfl⟩, rfl⟩
    · exact .absent
    · cases x with
      | none =>
        cases toOption_eq_ok_none_iff.1 hx
        exact .null
      | some b => exact .present (hdecode.1 ((toOption_eq_ok_some_iff hnull).1 hx))

end Optional

/-! ## Records with a single field -/

/-- The place of the only field that counts. -/
def Slot.sole {β : Type} (decode : Draft → Except Fault β) : Slot (Option β) :=
  ⟨id, fun _ o => o, decode⟩

section Sole

variable {β : Type} {name : String} {decode : Draft → Except Fault β} {pass : Draft → Except Fault Unit}
  {set : Option β → String → Draft → Except Fault (Option β)}
  (hset : ∀ o other d, set o other d = if other == name then once o decode d else (pass d).map fun _ => o)

include hset

theorem fillsSlots_sole : FillsSlots [(name, Slot.sole decode)] pass set where
  known := by
    simp only [List.forall_mem_singleton, hset, beq_self_eq_true, if_true, Slot.read, Slot.sole, id]
    intro o d
    cases once o decode d <;> rfl
  other other hother o d := by
    have hne : other ≠ name := by
      rintro rfl
      exact hother (Slot.knows_iff.2 ⟨_, List.mem_singleton_self _, rfl⟩)
    simp [hset, hne]
  get_put := by simp [Slot.sole]
  apart := List.pairwise_singleton _ _
  nodup := List.nodup_singleton _
  ext o o' h := h _ (List.mem_singleton_self _)

/-- Of complete fields the one that counts is read. -/
theorem readAll_sole_eq_ok_iff {fields : List (String × Draft)} {o : Option β}
    (hpass : ∀ field ∈ fields, pass field.2 = .ok ()) :
    readAll set none fields = .ok o ↔ readOnce decode none (valuesOf name fields) = .ok o := by
  rw [(fillsSlots_sole hset).readAll_eq_ok_iff, List.forall_mem_singleton]
  exact and_iff_right fun field hfield _ => hpass field hfield

end Sole

/-! ## Values -/

theorem Draft.toText_eq_ok_iff {d : Draft} {s : String} : d.toText = .ok s ↔ d = .text (.ok s) := by
  constructor
  · intro h
    unfold Draft.toText at h
    split at h
    · cases h
      rfl
    · cases h
  · rintro rfl
    rfl

/-- The draft is a list of texts. -/
def IsTexts (d : Draft) (texts : List String) : Prop :=
  d = .list (texts.map fun s => .text (.ok s)) none

theorem toList_toText_eq_ok_iff {d : Draft} {texts : List String} :
    Draft.toList Draft.toText d = .ok texts ↔ IsTexts d texts := by
  have hitems : ∀ items : List Draft, items.mapM Draft.toText = .ok texts ↔
      items = texts.map fun s => .text (.ok s) := by
    intro items
    rw [mapM_eq_ok_iff]
    simp only [Draft.toText_eq_ok_iff]
    rw [← List.forall₂_map_right_iff (f := fun s => Draft.text (.ok s)), List.forall₂_eq_eq_eq]
  constructor
  · intro h
    unfold Draft.toList at h
    split at h
    · next items stop =>
      obtain ⟨values, hvalues, h⟩ := bind_eq_ok_iff.1 h
      cases stop with
      | some cause => cases h
      | none =>
        cases h
        rw [IsTexts, (hitems items).1 hvalues]
    · cases h
  · rintro rfl
    rw [Draft.toList, (hitems _).2 rfl]
    rfl

/-- A text is decoded iff nothing follows its value, which is decoded. -/
theorem decodeText_eq_ok_iff {α : Type} {decode : Draft → Except Fault α} {s : String} {a : α} :
    decodeText decode s = .ok a ↔ ∃ d, Draft.ofText s = (d, false) ∧ decode d = .ok a := by
  rw [decodeText]
  generalize Draft.ofText s = draft
  obtain ⟨d, followed⟩ := draft
  rw [bind_eq_ok_iff]
  cases followed <;> simp

end CommentTags.Json

namespace CommentTags

open Json

namespace LanguageFile

/-! ## The fields of a language file -/

/-- The draft gives a mark of line comments: it is the mark, or an object with the mark that is not too deep
to be kept. -/
inductive IsLineMark : Draft → String → Prop
  | plain (mark : String) : IsLineMark (.text (.ok mark)) mark
  | detailed {fields : List (String × Draft)} {mark : String} {value : Json} :
      (Draft.record (fields.map Draft.withName) none).toJson? (Draft.maxDepth - lineDepth) = .ok value →
      valuesOf "comment" fields = [.text (.ok mark)] →
      IsLineMark (.record (fields.map Draft.withName) none) mark

theorem setMark_eq (mark : Option String) (name : String) (d : Draft) :
    setMark mark name d = if name == "comment" then once mark Draft.toText d else (Except.ok ()).map fun _ => mark :=
  rfl

/-- The mark of line comments is read as it is given. -/
theorem decodeLine_eq_ok_iff {d : Draft} {mark : String} : decodeLine d = .ok mark ↔ IsLineMark d mark := by
  have hread (fields : List (String × Draft)) (o : Option String) :
      readAll setMark none fields = .ok o ↔ readOnce Draft.toText none (valuesOf "comment" fields) = .ok o :=
    readAll_sole_eq_ok_iff setMark_eq fun _ _ => rfl
  unfold decodeLine
  rw [bind_eq_ok_iff]
  constructor
  · rintro ⟨value, hvalue, h⟩
    split at h
    · cases h
      exact .plain mark
    -- an object has the mark in its field `comment`, which is given once
    · next fields stop =>
      obtain ⟨o, ho, h⟩ := bind_eq_ok_iff.1 h
      obtain ⟨named, rfl⟩ := Members.exists_eq_map_of_read ho
      obtain ⟨hstop, hall⟩ := Members.read_map_withName_eq_ok_iff.1 ho
      rw [Option.map_eq_none_iff] at hstop
      subst hstop
      rw [hread, readOnce_none_eq_ok_iff] at hall
      obtain ⟨-, rfl⟩ | ⟨given, mark', hvalues, hmark, rfl⟩ := hall
      · cases h
      · cases h
        rw [Draft.toText_eq_ok_iff.1 hmark] at hvalues
        exact .detailed hvalue hvalues
    · cases h
  · rintro (_ | ⟨hvalue, hvalues⟩)
    · exact ⟨.string mark, by simp [Draft.toJson?, Except.map], rfl⟩
    · next fields value =>
      refine ⟨value, hvalue, bind_eq_ok_iff.2 ⟨some mark, ?_, rfl⟩⟩
      rw [Option.map_none, Members.read_map_withName_eq_ok_iff, hread, hvalues]
      exact ⟨rfl, rfl⟩

/-- The places of the comment marks. -/
def Comments.slots : List (String × Slot Comments) := [
  ("lineComment", ⟨Comments.line, fun comments o => { comments with line := o }, Draft.toOption decodeLine⟩),
  ("blockComment", ⟨Comments.block, fun comments o => { comments with block := o },
    Draft.toOption (Draft.toList Draft.toText)⟩)]

/-- The comment marks do not interfere. -/
theorem Comments.fillsSlots : FillsSlots slots Draft.skip Comments.set where
  known := by
    simp only [slots, List.forall_mem_cons, List.not_mem_nil, false_implies, Comments.set, bind_pure_comp,
      functor_map_eq, Slot.read, implies_true, and_self]
  other := by
    intro name hname comments d
    rw [Comments.set]
    · cases d.skip <;> rfl
    all_goals
      rintro rfl
      exact hname (by decide)
  get_put := by simp [slots]
  apart := by
    simp only [slots, List.pairwise_cons, List.forall_mem_cons, List.not_mem_nil, false_implies,
      List.Pairwise.nil, Slot.apart_iff, implies_true, and_self]
  nodup := by decide
  ext := by
    rintro ⟨line, block⟩ ⟨line', block'⟩ h
    simpa [slots] using h

/-- The comment marks of a complete record are read one by one. -/
theorem decodeComments_eq_ok_iff {d : Draft} (hd : d.Complete) {comments : Comments} :
    decodeComments d = .ok comments ↔
      ∃ marks, IsRecord ["lineComment", "blockComment"] d marks ∧
        readOnce (Draft.toOption decodeLine) none (valuesOf "lineComment" marks) = .ok comments.line ∧
        readOnce (Draft.toOption (Draft.toList Draft.toText)) none (valuesOf "blockComment" marks) =
          .ok comments.block := by
  rw [decodeComments, read_members_eq_ok_iff]
  refine exists_congr fun marks => and_congr_right fun hmarks => ?_
  rw [Comments.fillsSlots.readAll_eq_ok_iff, and_iff_right fun field hfield _ =>
    (hmarks.complete hd field hfield).skip]
  simp [Comments.slots]

theorem setComments_eq (comments : Option (Option Comments)) (name : String) (d : Draft) :
    setComments comments name d = if name == "comments" then once comments (Draft.toOption decodeComments) d
      else d.skip.map fun _ => comments := by
  unfold setComments
  split
  · rfl
  · cases d.skip <;> rfl

theorem decodeComments_null (comments : Comments) : decodeComments .null ≠ .ok comments := by
  rintro ⟨⟩

/-- The comment marks of a file are those of its only field `comments`. -/
theorem decode_eq_ok_some_iff {d : Draft} (hd : d.isStopped = false → d.Complete) {comments : Comments} :
    decode d = .ok (some comments) ↔
      ∃ fields given marks, IsRecord ["comments"] d fields ∧ valuesOf "comments" fields = [given] ∧
        IsRecord ["lineComment", "blockComment"] given marks ∧
        readOnce (Draft.toOption decodeLine) none (valuesOf "lineComment" marks) = .ok comments.line ∧
        readOnce (Draft.toOption (Draft.toList Draft.toText)) none (valuesOf "blockComment" marks) =
          .ok comments.block := by
  have hcomplete {fields : List (String × Draft)} (hfields : IsRecord ["comments"] d fields) :
      ∀ field ∈ fields, field.2.Complete :=
    hfields.complete (hd hfields.isStopped_eq_false)
  have hread {fields : List (String × Draft)} (hfields : IsRecord ["comments"] d fields)
      (o : Option (Option Comments)) : readAll setComments none fields = .ok o ↔
        readOnce (Draft.toOption decodeComments) none (valuesOf "comments" fields) = .ok o :=
    readAll_sole_eq_ok_iff setComments_eq fun field hfield => (hcomplete hfields field hfield).skip
  have hgiven {fields : List (String × Draft)} (hfields : IsRecord ["comments"] d fields) {given : Draft}
      (hvalues : valuesOf "comments" fields = [given]) : given.Complete :=
    hcomplete hfields _ (mem_of_mem_valuesOf (hvalues ▸ List.mem_singleton_self given))
  rw [decode, ← bind_assoc, bind_eq_ok_iff]
  simp only [read_members_eq_ok_iff]
  constructor
  · rintro ⟨o, ⟨fields, hfields, hall⟩, ho⟩
    rw [hread hfields, readOnce_none_eq_ok_iff] at hall
    obtain ⟨-, rfl⟩ | ⟨given, o, hvalues, hdecode, rfl⟩ := hall
    · cases ho
    · cases ho
      rw [toOption_eq_ok_some_iff decodeComments_null,
        decodeComments_eq_ok_iff (hgiven hfields hvalues)] at hdecode
      obtain ⟨marks, hmarks⟩ := hdecode
      exact ⟨fields, given, marks, hfields, hvalues, hmarks⟩
  · rintro ⟨fields, given, marks, hfields, hvalues, hmarks⟩
    have hdecode : Draft.toOption decodeComments given = .ok (some comments) := by
      rw [toOption_eq_ok_some_iff decodeComments_null, decodeComments_eq_ok_iff (hgiven hfields hvalues)]
      exact ⟨marks, hmarks⟩
    refine ⟨some (some comments), ⟨fields, hfields, ?_⟩, rfl⟩
    rw [hread hfields, hvalues, readOnce_none_eq_ok_iff]
    exact .inr ⟨given, some comments, rfl, hdecode, rfl⟩

/-! ## The marks of a language file -/

/-- The text is that of a language file with the comment marks `rule`. -/
inductive GivesRule (text : String) (rule : CommentRule) : Prop
  | intro {file comments : Draft} {fields marks : List (String × Draft)} :
      Draft.ofText text = (file, false) →
      IsRecord ["comments"] file fields → valuesOf "comments" fields = [comments] →
      IsRecord ["lineComment", "blockComment"] comments marks →
      OptionalField IsLineMark (valuesOf "lineComment" marks) rule.line →
      OptionalField IsTexts (valuesOf "blockComment" marks) (rule.block.map fun pair => [pair.1, pair.2]) →
      GivesRule text rule

end LanguageFile

namespace CommentRule

open LanguageFile

/-- Of marks of block comments there are two, or none. -/
theorem ofText_eq_ok_some_iff_decodeText {text : String} {rule : CommentRule} :
    ofText text = .ok (some rule) ↔
      ∃ comments, decodeText decode text = .ok (some comments) ∧ comments.line.join = rule.line ∧
        comments.block.join = rule.block.map fun pair => [pair.1, pair.2] := by
  obtain ⟨line, block⟩ := rule
  unfold ofText
  split
  · simp [*]
  · simp [*]
  -- marks of block comments that are not a pair give no rule
  · next comments hdecode =>
    rw [hdecode]
    simp only [Except.ok.injEq, Option.some.injEq, exists_eq_left']
    split
    · cases block <;> simp [*]
    · cases block <;> simp [*, Prod.ext_iff]
    · next marks hmarks hblock =>
      cases block with
      | none => simp [hblock]
      | some pair => simpa [hblock] using fun _ => hmarks pair.1 pair.2

/-- A file is read as the comment marks it gives. -/
theorem ofText_eq_ok_some_iff {text : String} {rule : CommentRule} :
    ofText text = .ok (some rule) ↔ GivesRule text rule := by
  have hline {values : List Draft} : OptionalField IsLineMark values rule.line ↔ _ :=
    optionalField_iff decodeLine_eq_ok_iff (by rintro _ ⟨⟩)
  have hblock {values : List Draft} {texts : Option (List String)} : OptionalField IsTexts values texts ↔ _ :=
    optionalField_iff toList_toText_eq_ok_iff (by rintro _ ⟨⟩)
  rw [ofText_eq_ok_some_iff_decodeText]
  simp only [decodeText_eq_ok_iff]
  constructor
  · rintro ⟨comments, ⟨file, hfile, hdecode⟩, hlineRule, hblockRule⟩
    rw [decode_eq_ok_some_iff (Draft.complete_of_ofText hfile)] at hdecode
    obtain ⟨fields, given, marks, hfields, hvalues, hmarks, hl, hb⟩ := hdecode
    exact .intro hfile hfields hvalues hmarks (hline.2 ⟨_, hl, hlineRule⟩) (hblock.2 ⟨_, hb, hblockRule⟩)
  · rintro ⟨hfile, hfields, hvalues, hmarks, hl, hb⟩
    obtain ⟨line, hl, hlineRule⟩ := hline.1 hl
    obtain ⟨block, hb, hblockRule⟩ := hblock.1 hb
    refine ⟨⟨line, block⟩, ⟨_, hfile, ?_⟩, hlineRule, hblockRule⟩
    rw [decode_eq_ok_some_iff (Draft.complete_of_ofText hfile)]
    exact ⟨_, _, _, hfields, hvalues, hmarks, hl, hb⟩

end CommentRule

end CommentTags
