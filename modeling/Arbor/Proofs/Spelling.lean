import Arbor.Stored.Tree
import Mathlib.Data.List.Forall2
import Mathlib.Logic.Equiv.Array
import Mathlib.Logic.Relation

/-!
# Spellings

A value is written in one way and read in several.  This module says which data spell the
same value and what a stored type has to keep.

*Schemas.*  What is a fair spelling of a datum depends on what the datum is read as.  A
`Schema` says so: it is a type without its name, made of numbers, lists and records.

*Respellings.*  A `Respelling` changes one thing about a datum, at any depth of it.  The
fields of a structure come by position or by name; by name they come in any order, among
other names, and without those that hold nothing.  A name that stands alone may be a record
with nothing in it, and a whole number stands for a number with a fraction.  Any number of
changes, forwards and backwards, make two data `Respelled`.

*Stored types.*  `Storable` holds what is promised of a type.  A value is read back as
itself if its numbers are finite and refused otherwise.  A respelling makes no difference,
and nothing but a respelling of the stored form is read as the value.  A type of which that
holds is stored *faithfully*.  The rest of the module keeps the promise for numbers, texts,
lists and types that are stored as another one.
-/

namespace Arbor

/-! ## Schemas and respellings -/

/-- What a datum is read as, as far as it may be spelled in several ways. -/
inductive Schema
  /-- A datum with one spelling. -/
  | plain
  /-- A number with a fraction. -/
  | number
  /-- A command. -/
  | command
  /-- A rule table. -/
  | table
  /-- Data of one kind, in order. -/
  | list (item : Schema)
  /-- The fields of a structure, in the order of their declaration. -/
  | record (fields : List (Field × Schema))

/-- One change of the spelling of a datum. -/
inductive Respelling : Schema → Datum → Datum → Prop
  /-- A whole number stands for a number with a fraction. -/
  | whole {n : Int} : Respelling .number (.int n) (.real (Float32.ofInt n))
  /-- The factor of a command is respelled. -/
  | factor {name : String} {d e : Datum} (h : Respelling .number d e) :
      Respelling .command (.record [(name, d)]) (.record [(name, e)])
  /-- A command without a factor is given as a record with nothing in it. -/
  | named {name : String} : Respelling .command (.record [(name, .null)]) (.text name)
  /-- The rules of a table are given in another order. -/
  | rules {entries others : List (String × Datum)} (hperm : entries.Perm others)
      (hdistinct : (entries.map Prod.fst).Nodup) :
      Respelling .table (.record entries) (.record others)
  /-- An item of a list is respelled. -/
  | item {item : Schema} {before behind : List Datum} {d e : Datum} (h : Respelling item d e) :
      Respelling (.list item) (.list (before ++ d :: behind)) (.list (before ++ e :: behind))
  /-- The fields of a structure are given by position. -/
  | positional {fields : List (Field × Schema)} {values : List Datum}
      (hlength : values.length = fields.length) :
      Respelling (.record fields) (.list values) (.ofFields (fields.map Prod.fst) values)
  /-- The fields of a structure are given in another order. -/
  | order {fields : List (Field × Schema)} {entries others : List (String × Datum)}
      (hperm : entries.Perm others) (hdistinct : (entries.map Prod.fst).Nodup) :
      Respelling (.record fields) (.record entries) (.record others)
  /-- There is an entry with the name of no field. -/
  | extra {fields : List (Field × Schema)} {name : String} {d : Datum}
      {entries : List (String × Datum)} (hname : ∀ field ∈ fields, field.1.name ≠ name) :
      Respelling (.record fields) (.record ((name, d) :: entries)) (.record entries)
  /-- A field that holds nothing is left out. -/
  | missing {fields : List (Field × Schema)} {field : Field × Schema}
      {entries : List (String × Datum)} (hfield : field ∈ fields)
      (hoptional : field.1.optional = true) (hout : field.1.name ∉ entries.map Prod.fst) :
      Respelling (.record fields) (.record entries)
        (.record ((field.1.name, .null) :: entries))
  /-- What stands in a field is respelled. -/
  | field {fields : List (Field × Schema)} {field : Field × Schema}
      {before behind : List (String × Datum)} {d e : Datum} (hfield : field ∈ fields)
      (h : Respelling field.2 d e) :
      Respelling (.record fields) (.record (before ++ (field.1.name, d) :: behind))
        (.record (before ++ (field.1.name, e) :: behind))

/-- Two data that differ in their spelling only. -/
def Respelled (schema : Schema) : Datum → Datum → Prop := Relation.EqvGen (Respelling schema)

/-- A datum in which no record has a name twice. -/
inductive Datum.Distinct : Datum → Prop
  | null : Distinct .null
  | bool {value : Bool} : Distinct (.bool value)
  | int {value : Int} : Distinct (.int value)
  | real {value : Float32} : Distinct (.real value)
  | text {value : String} : Distinct (.text value)
  | list {items : List Datum} (h : ∀ d ∈ items, Distinct d) : Distinct (.list items)
  | record {entries : List (String × Datum)} (hnames : (entries.map Prod.fst).Nodup)
      (h : ∀ entry ∈ entries, Distinct entry.2) : Distinct (.record entries)

namespace Respelled

variable {schema other : Schema} {d e f : Datum}

theorem refl : Respelled schema d d := Relation.EqvGen.refl d

theorem symm (h : Respelled schema d e) : Respelled schema e d := Relation.EqvGen.symm d e h

theorem trans (h : Respelled schema d e) (h' : Respelled schema e f) : Respelled schema d f :=
  Relation.EqvGen.trans d e f h h'

theorem step (h : Respelling schema d e) : Respelled schema d e := Relation.EqvGen.rel d e h

/-- What holds a datum is respelled along with it. -/
theorem lift (around : Datum → Datum)
    (hstep : ∀ {d e}, Respelling schema d e → Respelling other (around d) (around e))
    (h : Respelled schema d e) : Respelled other (around d) (around e) := by
  induction h with
  | rel d e h => exact step (hstep h)
  | refl d => exact refl
  | symm d e _ ih => exact ih.symm
  | trans d e f _ _ ihd ihe => exact ihd.trans ihe

/-- All items of a list are respelled, those in front one after the other. -/
theorem list {ds es : List Datum} (h : List.Forall₂ (Respelled schema) ds es)
    (before : List Datum) :
    Respelled (.list schema) (.list (before ++ ds)) (.list (before ++ es)) := by
  induction h generalizing before with
  | nil => exact refl
  | @cons d e ds es hd _ ih =>
    have hhead : Respelled (.list schema) (.list (before ++ d :: ds)) (.list (before ++ e :: ds)) :=
      lift (fun d => .list (before ++ d :: ds)) Respelling.item hd
    have htail := ih (before ++ [e])
    rw [List.append_assoc, List.append_assoc] at htail
    exact hhead.trans htail

end Respelled

/-- What is made of a list step by step, if every step gives something. -/
theorem mapM_eq_some_iff {α β : Type} {f : α → Option β} {as : List α} {bs : List β} :
    as.mapM f = some bs ↔ List.Forall₂ (fun a b => f a = some b) as bs := by
  induction as generalizing bs with
  | nil =>
    rw [List.mapM_nil, List.forall₂_nil_left_iff]
    exact Option.some_inj.trans eq_comm
  | cons a as ih =>
    rw [List.mapM_cons]
    constructor
    · intro h
      obtain ⟨b, hb, h⟩ := Option.bind_eq_some_iff.mp h
      obtain ⟨bs', hbs, h⟩ := Option.bind_eq_some_iff.mp h
      cases h
      exact .cons hb (ih.mp hbs)
    · rintro (_ | ⟨hb, hbs⟩)
      rw [hb, ih.mpr hbs]
      rfl

/-- The lists of the right length are those of vectors. -/
theorem vector?_eq_some_iff {α : Type} {n : Nat} {as : List α} {xs : Vector α n} :
    Codec.vector? n as = some xs ↔ as = xs.toList := by
  constructor
  · intro h
    obtain ⟨_, hxs⟩ := Option.dite_none_right_eq_some.mp h
    cases hxs
    rfl
  · rintro rfl
    exact dif_pos xs.length_toList

/-! ## Stored types -/

/-- What is promised of a type whose values are stored. -/
class Storable (α : Type) [Codec α] where
  /-- What a stored value is made of. -/
  schema : Schema
  /-- The numbers with a fraction that a value holds. -/
  numbers : α → List Float32
  /-- A value is read back as itself, or refused for a number that is not finite. -/
  decode_encode_iff : ∀ {a b : α},
    decode (encode a) = some b ↔ a = b ∧ ∀ v ∈ numbers a, v.isFinite = true
  /-- A respelled datum is read as the same value, or refused as well. -/
  decode_congr : ∀ {d e : Datum}, Respelling schema d e → (decode d : Option α) = decode e
  /-- What is read as a value is a respelling of its stored form. -/
  respelled : ∀ {d : Datum} {a : α}, d.Distinct → decode d = some a →
    (∀ v ∈ numbers a, v.isFinite = true) → Respelled schema d (encode a)

export Storable (schema numbers)

/-- Whether all numbers that a value holds are finite. -/
def AllFinite {α : Type} [Codec α] [Storable α] (a : α) : Prop :=
  ∀ v ∈ numbers a, v.isFinite = true

instance {α : Type} [Codec α] [Storable α] (a : α) : Decidable (AllFinite a) :=
  inferInstanceAs (Decidable (∀ v ∈ numbers a, v.isFinite = true))

namespace Storable

variable {α β : Type} [Codec α] [Codec β]

theorem decode_encode [Storable α] {a : α} : decode (encode a) = some a ↔ AllFinite a :=
  decode_encode_iff.trans (and_iff_right rfl)

theorem decode_encode_eq_none [Storable α] {a : α} (h : ¬ AllFinite a) :
    (decode (encode a) : Option α) = none := by
  rw [Option.eq_none_iff_forall_ne_some]
  intro b hb
  exact h (decode_encode_iff.mp hb).2

/-- Data that differ in their spelling only are read as the same value. -/
theorem decode_eq [Storable α] {d e : Datum} (h : Respelled (schema α) d e) :
    (decode d : Option α) = decode e := by
  induction h with
  | rel d e h => exact decode_congr h
  | refl d => rfl
  | symm d e _ ih => exact ih.symm
  | trans d e f _ _ ihd ihe => exact ihd.trans ihe

/-- The data that are read as a value are the spellings of its stored form. -/
theorem decode_eq_some_iff [Storable α] {d : Datum} {a : α} (hdistinct : d.Distinct)
    (hfinite : AllFinite a) :
    decode d = some a ↔ Respelled (schema α) d (encode a) := by
  constructor
  · intro h
    exact respelled hdistinct h hfinite
  · intro h
    rw [decode_eq h]
    exact decode_encode.mpr hfinite

end Storable

/-- How faithfully a type is stored. -/
structure Faithful (α : Type) [Codec α] [Storable α] : Prop where
  /-- A value is read back as itself if and only if its numbers are finite. -/
  decode_encode_iff : ∀ a : α, decode (encode a) = some a ↔ AllFinite a
  /-- A value with a number that is not finite is refused. -/
  decode_encode_eq_none : ∀ a : α, ¬ AllFinite a → (decode (encode a) : Option α) = none
  /-- Spellings of one datum are read as the same value, or all refused. -/
  decode_eq : ∀ d e : Datum, Respelled (schema α) d e → (decode d : Option α) = decode e
  /-- There are no other spellings of a value. -/
  decode_eq_some_iff : ∀ (d : Datum) (a : α), d.Distinct → AllFinite a →
    (decode d = some a ↔ Respelled (schema α) d (encode a))

namespace Storable

variable {α β : Type} [Codec α] [Codec β]

theorem faithful [Storable α] : Faithful α where
  decode_encode_iff _ := decode_encode
  decode_encode_eq_none _ := decode_encode_eq_none
  decode_eq _ _ := decode_eq
  decode_eq_some_iff _ _ := decode_eq_some_iff

/-! ## Numbers and texts -/

instance : Storable Float32 where
  schema := .number
  numbers v := [v]
  decode_encode_iff := by
    intro a b
    change decode (if a.isFinite then Datum.real a else .null) = some b ↔ _
    by_cases h : a.isFinite = true
    · rw [if_pos h]
      simp [h, decode]
    · rw [if_neg h]
      simp [h, decode]
  decode_congr := by
    rintro d e ⟨⟩
    rfl
  respelled := by
    intro d a _ hd hfinite
    have hencode : encode a = .real a := if_pos (hfinite a (List.mem_singleton_self a))
    rw [hencode]
    cases d with
    | int n =>
      cases hd
      exact .step .whole
    | real v =>
      cases hd
      exact .refl
    | _ => cases hd

/-- A type whose values hold no number with a fraction and have one spelling each. -/
@[reducible] def plain (hdecode : ∀ (a : α) d, decode d = some a ↔ d = encode a) :
    Storable α where
  schema := .plain
  numbers _ := []
  decode_encode_iff := by
    intro a b
    have hself : decode (encode a) = some a := (hdecode a _).mpr rfl
    simp [hself]
  decode_congr := by rintro d e ⟨⟩
  respelled := by
    intro d a _ hd _
    rw [(hdecode a d).mp hd]
    exact .refl

instance : Storable Nat := plain fun n d => by
  constructor
  · intro h
    rcases d with _ | _ | (m | m) | _ | _ | _ | _ <;> cases h
    rfl
  · rintro rfl
    rfl

instance : Storable UInt32 := plain fun n d => by
  constructor
  · intro h
    rcases d with _ | _ | (m | m) | _ | _ | _ | _
    case int.ofNat =>
      obtain ⟨hm, hn⟩ := Option.ite_none_right_eq_some.mp h
      cases hn
      exact congrArg (Datum.int ∘ Int.ofNat) (UInt32.toNat_ofNat_of_lt' hm).symm
    all_goals cases h
  · rintro rfl
    exact (if_pos n.toNat_lt).trans (congrArg some UInt32.ofNat_toNat)

instance : Storable String := plain fun s d => by
  constructor
  · intro h
    cases d <;> cases h
    rfl
  · rintro rfl
    rfl

instance : Storable (Option Nat) := plain fun n d => by
  constructor
  · intro h
    rcases d with _ | _ | (m | m) | _ | _ | _ | _ <;> cases h <;> rfl
  · rintro rfl
    cases n <;> rfl

/-! ## Lists -/

theorem mapM_encode_iff [Storable α] {as bs : List α} :
    (as.map encode).mapM decode = some bs ↔
      as = bs ∧ ∀ v ∈ as.flatMap numbers, v.isFinite = true := by
  have hitem (a b : α) : decode (encode a) = some b ↔
      (∀ v ∈ numbers a, v.isFinite = true) ∧ a = b := decode_encode_iff.trans and_comm
  rw [mapM_eq_some_iff, List.forall₂_map_left_iff]
  simp only [hitem, List.forall₂_and_left, List.forall₂_eq_eq_eq, List.forall_mem_flatMap]
  exact and_comm

theorem respelled_of_mapM [Storable α] {items : List Datum} {as : List α}
    (hdistinct : ∀ d ∈ items, d.Distinct) (h : items.mapM decode = some as)
    (hfinite : ∀ v ∈ as.flatMap numbers, v.isFinite = true) :
    List.Forall₂ (Respelled (schema α)) items (as.map encode) := by
  rw [mapM_eq_some_iff] at h
  induction h with
  | nil => exact .nil
  | cons ha _ ih =>
    rw [List.forall_mem_cons] at hdistinct
    rw [List.flatMap_cons, List.forall_mem_append] at hfinite
    exact .cons (respelled hdistinct.1 ha hfinite.1) (ih hdistinct.2 hfinite.2)

instance [Storable α] : Storable (List α) where
  schema := .list (schema α)
  numbers as := as.flatMap numbers
  decode_encode_iff := mapM_encode_iff
  decode_congr := by
    rintro d e ⟨⟩
    rename_i before behind d e h
    change (before ++ d :: behind).mapM decode = (before ++ e :: behind).mapM decode
    rw [List.mapM_append, List.mapM_append, List.mapM_cons, List.mapM_cons, decode_congr h]
  respelled := by
    intro d as hdistinct hd hfinite
    cases d with
    | list items =>
      cases hdistinct with
      | list h => exact Respelled.list (respelled_of_mapM h hd hfinite) []
    | _ => cases hd

/-- A type that is stored as another one. -/
@[reducible] def through [Storable β] (image : α → β) (ofImage? : β → Option α)
    (hencode : ∀ a, encode a = encode (image a))
    (hdecode : ∀ d, (decode d : Option α) = (decode d).bind ofImage?)
    (himage : ∀ a b, ofImage? b = some a ↔ b = image a) : Storable α where
  schema := schema β
  numbers a := numbers (image a)
  decode_encode_iff := by
    intro a b
    rw [hencode, hdecode, Option.bind_eq_some_iff]
    constructor
    · rintro ⟨c, hc, hb⟩
      obtain ⟨rfl, hfinite⟩ := decode_encode_iff.mp hc
      exact ⟨Option.some.inj (((himage a _).mpr rfl).symm.trans hb), hfinite⟩
    · rintro ⟨rfl, hfinite⟩
      exact ⟨image a, decode_encode_iff.mpr ⟨rfl, hfinite⟩, (himage a _).mpr rfl⟩
  decode_congr := by
    intro d e h
    rw [hdecode, hdecode, decode_congr h]
  respelled := by
    intro d a hdistinct hd hfinite
    rw [hdecode] at hd
    obtain ⟨b, hb, ha⟩ := Option.bind_eq_some_iff.mp hd
    obtain rfl := (himage a b).mp ha
    rw [hencode]
    exact respelled hdistinct hb hfinite

/-- A type that has the values of another one and is stored as that. -/
@[reducible] def ofEquiv [Storable β] (e : α ≃ β) (hencode : ∀ a, encode a = encode (e a))
    (hdecode : ∀ d, (decode d : Option α) = (decode d).map e.symm) : Storable α :=
  through e (some ∘ e.symm) hencode (fun d => (hdecode d).trans Option.map_eq_bind)
    fun _ _ => Option.some_inj.trans e.symm_apply_eq

instance [Storable α] : Storable (Array α) :=
  ofEquiv (Equiv.arrayEquivList α) (fun _ => rfl) (fun _ => rfl)

instance [Storable α] {n : Nat} : Storable (Vector α n) :=
  through Vector.toList (Codec.vector? n) (fun _ => rfl) (fun _ => rfl) fun _ _ =>
    vector?_eq_some_iff

end Storable

end Arbor
