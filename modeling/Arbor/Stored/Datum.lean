/-!
# Stored data

Trees and their parameters are kept in files as nested plain data.  A datum is
such data after its text was read: whole numbers apart from numbers with a
fraction, texts, lists, and records of named entries.

A number with a fraction is kept as the single-precision number it stands for,
since nothing stored here is finer.
-/

namespace Arbor

/-- Plain nested data. -/
inductive Datum
  /-- Nothing. -/
  | null
  /-- A truth value. -/
  | bool (value : Bool)
  /-- A whole number. -/
  | int (value : Int)
  /-- A number with a fraction or beyond the whole numbers kept. -/
  | real (value : Float32)
  /-- A text. -/
  | text (value : String)
  /-- Data in order. -/
  | list (items : List Datum)
  /-- Data by name.  No name occurs twice. -/
  | record (entries : List (String × Datum))
  deriving Repr, Inhabited

/-! ## Records -/

/-- A field of a record. -/
structure Field where
  /-- The name it is stored under. -/
  name : String
  /-- Whether it may be left out, which means that there is nothing in it. -/
  optional : Bool
  deriving DecidableEq, Repr, Inhabited

/-- A field that has to be there. -/
def Field.required (name : String) : Field := ⟨name, false⟩

/-- A field that may be left out. -/
def Field.missable (name : String) : Field := ⟨name, true⟩

/-- What the entries of a record give for a field. -/
def Field.of? (entries : List (String × Datum)) (f : Field) : Option Datum :=
  match entries.lookup f.name with
  | some d => some d
  | none => if f.optional then some .null else none

namespace Datum

/-- The record with the given values in the given fields. -/
def ofFields (fields : List Field) (values : List Datum) : Datum :=
  .record ((fields.map Field.name).zip values)

/-- The values of some fields, in the order of the fields.  A record is read by
name, and other entries in it do not matter.  A list is read by position and has
to have as many items as there are fields. -/
def fields? (fields : List Field) : Datum → Option (List Datum)
  | .record entries => fields.mapM (Field.of? entries)
  | .list items => if items.length = fields.length then some items else none
  | _ => none

end Datum

end Arbor
