import Arbor.Stored.Datum

/-!
# Codecs

A codec says how the values of a type are stored and which data are read as one.
Reading is lenient where writing has a choice: a record may be given as the list
of its fields, and a whole number may stand for a number with a fraction.

Numbers that are not finite have no stored form.  They are written as nothing,
and nothing is not read as a number.
-/

namespace Arbor

/-- How a type is stored. -/
class Codec (α : Type) where
  /-- The stored form of a value. -/
  encode : α → Datum
  /-- The value of a datum, if it is read as one. -/
  decode : Datum → Option α

export Codec (encode decode)

/-! ## Numbers and texts -/

/-- Finite numbers only; whole numbers are read too. -/
instance : Codec Float32 where
  encode v := if v.isFinite then .real v else .null
  decode
    | .int n => some (Float32.ofInt n)
    | .real v => some v
    | _ => none

/-- Whole numbers that are not negative. -/
instance : Codec Nat where
  encode n := .int n
  decode
    | .int (.ofNat n) => some n
    | _ => none

/-- Whole numbers of 32 bits without a sign. -/
instance : Codec UInt32 where
  encode n := .int n.toNat
  decode
    | .int (.ofNat n) => if n < Nat.pow 2 32 then some (UInt32.ofNat n) else none
    | _ => none

instance : Codec String where
  encode s := .text s
  decode
    | .text s => some s
    | _ => none

/-! ## Options and lists -/

/-- No value is stored as nothing. -/
instance {α : Type} [Codec α] : Codec (Option α) where
  encode
    | none => .null
    | some a => encode a
  decode
    | .null => some none
    | d => (decode d).map some

instance {α : Type} [Codec α] : Codec (List α) where
  encode as := .list (as.map encode)
  decode
    | .list items => items.mapM decode
    | _ => none

instance {α : Type} [Codec α] : Codec (Array α) where
  encode as := encode as.toList
  decode d := (decode d).map List.toArray

/-- The values of a list, if there are as many as there should be. -/
def Codec.vector? {α : Type} (n : Nat) (as : List α) : Option (Vector α n) :=
  if h : as.length = n then some ⟨as.toArray, h⟩ else none

instance {α : Type} [Codec α] {n : Nat} : Codec (Vector α n) where
  encode as := encode as.toList
  decode d := (decode d).bind (Codec.vector? n)

/-! ## Records -/

/-- How a structure is stored as a record. -/
structure RecordForm (α : Type) where
  /-- The fields, in the order of their declaration. -/
  fields : List Field
  /-- The stored values of the fields. -/
  values : α → List Datum
  /-- The structure with the given values in its fields. -/
  ofValues? : List Datum → Option α

/-- The codec of a structure.  It is written as a record with all its fields. -/
@[reducible] def RecordForm.codec {α : Type} (form : RecordForm α) : Codec α where
  encode a := .ofFields form.fields (form.values a)
  decode d := (d.fields? form.fields).bind form.ofValues?

end Arbor
