import Arbor.Proofs.Spelling
import Mathlib.Data.List.Nodup

/-!
# Records

A structure keeps what a stored type promises if the types of its fields do.

*Entries.*  What the entries of a record give for a field does not depend on their order
as long as no name occurs twice, nor on entries with other names.

*Canonical records.*  A record that gives something for every field is a respelling of
the record with just these fields in their order: fields that were left out are added, the
entries are put in order and the ones without a field are taken away.

*Rows.*  A row holds one value for each of some fields of any types.  Rows are stored as
records and keep the promise field by field.

*Spreads.*  A structure whose record form goes through a row keeps the promise with it.
-/

namespace Arbor

/-! ## Entries -/

section Entries

variable {entries others : List (String × Datum)} {name : String} {d : Datum} {f : Field}

theorem lookup_eq_some_iff_mem (hnames : (entries.map Prod.fst).Nodup) :
    entries.lookup name = some d ↔ (name, d) ∈ entries := by
  rw [List.lookup_eq_some_iff]
  constructor
  · rintro ⟨front, behind, rfl, -⟩
    exact List.mem_append_right front List.mem_cons_self
  · intro h
    obtain ⟨front, behind, rfl⟩ := List.append_of_mem h
    refine ⟨front, behind, rfl, fun entry hentry => bne_iff_ne.mpr fun heq => ?_⟩
    rw [List.map_append, List.map_cons] at hnames
    exact (List.nodup_append.mp hnames).2.2 _ (List.mem_map_of_mem hentry) _
      List.mem_cons_self heq.symm

theorem lookup_eq_none_iff_notMem :
    entries.lookup name = none ↔ name ∉ entries.map Prod.fst := by
  rw [List.lookup_eq_none_iff, List.mem_map]
  constructor
  · rintro h ⟨entry, hentry, rfl⟩
    exact bne_iff_ne.mp (h entry hentry) rfl
  · intro h entry hentry
    exact bne_iff_ne.mpr fun heq => h ⟨entry, hentry, heq.symm⟩

namespace Field

theorem of?_eq_some_iff (hnames : (entries.map Prod.fst).Nodup) :
    f.of? entries = some d ↔
      (f.name, d) ∈ entries ∨ f.name ∉ entries.map Prod.fst ∧ f.optional = true ∧ .null = d := by
  rw [← lookup_eq_some_iff_mem hnames, ← lookup_eq_none_iff_notMem, of?]
  cases entries.lookup f.name <;> simp

theorem of?_perm (hperm : entries.Perm others) (hnames : (entries.map Prod.fst).Nodup) :
    f.of? entries = f.of? others := by
  have hothers : (others.map Prod.fst).Nodup := (hperm.map Prod.fst).nodup_iff.mp hnames
  have hlookup : entries.lookup f.name = others.lookup f.name := Option.ext fun d => by
    rw [lookup_eq_some_iff_mem hnames, lookup_eq_some_iff_mem hothers, hperm.mem_iff]
  rw [of?, of?, hlookup]

theorem of?_cons_self : f.of? ((f.name, d) :: entries) = some d := by
  rw [of?, List.lookup_cons_self]

theorem of?_cons_of_ne (h : f.name ≠ name) : f.of? ((name, d) :: entries) = f.of? entries := by
  rw [of?, of?, List.lookup_cons, beq_false_of_ne h]

/-- A field that may be left out holds nothing if it is. -/
theorem of?_missing (hout : f.name ∉ entries.map Prod.fst) (hoptional : f.optional = true) :
    f.of? entries = some .null := by
  rw [of?, lookup_eq_none_iff_notMem.mpr hout]
  exact if_pos hoptional

/-- A field is not affected by what stands in another one. -/
theorem of?_replace_of_ne {before behind : List (String × Datum)} {e : Datum}
    (h : f.name ≠ name) :
    f.of? (before ++ (name, d) :: behind) = f.of? (before ++ (name, e) :: behind) := by
  rw [of?, of?, List.lookup_append, List.lookup_append, List.lookup_cons, List.lookup_cons,
    beq_false_of_ne h]

/-- An entry is what its field gives, or it does not matter at all. -/
theorem of?_replace (before behind : List (String × Datum)) (d e : Datum) :
    f.of? (before ++ (f.name, d) :: behind) = f.of? (before ++ (f.name, e) :: behind) ∨
      f.of? (before ++ (f.name, d) :: behind) = some d ∧
        f.of? (before ++ (f.name, e) :: behind) = some e := by
  simp only [of?, List.lookup_append, List.lookup_cons_self]
  cases before.lookup f.name with
  | some c => exact .inl rfl
  | none => exact .inr ⟨rfl, rfl⟩

end Field

variable {fields : List Field} {values : List Datum}

theorem mem_zip_iff {g : Field → Option Datum}
    (h : List.Forall₂ (fun f d => g f = some d) fields values) :
    (name, d) ∈ (fields.map Field.name).zip values ↔
      ∃ f ∈ fields, f.name = name ∧ g f = some d := by
  induction h with
  | nil => simp
  | cons h _ ih =>
    rw [List.map_cons, List.zip_cons_cons, List.mem_cons, ih, List.exists_mem_cons_iff, h,
      Prod.mk.injEq, Option.some_inj, eq_comm, eq_comm (a := d)]

theorem names_zip (hlength : values.length = fields.length) :
    ((fields.map Field.name).zip values).map Prod.fst = fields.map Field.name :=
  List.map_fst_zip (Nat.le_of_eq ((List.length_map _).trans hlength.symm))

theorem fields?_ofFields (hnames : (fields.map Field.name).Nodup)
    (hlength : values.length = fields.length) :
    (Datum.ofFields fields values).fields? fields = some values := by
  have hentries : (((fields.map Field.name).zip values).map Prod.fst).Nodup := by
    rw [names_zip hlength]
    exact hnames
  refine mapM_eq_some_iff.mpr (List.forall₂_iff_zip.mpr ⟨hlength.symm, fun {f d} hzip => ?_⟩)
  rw [Field.of?_eq_some_iff hentries, List.zip_map_left]
  exact .inl (List.mem_map_of_mem (f := Prod.map Field.name id) hzip)

/-- The fields that a record has no entry for. -/
def leftOut (fields : List Field) (entries : List (String × Datum)) : List Field :=
  fields.filter fun f => f.name ∉ entries.map Prod.fst

/-- The entries of a record that no field has the name of. -/
def leftOver (fields : List Field) (entries : List (String × Datum)) : List (String × Datum) :=
  entries.filter fun entry => entry.1 ∉ fields.map Field.name

theorem mem_leftOut : f ∈ leftOut fields entries ↔ f ∈ fields ∧ f.name ∉ entries.map Prod.fst := by
  rw [leftOut, List.mem_filter, decide_eq_true_iff]

theorem mem_leftOver {entry : String × Datum} :
    entry ∈ leftOver fields entries ↔ entry ∈ entries ∧ entry.1 ∉ fields.map Field.name := by
  rw [leftOver, List.mem_filter, decide_eq_true_iff]

theorem nodup_leftOut (hfields : (fields.map Field.name).Nodup)
    (hnames : (entries.map Prod.fst).Nodup) :
    ((leftOut fields entries).map Field.name ++ entries.map Prod.fst).Nodup := by
  refine List.nodup_append.mpr ⟨(List.filter_sublist.map _).nodup hfields, hnames, ?_⟩
  rintro _ hleft _ hright rfl
  obtain ⟨f, hf, rfl⟩ := List.mem_map.mp hleft
  exact (mem_leftOut.mp hf).2 hright

theorem nodup_leftOver (hfields : (fields.map Field.name).Nodup)
    (hnames : (entries.map Prod.fst).Nodup) :
    ((leftOver fields entries).map Prod.fst ++ fields.map Field.name).Nodup := by
  refine List.nodup_append.mpr ⟨(List.filter_sublist.map _).nodup hnames, hfields, ?_⟩
  rintro _ hleft _ hright rfl
  obtain ⟨entry, hentry, rfl⟩ := List.mem_map.mp hleft
  exact (mem_leftOver.mp hentry).2 hright

/-- A record that gives something for every field leaves out nothing but what it may. -/
theorem of?_leftOut (hnames : (entries.map Prod.fst).Nodup)
    (hvalues : List.Forall₂ (fun f d => f.of? entries = some d) fields values)
    (hf : f ∈ leftOut fields entries) : f.optional = true ∧ f.of? entries = some .null := by
  obtain ⟨hf, hout⟩ := mem_leftOut.mp hf
  obtain ⟨d, hd⟩ : ∃ d, f.of? entries = some d := by
    obtain ⟨i, hi, rfl⟩ := List.getElem_of_mem hf
    exact ⟨_, hvalues.get hi (hvalues.length_eq ▸ hi)⟩
  rcases (Field.of?_eq_some_iff hnames).mp hd with hentry | ⟨-, hoptional, rfl⟩
  · exact absurd (List.mem_map_of_mem (f := Prod.fst) hentry) hout
  · exact ⟨hoptional, hd⟩

theorem distinct_values (hnames : (entries.map Prod.fst).Nodup)
    (hdistinct : ∀ entry ∈ entries, entry.2.Distinct)
    (hvalues : List.Forall₂ (fun f d => f.of? entries = some d) fields values) :
    ∀ d ∈ values, d.Distinct := by
  intro d hd
  obtain ⟨i, hi, rfl⟩ := List.getElem_of_mem hd
  have hfield : _ = some values[i] := hvalues.get (hvalues.length_eq ▸ hi) hi
  rcases (Field.of?_eq_some_iff hnames).mp hfield with hentry | ⟨-, -, hnull⟩
  · exact hdistinct _ hentry
  · exact hnull ▸ .null

/-- With the fields that were left out, the entries of a record are those that no field has
the name of and what is given for the fields. -/
theorem perm_leftOver (hfields : (fields.map Field.name).Nodup)
    (hnames : (entries.map Prod.fst).Nodup)
    (hvalues : List.Forall₂ (fun f d => f.of? entries = some d) fields values) :
    ((leftOut fields entries).map (fun f => (f.name, Datum.null)) ++ entries).Perm
      (leftOver fields entries ++ (fields.map Field.name).zip values) := by
  have hleft : ((leftOut fields entries).map (fun f => (f.name, Datum.null)) ++ entries).Nodup := by
    refine List.Nodup.of_map Prod.fst ?_
    rw [List.map_append, List.map_map]
    exact nodup_leftOut hfields hnames
  have hright : (leftOver fields entries ++ (fields.map Field.name).zip values).Nodup := by
    refine List.Nodup.of_map Prod.fst ?_
    rw [List.map_append, names_zip hvalues.length_eq.symm]
    exact nodup_leftOver hfields hnames
  rw [List.perm_ext_iff_of_nodup hleft hright]
  rintro ⟨name, d⟩
  rw [List.mem_append, List.mem_append, mem_leftOver, mem_zip_iff hvalues, List.mem_map]
  constructor
  · rintro (⟨f, hf, heq⟩ | hentry)
    · cases heq
      exact .inr ⟨f, (mem_leftOut.mp hf).1, rfl, (of?_leftOut hnames hvalues hf).2⟩
    · by_cases hname : name ∈ fields.map Field.name
      · obtain ⟨f, hf, rfl⟩ := List.mem_map.mp hname
        exact .inr ⟨f, hf, rfl, (Field.of?_eq_some_iff hnames).mpr (.inl hentry)⟩
      · exact .inl ⟨hentry, hname⟩
  · rintro (⟨hentry, -⟩ | ⟨f, hf, rfl, hd⟩)
    · exact .inr hentry
    · rcases (Field.of?_eq_some_iff hnames).mp hd with hentry | ⟨hout, -, rfl⟩
      · exact .inr hentry
      · exact .inl ⟨f, mem_leftOut.mpr ⟨hf, hout⟩, rfl⟩

end Entries

/-! ## Canonical records -/

namespace Respelled

variable {fields : List (Field × Schema)} {entries : List (String × Datum)}

/-- Entries with the names of no fields make no difference. -/
theorem extras {others : List (String × Datum)}
    (h : ∀ entry ∈ others, entry.1 ∉ (fields.map Prod.fst).map Field.name) :
    Respelled (.record fields) (.record (others ++ entries)) (.record entries) := by
  induction others with
  | nil => exact refl
  | cons entry others ih =>
    rw [List.forall_mem_cons] at h
    have hname : ∀ field ∈ fields, field.1.name ≠ entry.1 := fun field hfield heq =>
      h.1 (heq ▸ List.mem_map_of_mem (List.mem_map_of_mem hfield))
    exact (step (.extra hname)).trans (ih h.2)

/-- Fields that were left out are added. -/
theorem missings {absent : List Field}
    (hnames : (absent.map Field.name ++ entries.map Prod.fst).Nodup)
    (h : ∀ f ∈ absent, f ∈ fields.map Prod.fst ∧ f.optional = true) :
    Respelled (.record fields) (.record entries)
      (.record (absent.map (fun f => (f.name, Datum.null)) ++ entries)) := by
  induction absent with
  | nil => exact refl
  | cons f absent ih =>
    rw [List.forall_mem_cons] at h
    rw [List.map_cons, List.cons_append, List.nodup_cons] at hnames
    obtain ⟨⟨hf, hoptional⟩, h⟩ := h
    obtain ⟨field, hfield, rfl⟩ := List.mem_map.mp hf
    refine (ih hnames.2 h).trans (step (.missing hfield hoptional ?_))
    rw [List.map_append, List.map_map]
    exact hnames.1

/-- A record that gives something for every field is a respelling of the record that has
just these fields in their order. -/
theorem ofFields {values : List Datum} (hfields : ((fields.map Prod.fst).map Field.name).Nodup)
    (hnames : (entries.map Prod.fst).Nodup)
    (h : (fields.map Prod.fst).mapM (Field.of? entries) = some values) :
    Respelled (.record fields) (.record entries) (.ofFields (fields.map Prod.fst) values) := by
  have hvalues := mapM_eq_some_iff.mp h
  have habsent : ∀ f ∈ leftOut (fields.map Prod.fst) entries,
      f ∈ fields.map Prod.fst ∧ f.optional = true := fun f hf =>
    ⟨(mem_leftOut.mp hf).1, (of?_leftOut hnames hvalues hf).1⟩
  have hdistinct : (((leftOut (fields.map Prod.fst) entries).map
      (fun f => (f.name, Datum.null)) ++ entries).map Prod.fst).Nodup := by
    rw [List.map_append, List.map_map]
    exact nodup_leftOut hfields hnames
  refine (missings (nodup_leftOut hfields hnames) habsent).trans ?_
  refine (step (.order (perm_leftOver hfields hnames hvalues) hdistinct)).trans ?_
  exact extras fun entry hentry => (mem_leftOver.mp hentry).2

end Respelled

/-! ## Rows -/

/-- A field of a structure with the type of what stands in it. -/
structure Member where
  /-- The field. -/
  field : Field
  /-- The type of its values. -/
  Value : Type
  [codec : Codec Value]
  [storable : Storable Value]

attribute [instance] Member.codec Member.storable

/-- What stands in a field, as far as it may be spelled in several ways. -/
def Member.entry (m : Member) : Field × Schema := (m.field, schema m.Value)

/-- One value for each of some fields. -/
def Row : List Member → Type
  | [] => Unit
  | m :: ms => m.Value × Row ms

namespace Row

variable {ms : List Member}

/-- The stored values. -/
def write : {ms : List Member} → Row ms → List Datum
  | [], _ => []
  | _ :: _, row => encode row.1 :: write row.2

/-- The numbers with a fraction in all values. -/
def numbers : {ms : List Member} → Row ms → List Float32
  | [], _ => []
  | _ :: _, row => Storable.numbers row.1 ++ numbers row.2

/-- The values of some data, one for each field. -/
def read? : (ms : List Member) → List Datum → Option (Row ms)
  | [], [] => some ()
  | _ :: ms, d :: ds => (decode d).bind fun a => (read? ms ds).map fun row => (a, row)
  | _, _ => none

section

variable {α : Type} {m : Member} {d : Datum} {ds : List Datum}

@[simp] theorem map_read?_nil (f : Row [] → α) : (read? [] []).map f = some (f ()) := rfl

@[simp] theorem map_read?_cons (f : Row (m :: ms) → α) :
    (read? (m :: ms) (d :: ds)).map f =
      (decode d).bind fun a => (read? ms ds).map fun row => f (a, row) := by
  rw [read?, Option.map_bind]
  exact congrArg _ (funext fun a => Option.map_map ..)

@[simp] theorem read?_nil_cons : read? [] (d :: ds) = none := rfl

@[simp] theorem read?_cons_nil : read? (m :: ms) [] = none := rfl

end

/-- The values that a record gives for all fields. -/
def collect? (ms : List Member) (entries : List (String × Datum)) : Option (Row ms) :=
  ((ms.map Member.field).mapM (Field.of? entries)).bind (read? ms)

@[simp] theorem length_write (row : Row ms) : row.write.length = ms.length := by
  induction ms with
  | nil => rfl
  | cons m ms ih => exact congrArg Nat.succ (ih row.2)

theorem read?_write_iff {row row' : Row ms} :
    read? ms row.write = some row' ↔ row = row' ∧ ∀ v ∈ row.numbers, v.isFinite = true := by
  induction ms with
  | nil => exact ⟨fun _ => ⟨rfl, List.forall_mem_nil _⟩, fun _ => rfl⟩
  | cons m ms ih =>
    rw [numbers, List.forall_mem_append, write, read?, Option.bind_eq_some_iff]
    obtain ⟨a, row⟩ := row
    constructor
    · rintro ⟨b, hb, h⟩
      obtain ⟨row'', hrow, h⟩ := Option.map_eq_some_iff.mp h
      cases h
      obtain ⟨rfl, ha⟩ := Storable.decode_encode_iff.mp hb
      obtain ⟨rfl, hfinite⟩ := ih.mp hrow
      exact ⟨rfl, ha, hfinite⟩
    · rintro ⟨h, ha, hfinite⟩
      cases h
      refine ⟨a, Storable.decode_encode_iff.mpr ⟨rfl, ha⟩, ?_⟩
      rw [ih.mpr ⟨rfl, hfinite⟩]
      rfl

theorem collect?_cons {m : Member} {entries : List (String × Datum)} :
    collect? (m :: ms) entries =
      ((m.field.of? entries).bind decode).bind fun a =>
        (collect? ms entries).map fun row => ((a, row) : Row (m :: ms)) := by
  rw [collect?, collect?, List.map_cons, List.mapM_cons]
  rcases m.field.of? entries with _ | d
  · rfl
  · rcases (ms.map Member.field).mapM (Field.of? entries) with _ | ds
    · change none = (decode d).bind fun _ => none
      exact (Option.bind_fun_none _).symm
    · rfl

/-- Two records are read as the same row if they give the same value for each field. -/
theorem collect?_congr {entries others : List (String × Datum)}
    (h : ∀ m ∈ ms, ((m.field.of? entries).bind decode : Option m.Value) =
      (m.field.of? others).bind decode) :
    collect? ms entries = collect? ms others := by
  induction ms with
  | nil => rfl
  | cons m ms ih =>
    rw [List.forall_mem_cons] at h
    rw [collect?_cons, collect?_cons, h.1, ih h.2]

/-- A row of values from data with one spelling for each value. -/
theorem respelled_write {fields : List (Field × Schema)} {ds : List Datum} {row : Row ms}
    (hms : ∀ m ∈ ms, m.entry ∈ fields) (hdistinct : ∀ d ∈ ds, d.Distinct)
    (h : read? ms ds = some row) (hfinite : ∀ v ∈ row.numbers, v.isFinite = true)
    (before : List (String × Datum)) :
    Respelled (.record fields)
      (.record (before ++ ((ms.map Member.field).map Field.name).zip ds))
      (.record (before ++ ((ms.map Member.field).map Field.name).zip row.write)) := by
  induction ms generalizing ds before with
  | nil => exact .refl
  | cons m ms ih =>
    cases ds with
    | nil => cases h
    | cons d ds =>
      obtain ⟨a, ha, h⟩ := Option.bind_eq_some_iff.mp h
      obtain ⟨row, hrow, h⟩ := Option.map_eq_some_iff.mp h
      rw [numbers, List.forall_mem_append] at hfinite
      cases h
      rw [List.forall_mem_cons] at hms hdistinct
      have hhead : Respelled (.record fields)
          (.record (before ++ (m.field.name, d) :: ((ms.map Member.field).map Field.name).zip ds))
          (.record (before ++
            (m.field.name, encode a) :: ((ms.map Member.field).map Field.name).zip ds)) :=
        Respelled.lift
          (fun d => .record (before ++
            (m.field.name, d) :: ((ms.map Member.field).map Field.name).zip ds))
          (Respelling.field hms.1) (Storable.respelled hdistinct.1 ha hfinite.1)
      have htail := ih hms.2 hdistinct.2 hrow hfinite.2 (before ++ [(m.field.name, encode a)])
      rw [List.append_assoc, List.append_assoc] at htail
      exact hhead.trans htail

theorem map_fst_entry : (ms.map Member.entry).map Prod.fst = ms.map Member.field :=
  List.map_map

theorem eq_of_name {m m' : Member} (hnames : ((ms.map Member.field).map Field.name).Nodup)
    (hm : m ∈ ms) (hm' : m' ∈ ms) (h : m.field.name = m'.field.name) : m = m' := by
  rw [List.map_map] at hnames
  exact List.inj_on_of_nodup_map hnames hm hm' h

/-- A row is stored as a record. -/
instance : Codec (Row ms) where
  encode row := .ofFields (ms.map Member.field) row.write
  decode d := (d.fields? (ms.map Member.field)).bind (read? ms)

theorem decode_encode_iff {row row' : Row ms}
    (hnames : ((ms.map Member.field).map Field.name).Nodup) :
    decode (encode row) = some row' ↔ row = row' ∧ ∀ v ∈ row.numbers, v.isFinite = true := by
  change ((Datum.ofFields (ms.map Member.field) row.write).fields? _).bind (read? ms) = _ ↔ _
  rw [fields?_ofFields hnames (by rw [length_write, List.length_map])]
  exact read?_write_iff

/-- Records that give the same for all fields but one are read as the same row if the same
value stands in that one. -/
theorem collect?_congr_of_name {entries others : List (String × Datum)} {m : Member}
    (hnames : ((ms.map Member.field).map Field.name).Nodup) (hm : m ∈ ms)
    (hvalue : ((m.field.of? entries).bind decode : Option m.Value) =
      (m.field.of? others).bind decode)
    (hothers : ∀ f : Field, f.name ≠ m.field.name → f.of? entries = f.of? others) :
    collect? ms entries = collect? ms others := by
  refine collect?_congr fun m' hm' => ?_
  by_cases hname : m'.field.name = m.field.name
  · obtain rfl := eq_of_name hnames hm' hm hname
    exact hvalue
  · rw [hothers m'.field hname]

theorem decode_congr {d e : Datum} (hnames : ((ms.map Member.field).map Field.name).Nodup)
    (h : Respelling (.record (ms.map Member.entry)) d e) :
    (decode d : Option (Row ms)) = decode e := by
  cases h with
  | @positional _ values hlength =>
    rw [List.length_map, ← List.length_map Member.field] at hlength
    change (if values.length = _ then some values else none).bind (read? ms) =
      ((Datum.ofFields _ values).fields? _).bind (read? ms)
    rw [map_fst_entry, fields?_ofFields hnames hlength, if_pos hlength]
  | order hperm hdistinct =>
    refine collect?_congr fun m _ => ?_
    rw [Field.of?_perm hperm hdistinct]
  | extra hname =>
    refine collect?_congr fun m hm => ?_
    have hout : m.field.name ≠ _ := hname m.entry (List.mem_map_of_mem hm)
    rw [Field.of?_cons_of_ne hout]
  | missing hfield hoptional hout =>
    obtain ⟨m, hm, rfl⟩ := List.mem_map.mp hfield
    refine collect?_congr_of_name hnames hm (congrArg (Option.bind · decode) ?_) fun f hf => ?_
    · exact (Field.of?_missing hout hoptional).trans Field.of?_cons_self.symm
    · exact (Field.of?_cons_of_ne hf).symm
  | @field _ _ before behind d e hfield h =>
    obtain ⟨m, hm, rfl⟩ := List.mem_map.mp hfield
    refine collect?_congr_of_name hnames hm ?_ fun f hf => Field.of?_replace_of_ne hf
    rcases Field.of?_replace (f := m.field) before behind d e with heq | ⟨hd, he⟩
    · exact congrArg (Option.bind · decode) heq
    · calc (m.field.of? (before ++ (m.field.name, d) :: behind)).bind decode
          = (decode d : Option m.Value) := by rw [hd, Option.bind_some]
        _ = decode e := Storable.decode_congr h
        _ = (m.field.of? (before ++ (m.field.name, e) :: behind)).bind decode := by
          rw [he, Option.bind_some]

/-- Whatever a datum is that gives something for every field, it is a respelling of the record
of these values. -/
theorem respelled_ofFields {d : Datum} {values : List Datum}
    (hnames : ((ms.map Member.field).map Field.name).Nodup) (hdistinct : d.Distinct)
    (hvalues : d.fields? (ms.map Member.field) = some values) :
    (∀ d ∈ values, d.Distinct) ∧
      Respelled (.record (ms.map Member.entry)) d (.ofFields (ms.map Member.field) values) := by
  rw [← map_fst_entry] at hnames hvalues ⊢
  cases hdistinct with
  | list hdistinct =>
    obtain ⟨hlength, hitems⟩ := Option.ite_none_right_eq_some.mp hvalues
    cases hitems
    rw [List.length_map] at hlength
    exact ⟨hdistinct, .step (.positional hlength)⟩
  | record hentries hdistinct =>
    exact ⟨distinct_values hentries hdistinct (mapM_eq_some_iff.mp hvalues),
      .ofFields hnames hentries hvalues⟩
  | _ => cases hvalues

theorem respelled {d : Datum} {row : Row ms}
    (hnames : ((ms.map Member.field).map Field.name).Nodup) (hdistinct : d.Distinct)
    (h : decode d = some row) (hfinite : ∀ v ∈ row.numbers, v.isFinite = true) :
    Respelled (.record (ms.map Member.entry)) d (encode row) := by
  obtain ⟨values, hvalues, hrow⟩ := Option.bind_eq_some_iff.mp h
  obtain ⟨hdistinct, hrecord⟩ := respelled_ofFields hnames hdistinct hvalues
  refine hrecord.trans ?_
  exact respelled_write (fun m hm => List.mem_map_of_mem hm) hdistinct hrow hfinite []

/-- Rows keep what is promised if no two fields have one name. -/
@[reducible] def storable (hnames : ((ms.map Member.field).map Field.name).Nodup) :
    Storable (Row ms) where
  schema := .record (ms.map Member.entry)
  numbers := numbers
  decode_encode_iff := decode_encode_iff hnames
  decode_congr := decode_congr hnames
  respelled := respelled hnames

end Row

/-! ## Spreads -/

/-- A structure whose record form goes through a row. -/
structure RecordForm.Spread {α : Type} (form : RecordForm α) (ms : List Member) where
  /-- The values of the fields. -/
  toRow : α → Row ms
  /-- The structure with some values in its fields. -/
  ofRow : Row ms → α
  ofRow_toRow : ∀ a, ofRow (toRow a) = a := by intro a; rfl
  toRow_ofRow : ∀ row, toRow (ofRow row) = row := by intro row; rfl
  /-- The row has the fields of the form. -/
  fields_eq : form.fields = ms.map Member.field := by rfl
  /-- No two fields have one name. -/
  nodup : ((ms.map Member.field).map Field.name).Nodup := by decide
  /-- The form writes what the row writes. -/
  values_eq : ∀ a, form.values a = (toRow a).write := by intro a; rfl
  /-- The form reads what the row reads. -/
  ofValues?_eq : ∀ values, form.ofValues? values = (Row.read? ms values).map ofRow

/-- A structure keeps what is promised if the types of its fields do. -/
@[reducible] def RecordForm.Spread.storable {α : Type} {form : RecordForm α} {ms : List Member}
    (spread : form.Spread ms) : @Storable α form.codec :=
  letI := form.codec
  letI := Row.storable spread.nodup
  Storable.ofEquiv ⟨spread.toRow, spread.ofRow, spread.ofRow_toRow, spread.toRow_ofRow⟩
    (fun a => by
      change Datum.ofFields form.fields (form.values a) = Datum.ofFields _ _
      rw [spread.fields_eq]
      exact congrArg _ (spread.values_eq a))
    (fun d => by
      change (d.fields? form.fields).bind form.ofValues? =
        ((d.fields? (ms.map Member.field)).bind (Row.read? ms)).map spread.ofRow
      rw [spread.fields_eq, Option.map_bind]
      exact congrArg _ (funext spread.ofValues?_eq))

end Arbor
