import Arbor.Proofs.Edits
import Arbor.Proofs.Records
import Arbor.Stored.Tree
import Mathlib.Data.List.Perm.Basic

/-!
# Storage

Everything that can be kept is stored faithfully: it is read back as itself unless it holds a
number that is not finite, and a fair spelling of the stored form makes no difference.

*Points.*  A point is stored as the list of its coordinates.  Lists of a fixed length are
stored faithfully, and a point is one.

*Rule tables.*  A rule is stored under the name that its symbol makes.  Names that differ make
symbols that differ, so a record is read as a table if and only if its entries are those of
the table, in any order (`Rules.decode_eq_some_iff`).

*Commands.*  The names that stand alone and the names that go with a factor are different.  So
a factor that is not finite, which is written as nothing, is not taken for a name that stands
alone (`Command.decode_factor`).

*Structures.*  For each structure it is enough to say which types its fields have.
-/

namespace Arbor

open Storable

/-! ## Points -/

instance : Storable Vec3 :=
  ofEquiv ⟨Vec3.coordinates, Vec3.ofCoordinates, fun _ => rfl, fun _ => Vector.ofFn_getElem⟩
    (fun _ => rfl) (fun _ => rfl)

instance : Storable Quat :=
  ofEquiv ⟨Quat.coordinates, Quat.ofCoordinates, fun _ => rfl, fun _ => Vector.ofFn_getElem⟩
    (fun _ => rfl) (fun _ => rfl)

instance : Storable TexCoord :=
  ofEquiv
    ⟨TexCoord.coordinates, TexCoord.ofCoordinates, fun _ => rfl, fun _ => Vector.ofFn_getElem⟩
    (fun _ => rfl) (fun _ => rfl)

/-! ## Rule tables -/

namespace Rules

variable {rules : Rules} {entries : List (String × Datum)} {pairs : List (Char × String)}

/-- How a rule is stored. -/
def entry (rule : Char × String) : String × Datum := (String.singleton rule.1, encode rule.2)

theorem symbol?_eq_some_iff {name : String} {c : Char} :
    symbol? name = some c ↔ name = String.singleton c := by
  rw [symbol?, ← String.toList_inj, String.toList_singleton]
  rcases name.toList with _ | ⟨d, _ | _⟩ <;> simp

theorem entry?_eq_some_iff {stored : String × Datum} {rule : Char × String} :
    entry? stored = some rule ↔ stored = entry rule := by
  obtain ⟨name, d⟩ := stored
  obtain ⟨c, replacement⟩ := rule
  constructor
  · intro h
    obtain ⟨c', hc, h⟩ := Option.bind_eq_some_iff.mp h
    obtain ⟨replacement', hd, h⟩ := Option.bind_eq_some_iff.mp h
    cases h
    cases symbol?_eq_some_iff.mp hc
    cases d with
    | text s =>
      cases hd
      rfl
    | _ => cases hd
  · intro h
    cases h
    have hsymbol : symbol? (String.singleton c) = some c := symbol?_eq_some_iff.mpr rfl
    change (symbol? (String.singleton c)).bind _ = _
    rw [hsymbol]
    rfl

theorem map_fst_entry :
    (pairs.map entry).map Prod.fst = (pairs.map Prod.fst).map String.singleton := by
  rw [List.map_map, List.map_map]
  rfl

theorem injective_entry : Function.Injective entry := fun rule other h => by
  have hrule := entry?_eq_some_iff.mpr h
  rw [entry?_eq_some_iff.mpr rfl] at hrule
  exact Option.some.inj hrule

/-- The entries of a table made of rules for distinct symbols are these rules. -/
theorem toList_ofList_perm (hsymbols : (pairs.map Prod.fst).Nodup) :
    (Std.ExtTreeMap.ofList pairs compare).toList.Perm pairs := by
  have hdistinct : pairs.Pairwise fun a b => ¬compare a.1 b.1 = .eq :=
    (List.pairwise_map.mp hsymbols).imp fun hne h => hne (Std.LawfulEqCmp.eq_of_compare h)
  rw [List.perm_ext_iff_of_nodup (nodup_toList _) (List.Nodup.of_map _ hsymbols)]
  rintro ⟨c, replacement⟩
  rw [Std.ExtTreeMap.mem_toList_iff_getElem?_eq_some]
  constructor
  · intro h
    by_cases hc : c ∈ pairs.map Prod.fst
    · obtain ⟨⟨c, other⟩, hmem, rfl⟩ := List.mem_map.mp hc
      have hother := Std.ExtTreeMap.getElem?_ofList_of_mem Std.ReflCmp.compare_self hdistinct hmem
      cases h.symm.trans hother
      exact hmem
    · have hnone : (Std.ExtTreeMap.ofList pairs compare)[c]? = none :=
        Std.ExtTreeMap.getElem?_ofList_of_contains_eq_false (by simpa using hc)
      cases h.symm.trans hnone
  · intro h
    exact Std.ExtTreeMap.getElem?_ofList_of_mem Std.ReflCmp.compare_self hdistinct h

theorem nodup_symbols : (rules.toList.map Prod.fst).Nodup := by
  rw [Std.ExtTreeMap.map_fst_toList_eq_keys]
  exact Std.ExtTreeMap.nodup_keys

theorem encode_eq : encode rules = .record (rules.toList.map entry) := rfl

theorem mapM_entry?_iff : entries.mapM entry? = some pairs ↔ entries = pairs.map entry := by
  simp only [mapM_eq_some_iff, entry?_eq_some_iff]
  rw [← List.forall₂_map_right_iff, List.forall₂_eq_eq_eq]

/-- A record without a name twice is read as a table if its entries are those of the table,
in whatever order. -/
theorem decode_eq_some_iff (hnames : (entries.map Prod.fst).Nodup) :
    decode (.record entries) = some rules ↔ entries.Perm (rules.toList.map entry) := by
  change (entries.mapM entry?).map (Std.ExtTreeMap.ofList · compare) = some rules ↔ _
  rw [Option.map_eq_some_iff]
  constructor
  · rintro ⟨pairs, hpairs, rfl⟩
    obtain rfl := mapM_entry?_iff.mp hpairs
    rw [map_fst_entry] at hnames
    exact ((toList_ofList_perm (List.Nodup.of_map _ hnames)).map entry).symm
  · intro hperm
    obtain ⟨pairs, hpairs, hrules⟩ :=
      (congrFun₂ (List.eq_map_comp_perm entry) entries rules.toList).mpr hperm
    refine ⟨pairs, mapM_entry?_iff.mpr hpairs, Std.ExtTreeMap.ext_toList ?_⟩
    exact (toList_ofList_perm ((hrules.map Prod.fst).nodup_iff.mpr nodup_symbols)).trans hrules

theorem nodup_names : ((rules.toList.map entry).map Prod.fst).Nodup := by
  have hsingleton : Function.Injective String.singleton := fun c d h => by
    rw [← String.toList_inj, String.toList_singleton, String.toList_singleton] at h
    exact List.head_eq_of_cons_eq h
  rw [map_fst_entry]
  exact nodup_symbols.map hsingleton

end Rules

instance : Storable Rules where
  schema := .table
  numbers _ := []
  decode_encode_iff := by
    intro rules rules'
    rw [Rules.encode_eq, Rules.decode_eq_some_iff Rules.nodup_names,
      List.map_perm_map_iff Rules.injective_entry]
    constructor
    · intro hperm
      exact ⟨Std.ExtTreeMap.ext_toList hperm, fun v hv => absurd hv List.not_mem_nil⟩
    · rintro ⟨rfl, -⟩
      exact .refl _
  decode_congr := by
    rintro d e (_ | _ | _ | ⟨hperm, hnames⟩)
    refine Option.ext fun rules => ?_
    rw [Rules.decode_eq_some_iff hnames,
      Rules.decode_eq_some_iff ((hperm.map Prod.fst).nodup_iff.mp hnames)]
    exact ⟨hperm.symm.trans, hperm.trans⟩
  respelled := by
    intro d rules hdistinct h _
    cases hdistinct with
    | record hnames =>
      exact .step (.rules ((Rules.decode_eq_some_iff hnames).mp h) hnames)
    | _ => cases h

/-! ## Commands -/

namespace Command

variable {name : String} {factor : Float32} {c c' : Command}

/-- The factor of a command that has one. -/
def factors : Command → List Float32
  | .turn (.yaw factor) => [factor]
  | .turn (.pitch factor) => [factor]
  | .turn (.roll factor) => [factor]
  | _ => []

theorem encode_of_named? (h : named? name = some c) : encode c = .text name := by
  unfold named? at h
  split at h <;> cases h <;> rfl

theorem encode_of_namedWith? (h : namedWith? name factor = some c) :
    encode c = .record [(name, encode factor)] ∧ c.factors = [factor] := by
  unfold namedWith? at h
  split at h <;> cases h <;> exact ⟨rfl, rfl⟩

/-- A name with nothing behind it stands alone, so that a factor that is not finite does not
make a command. -/
theorem decode_factor (hname : named? name = none) :
    decode (.record [(name, encode factor)]) =
      if factor.isFinite then namedWith? name factor else none := by
  by_cases h : factor.isFinite = true
  · have hfactor : encode factor = .real factor := if_pos h
    rw [hfactor, if_pos h]
    rfl
  · have hfactor : encode factor = .null := if_neg h
    rw [hfactor, if_neg h]
    exact hname

theorem decode_factor_iff (hname : named? name = none) (hwith : namedWith? name factor = some c) :
    decode (.record [(name, encode factor)]) = some c' ↔
      c = c' ∧ ∀ v ∈ [factor], v.isFinite = true := by
  rw [decode_factor hname, hwith, Option.ite_none_right_eq_some, List.forall_mem_singleton,
    Option.some_inj, and_comm]

theorem decode_name_iff (hname : named? name = some c) :
    decode (.text name) = some c' ↔ c = c' ∧ ∀ v ∈ ([] : List Float32), v.isFinite = true := by
  have hdecode : decode (.text name) = some c := hname
  rw [hdecode, Option.some_inj]
  exact (and_iff_left (List.forall_mem_nil _)).symm

theorem decode_encode_iff :
    decode (encode c) = some c' ↔ c = c' ∧ ∀ v ∈ c.factors, v.isFinite = true := by
  cases c with
  | turn t =>
    cases t with
    | yaw factor => exact decode_factor_iff rfl rfl
    | pitch factor => exact decode_factor_iff rfl rfl
    | roll factor => exact decode_factor_iff rfl rfl
    | about => exact decode_name_iff rfl
  | draw => exact decode_name_iff rfl
  | move => exact decode_name_iff rfl
  | push => exact decode_name_iff rfl
  | pop => exact decode_name_iff rfl
  | ignore => exact decode_name_iff rfl

/-- A record that is read as a command has one entry, from a name to nothing or a factor. -/
theorem exists_of_decode_record {entries : List (String × Datum)}
    (h : decode (.record entries) = some c) :
    ∃ name d, entries = [(name, d)] ∧ (d = .null ∧ named? name = some c ∨
      ∃ factor, decode d = some factor ∧ namedWith? name factor = some c) := by
  rcases entries with _ | ⟨⟨name, d⟩, _ | _⟩
  case nil => cases h
  case cons.cons => cases d <;> cases h
  refine ⟨name, d, rfl, ?_⟩
  cases d with
  | null => exact .inl ⟨rfl, h⟩
  | _ => exact .inr (Option.bind_eq_some_iff.mp h)

theorem respelled {d : Datum} (hdistinct : d.Distinct) (h : decode d = some c)
    (hfinite : ∀ v ∈ c.factors, v.isFinite = true) : Respelled .command d (encode c) := by
  cases d with
  | text name =>
    rw [encode_of_named? h]
    exact .refl
  | record entries =>
    obtain ⟨name, d, rfl, ⟨rfl, hname⟩ | ⟨factor, hd, hfactor⟩⟩ := exists_of_decode_record h
    · rw [encode_of_named? hname]
      exact .step .named
    · obtain ⟨hencode, hfactors⟩ := encode_of_namedWith? hfactor
      rw [hfactors] at hfinite
      rw [hencode]
      cases hdistinct with
      | record _ hdistinct =>
        exact Respelled.lift (fun d => .record [(name, d)]) Respelling.factor
          (Storable.respelled (hdistinct _ List.mem_cons_self) hd hfinite)
  | _ => cases h

end Command

instance : Storable Command where
  schema := .command
  numbers := Command.factors
  decode_encode_iff := Command.decode_encode_iff
  decode_congr := by
    rintro d e (_ | ⟨⟨⟩⟩ | _)
    · rfl
    · rfl
  respelled := Command.respelled

/-! ## Structures -/

/-- The fields of a grammar. -/
def Grammar.spread : Grammar.form.Spread [⟨.required "axiom", String⟩,
    ⟨.required "rules", Rules⟩, ⟨.required "iterations", UInt32⟩] where
  toRow g := (g.start, g.rules, g.rounds, ())
  ofRow | (start, rules, rounds, ()) => ⟨start, rules, rounds⟩
  ofValues?_eq := by
    rintro (_ | ⟨a, _ | ⟨b, _ | ⟨c, _ | _⟩⟩⟩) <;> simp [Grammar.form]

instance : Storable Grammar := Grammar.spread.storable

/-- The fields of a shape. -/
def Shape.spread : Shape.form.Spread [⟨.required "angle", Float32⟩,
    ⟨.required "step_length", Float32⟩, ⟨.required "start_radius", Float32⟩,
    ⟨.required "end_radius", Float32⟩, ⟨.required "max_stack_depth", Nat⟩] where
  toRow s := (s.angle, s.stepLength, s.baseRadius, s.tipRadius, s.stackLimit, ())
  ofRow | (angle, step, base, tip, limit, ()) => ⟨angle, step, base, tip, limit⟩
  ofValues?_eq := by
    rintro (_ | ⟨a, _ | ⟨b, _ | ⟨c, _ | ⟨d, _ | ⟨e, _ | _⟩⟩⟩⟩⟩) <;> simp [Shape.form]

instance : Storable Shape := Shape.spread.storable

/-- The fields of a mesh style. -/
def MeshStyle.spread : MeshStyle.form.Spread [⟨.required "radial_segments", UInt32⟩,
    ⟨.required "min_segment_length", Float32⟩, ⟨.required "leaf_width", Float32⟩,
    ⟨.required "leaf_height", Float32⟩] where
  toRow s := (s.sides, s.minLength, s.leafWidth, s.leafHeight, ())
  ofRow | (sides, minLength, width, height, ()) => ⟨sides, minLength, width, height⟩
  ofValues?_eq := by
    rintro (_ | ⟨a, _ | ⟨b, _ | ⟨c, _ | ⟨d, _ | _⟩⟩⟩⟩) <;> simp [MeshStyle.form]

instance : Storable MeshStyle := MeshStyle.spread.storable

/-- The fields of a blueprint. -/
def Blueprint.spread : Blueprint.form.Spread [⟨.required "grammar", Grammar⟩,
    ⟨.required "turtle", Shape⟩] where
  toRow b := (b.grammar, b.shape, ())
  ofRow | (grammar, shape, ()) => ⟨grammar, shape⟩
  ofValues?_eq := by
    rintro (_ | ⟨a, _ | ⟨b, _ | _⟩⟩) <;> simp [Blueprint.form]

instance : Storable Blueprint := Blueprint.spread.storable

/-- The fields of a turtle. -/
def Turtle.spread : Turtle.form.Spread [⟨.required "position", Vec3⟩,
    ⟨.required "rotation", Quat⟩, ⟨.missable "last_segment", Option Nat⟩] where
  toRow t := (t.position, t.orientation, t.standsOn, ())
  ofRow | (position, orientation, standsOn, ()) => ⟨position, orientation, standsOn⟩
  ofValues?_eq := by
    rintro (_ | ⟨a, _ | ⟨b, _ | ⟨c, _ | _⟩⟩⟩) <;> simp [Turtle.form]

instance : Storable Turtle := Turtle.spread.storable

/-- The fields of a segment. -/
def Segment.spread : Segment.form.Spread [⟨.required "from", Vec3⟩, ⟨.required "to", Vec3⟩,
    ⟨.required "start_radius", Float32⟩, ⟨.required "end_radius", Float32⟩,
    ⟨.missable "parent", Option Nat⟩] where
  toRow s := (s.base, s.tip, s.baseRadius, s.tipRadius, s.parent, ())
  ofRow
    | (base, tip, baseRadius, tipRadius, parent, ()) => ⟨base, tip, baseRadius, tipRadius, parent⟩
  ofValues?_eq := by
    rintro (_ | ⟨a, _ | ⟨b, _ | ⟨c, _ | ⟨d, _ | ⟨e, _ | _⟩⟩⟩⟩⟩) <;> simp [Segment.form]

instance : Storable Segment := Segment.spread.storable

/-- The fields of a skeleton. -/
def Skeleton.spread : Skeleton.form.Spread [⟨.required "segments", Array Segment⟩,
    ⟨.required "unmatched_pops", Nat⟩, ⟨.required "residual_branches", Nat⟩] where
  toRow s := (s.segments, s.strays, s.unclosed, ())
  ofRow | (segments, strays, unclosed, ()) => ⟨segments, strays, unclosed⟩
  ofValues?_eq := by
    rintro (_ | ⟨a, _ | ⟨b, _ | ⟨c, _ | _⟩⟩⟩) <;> simp [Skeleton.form]

instance : Storable Skeleton := Skeleton.spread.storable

/-- The fields of mesh buffers. -/
def Buffers.spread : Buffers.form.Spread [⟨.required "positions", Array Vec3⟩,
    ⟨.required "normals", Array Vec3⟩, ⟨.required "uvs", Array TexCoord⟩,
    ⟨.required "indices", Array UInt32⟩] where
  toRow b := (b.positions, b.normals, b.uvs, b.indices, ())
  ofRow | (positions, normals, uvs, indices, ()) => ⟨positions, normals, uvs, indices⟩
  ofValues?_eq := by
    rintro (_ | ⟨a, _ | ⟨b, _ | ⟨c, _ | ⟨d, _ | _⟩⟩⟩⟩) <;> simp [Buffers.form]

instance : Storable Buffers := Buffers.spread.storable

/-- The fields of a leaf. -/
def Leaf.spread : Leaf.form.Spread [⟨.required "translation", Vec3⟩,
    ⟨.required "rotation", Quat⟩] where
  toRow l := (l.position, l.orientation, ())
  ofRow | (position, orientation, ()) => ⟨position, orientation⟩
  ofValues?_eq := by
    rintro (_ | ⟨a, _ | ⟨b, _ | _⟩⟩) <;> simp [Leaf.form]

instance : Storable Leaf := Leaf.spread.storable

/-- The fields of foliage. -/
def Foliage.spread : Foliage.form.Spread [⟨.required "quad", Buffers⟩,
    ⟨.required "instances", Array Leaf⟩] where
  toRow f := (f.quad, f.leaves, ())
  ofRow | (quad, leaves, ()) => ⟨quad, leaves⟩
  ofValues?_eq := by
    rintro (_ | ⟨a, _ | ⟨b, _ | _⟩⟩) <;> simp [Foliage.form]

instance : Storable Foliage := Foliage.spread.storable

/-- The fields of a tree mesh. -/
def TreeMesh.spread : TreeMesh.form.Spread [⟨.required "branches", Buffers⟩,
    ⟨.required "leaves", Foliage⟩] where
  toRow m := (m.branches, m.foliage, ())
  ofRow | (branches, foliage, ()) => ⟨branches, foliage⟩
  ofValues?_eq := by
    rintro (_ | ⟨a, _ | ⟨b, _ | _⟩⟩) <;> simp [TreeMesh.form]

instance : Storable TreeMesh := TreeMesh.spread.storable

/-! ## Faithful storage -/

/-- Everything that can be kept is stored faithfully. -/
theorem stored_faithfully :
    Faithful Grammar ∧ Faithful Shape ∧ Faithful MeshStyle ∧ Faithful Blueprint ∧
      Faithful Turtle ∧ Faithful Command ∧ Faithful Segment ∧ Faithful Skeleton ∧
      Faithful Buffers ∧ Faithful Leaf ∧ Faithful Foliage ∧ Faithful TreeMesh :=
  ⟨faithful, faithful, faithful, faithful, faithful, faithful, faithful, faithful, faithful,
    faithful, faithful, faithful⟩

/-- A short branch that stands on the ground. -/
def Segment.shoot : Segment := ⟨⟨0, 0, 0⟩, ⟨0, 1, 0⟩, 0.5, 0.25, none⟩

/-- The branch is read back, also from the list of its fields, and refused with a radius that
is not finite. -/
theorem stored_faithfully_shoot :
    decode (encode Segment.shoot) = some Segment.shoot ∧
      decode (.list (Segment.form.values Segment.shoot)) = some Segment.shoot ∧
      (decode (encode { Segment.shoot with tipRadius := 1 / 0 }) : Option Segment) = none := by
  obtain ⟨-, -, -, -, -, -, hsegment, -⟩ := stored_faithfully
  have hfinite : AllFinite Segment.shoot := by decide
  have hback := (hsegment.decode_encode_iff Segment.shoot).mpr hfinite
  refine ⟨hback, ?_, hsegment.decode_encode_eq_none _ (by decide)⟩
  exact (hsegment.decode_eq _ _ (.step (.positional rfl))).trans hback

example : schema Segment = .record [(.required "from", .list .number),
    (.required "to", .list .number), (.required "start_radius", .number),
    (.required "end_radius", .number), (.missable "parent", .plain)] := rfl

example (s : Segment) : numbers s =
    [s.base.x, s.base.y, s.base.z, s.tip.x, s.tip.y, s.tip.z, s.baseRadius, s.tipRadius] := rfl

example (position rotation : Datum) :
    (decode (.list [position, rotation, .null]) : Option Turtle) =
      decode (.record [("note", .text "by the gate"), ("rotation", rotation),
        ("position", position)]) := rfl

end Arbor
