import Arbor.Blueprint
import Arbor.Stored.Codec

/-!
# Stored trees

The stored forms of everything that can be kept: grammars and shapes, the
turtle, skeletons and meshes.  A structure is a record.  A point is a list of its
coordinates.  A rule table is a record with one symbol for each name.
-/

namespace Arbor

/-! ## Points -/

/-- The coordinates of a point. -/
def Vec3.coordinates (v : Vec3) : Vector Float32 3 := #v[v.x, v.y, v.z]

/-- The point with some coordinates. -/
def Vec3.ofCoordinates (xs : Vector Float32 3) : Vec3 := ⟨xs[0], xs[1], xs[2]⟩

instance : Codec Vec3 where
  encode v := encode v.coordinates
  decode d := (decode d).map Vec3.ofCoordinates

/-- The coordinates of a rotation. -/
def Quat.coordinates (q : Quat) : Vector Float32 4 := #v[q.x, q.y, q.z, q.w]

/-- The rotation with some coordinates. -/
def Quat.ofCoordinates (xs : Vector Float32 4) : Quat := ⟨xs[0], xs[1], xs[2], xs[3]⟩

instance : Codec Quat where
  encode q := encode q.coordinates
  decode d := (decode d).map Quat.ofCoordinates

/-- The coordinates of a point of a texture. -/
def TexCoord.coordinates (t : TexCoord) : Vector Float32 2 := #v[t.u, t.v]

/-- The point of a texture with some coordinates. -/
def TexCoord.ofCoordinates (xs : Vector Float32 2) : TexCoord := ⟨xs[0], xs[1]⟩

instance : Codec TexCoord where
  encode t := encode t.coordinates
  decode d := (decode d).map TexCoord.ofCoordinates

/-! ## Grammars -/

/-- The symbol that a name consists of, if it is only one. -/
def Rules.symbol? (name : String) : Option Char :=
  match name.toList with
  | [c] => some c
  | _ => none

/-- The rule that an entry of a stored rule table stands for. -/
def Rules.entry? (entry : String × Datum) : Option (Char × String) := do
  let symbol ← symbol? entry.1
  let replacement ← decode entry.2
  pure (symbol, replacement)

instance : Codec Rules where
  encode rules := .record (rules.toList.map fun (c, replacement) =>
    (String.singleton c, encode replacement))
  decode
    | .record entries => (entries.mapM Rules.entry?).map (Std.ExtTreeMap.ofList · compare)
    | _ => none

/-- How a grammar is stored. -/
def Grammar.form : RecordForm Grammar where
  fields := [.required "axiom", .required "rules", .required "iterations"]
  values g := [encode g.start, encode g.rules, encode g.rounds]
  ofValues?
    | [start, rules, rounds] => do
      pure ⟨← decode start, ← decode rules, ← decode rounds⟩
    | _ => none

instance : Codec Grammar := Grammar.form.codec

/-! ## Measures -/

/-- How a shape is stored. -/
def Shape.form : RecordForm Shape where
  fields := [.required "angle", .required "step_length", .required "start_radius",
    .required "end_radius", .required "max_stack_depth"]
  values s := [encode s.angle, encode s.stepLength, encode s.baseRadius, encode s.tipRadius,
    encode s.stackLimit]
  ofValues?
    | [angle, step, base, tip, limit] => do
      pure ⟨← decode angle, ← decode step, ← decode base, ← decode tip, ← decode limit⟩
    | _ => none

instance : Codec Shape := Shape.form.codec

/-- How a mesh style is stored. -/
def MeshStyle.form : RecordForm MeshStyle where
  fields := [.required "radial_segments", .required "min_segment_length", .required "leaf_width",
    .required "leaf_height"]
  values s := [encode s.sides, encode s.minLength, encode s.leafWidth, encode s.leafHeight]
  ofValues?
    | [sides, minLength, width, height] => do
      pure ⟨← decode sides, ← decode minLength, ← decode width, ← decode height⟩
    | _ => none

instance : Codec MeshStyle := MeshStyle.form.codec

/-- How a blueprint is stored. -/
def Blueprint.form : RecordForm Blueprint where
  fields := [.required "grammar", .required "turtle"]
  values b := [encode b.grammar, encode b.shape]
  ofValues?
    | [grammar, shape] => do pure ⟨← decode grammar, ← decode shape⟩
    | _ => none

instance : Codec Blueprint := Blueprint.form.codec

/-! ## The turtle and its commands -/

/-- How a turtle is stored. -/
def Turtle.form : RecordForm Turtle where
  fields := [.required "position", .required "rotation", .missable "last_segment"]
  values t := [encode t.position, encode t.orientation, encode t.standsOn]
  ofValues?
    | [position, orientation, standsOn] => do
      pure ⟨← decode position, ← decode orientation, ← decode standsOn⟩
    | _ => none

instance : Codec Turtle := Turtle.form.codec

namespace Command

/-- The command of a name that stands alone. -/
def named? : String → Option Command
  | "Draw" => some .draw
  | "Move" => some .move
  | "TurnAround" => some (.turn .about)
  | "Push" => some .push
  | "Pop" => some .pop
  | "Ignore" => some .ignore
  | _ => none

/-- The command of a name that goes with a factor. -/
def namedWith? (name : String) (factor : Float32) : Option Command :=
  match name with
  | "Yaw" => some (.turn (.yaw factor))
  | "Pitch" => some (.turn (.pitch factor))
  | "Roll" => some (.turn (.roll factor))
  | _ => none

end Command

/-- A command is stored as its name, or as a record of one entry from its name to
its factor.  A name that stands alone may also be given as a record, with nothing
in it. -/
instance : Codec Command where
  encode
    | .draw => .text "Draw"
    | .move => .text "Move"
    | .turn (.yaw factor) => .record [("Yaw", encode factor)]
    | .turn (.pitch factor) => .record [("Pitch", encode factor)]
    | .turn (.roll factor) => .record [("Roll", encode factor)]
    | .turn .about => .text "TurnAround"
    | .push => .text "Push"
    | .pop => .text "Pop"
    | .ignore => .text "Ignore"
  decode
    | .text name => Command.named? name
    | .record [(name, .null)] => Command.named? name
    | .record [(name, d)] => (decode d).bind (Command.namedWith? name)
    | _ => none

/-! ## Skeletons -/

/-- How a segment is stored. -/
def Segment.form : RecordForm Segment where
  fields := [.required "from", .required "to", .required "start_radius", .required "end_radius",
    .missable "parent"]
  values s := [encode s.base, encode s.tip, encode s.baseRadius, encode s.tipRadius,
    encode s.parent]
  ofValues?
    | [base, tip, baseRadius, tipRadius, parent] => do
      pure ⟨← decode base, ← decode tip, ← decode baseRadius, ← decode tipRadius,
        ← decode parent⟩
    | _ => none

instance : Codec Segment := Segment.form.codec

/-- How a skeleton is stored. -/
def Skeleton.form : RecordForm Skeleton where
  fields := [.required "segments", .required "unmatched_pops", .required "residual_branches"]
  values s := [encode s.segments, encode s.strays, encode s.unclosed]
  ofValues?
    | [segments, strays, unclosed] => do
      pure ⟨← decode segments, ← decode strays, ← decode unclosed⟩
    | _ => none

instance : Codec Skeleton := Skeleton.form.codec

/-! ## Meshes -/

/-- How mesh buffers are stored. -/
def Buffers.form : RecordForm Buffers where
  fields := [.required "positions", .required "normals", .required "uvs", .required "indices"]
  values b := [encode b.positions, encode b.normals, encode b.uvs, encode b.indices]
  ofValues?
    | [positions, normals, uvs, indices] => do
      pure ⟨← decode positions, ← decode normals, ← decode uvs, ← decode indices⟩
    | _ => none

instance : Codec Buffers := Buffers.form.codec

/-- How a leaf is stored. -/
def Leaf.form : RecordForm Leaf where
  fields := [.required "translation", .required "rotation"]
  values l := [encode l.position, encode l.orientation]
  ofValues?
    | [position, orientation] => do pure ⟨← decode position, ← decode orientation⟩
    | _ => none

instance : Codec Leaf := Leaf.form.codec

/-- How foliage is stored. -/
def Foliage.form : RecordForm Foliage where
  fields := [.required "quad", .required "instances"]
  values f := [encode f.quad, encode f.leaves]
  ofValues?
    | [quad, leaves] => do pure ⟨← decode quad, ← decode leaves⟩
    | _ => none

instance : Codec Foliage := Foliage.form.codec

/-- How a tree mesh is stored. -/
def TreeMesh.form : RecordForm TreeMesh where
  fields := [.required "branches", .required "leaves"]
  values m := [encode m.branches, encode m.foliage]
  ofValues?
    | [branches, foliage] => do pure ⟨← decode branches, ← decode foliage⟩
    | _ => none

instance : Codec TreeMesh := TreeMesh.form.codec

end Arbor
