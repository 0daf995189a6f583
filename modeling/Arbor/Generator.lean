import Arbor.Blueprint

/-!
# Generators

A generator owns the tree that is on display.  It holds at most one mesh, and
only a finished one.

* A regeneration that is refused changes nothing.
* One that succeeds finishes the new mesh, then releases the one on display, then
  puts the new one in its place.
* Clearing releases the mesh on display and leaves the place empty.

A released mesh goes to the owner, if the owner wants it, so that what was set
up to draw it can be freed.
-/

namespace Arbor

/-- The owner of the tree on display. -/
structure Generator where
  /-- How its trees are drawn. -/
  style : MeshStyle
  /-- Its random source. -/
  rng : Rng
  /-- The mesh on display. -/
  current : Option TreeMesh
  /-- Whether released meshes are handed out. -/
  handsOut : Bool
  deriving DecidableEq, Repr, Inhabited

/-- What a generator can be asked for. -/
inductive Request
  /-- A new tree in place of the one on display. -/
  | regenerate (blueprint : Blueprint)
  /-- An empty display. -/
  | clear
  /-- A look at the display. -/
  | current
  deriving DecidableEq, Inhabited

/-- What a generator answers. -/
inductive Answer
  /-- The mesh now on display, or why it was not made. -/
  | regenerated (tree : Except Fault TreeMesh)
  /-- The display is empty. -/
  | cleared
  /-- The mesh on display, if there is one. -/
  | displayed (mesh : Option TreeMesh)
  deriving Inhabited

/-- The answer to a request, the meshes handed out meanwhile, and the generator
afterwards. -/
structure Served where
  /-- The answer. -/
  answer : Answer
  /-- The meshes handed out, in order. -/
  released : List TreeMesh
  /-- The generator afterwards. -/
  generator : Generator
  deriving Inhabited

namespace Generator

/-- A generator with an empty display, unless the style is refused. -/
def new (style : MeshStyle) (rng : Rng) (handsOut : Bool) : Except Fault Generator := do
  style.check
  pure ⟨style, rng, none, handsOut⟩

/-- Empties the display and gives the meshes handed out.  The release of a mesh is
reported whether or not it is handed out. -/
def release (g : Generator) : Logged (List TreeMesh × Generator) :=
  match g.current with
  | none => pure ([], g)
  | some mesh => do
    Logged.report (.released mesh.branches.vertexCount mesh.foliage.size)
    pure (if g.handsOut then [mesh] else [], { g with current := none })

/-- Serves a request for a new tree. -/
def regenerate (g : Generator) (b : Blueprint) : Logged Served := do
  match ← b.grow g.style g.rng with
  | (.error fault, rng) => pure ⟨.regenerated (.error fault), [], { g with rng := rng }⟩
  | (.ok mesh, rng) =>
    let (released, g) ← { g with rng := rng }.release
    pure ⟨.regenerated (.ok mesh), released, { g with current := some mesh }⟩

/-- Serves a request for an empty display. -/
def clear (g : Generator) : Logged Served := do
  let (released, g) ← g.release
  pure ⟨.cleared, released, g⟩

/-- Serves a request. -/
def serve (g : Generator) : Request → Logged Served
  | .regenerate b => g.regenerate b
  | .clear => g.clear
  | .current => pure ⟨.displayed g.current, [], g⟩

/-- Serves requests in order and gives what happened at each. -/
def run (g : Generator) : List Request → Logged (List Served)
  | [] => pure []
  | request :: requests => do
    let served ← g.serve request
    let rest ← served.generator.run requests
    pure (served :: rest)

end Generator

end Arbor
