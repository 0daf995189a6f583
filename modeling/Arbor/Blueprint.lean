import Arbor.Grammar
import Arbor.Mesh.Tree
import Arbor.Walk

/-!
# Blueprints

A blueprint is a grammar and a shape: all that a request for a tree says about
the tree itself.  Growing it runs the whole way from start word to mesh.  The
numbers are checked first, so a refused request expands nothing and draws
nothing from the random source, whichever it is.
-/

namespace Arbor

/-- What tree to make. -/
structure Blueprint where
  /-- How its command string grows. -/
  grammar : Grammar
  /-- Its measures. -/
  shape : Shape
  deriving DecidableEq, Inhabited

namespace Blueprint

variable {σ : Type} [RandomSource σ]

/-- Only the measures can be refused.  Every grammar grows something. -/
def check (b : Blueprint) : Except Fault Unit := b.shape.check

/-- The tree of a blueprint whose measures are in order. -/
def build (b : Blueprint) (style : MeshStyle) (rng : σ) : Logged (TreeMesh × σ) := do
  let commands ← b.grammar.expand
  let skeleton ← b.shape.interpret commands
  style.assemble skeleton rng

/-- The tree of a blueprint in a style already checked, or why there is none. -/
def grow (b : Blueprint) (style : MeshStyle) (rng : σ) :
    Logged (Except Fault TreeMesh × σ) :=
  match b.check with
  | .error fault => pure (.error fault, rng)
  | .ok () => do
    let (mesh, rng) ← b.build style rng
    pure (.ok mesh, rng)

/-- The tree of a blueprint in a style, or why there is none.  The style is
checked before the blueprint. -/
def plant (b : Blueprint) (style : MeshStyle) (rng : σ) :
    Logged (Except Fault TreeMesh × σ) :=
  match style.check with
  | .error fault => pure (.error fault, rng)
  | .ok () => b.grow style rng

/-- The trees of a list of requests that share one random source. -/
def plantAll : List (Blueprint × MeshStyle) → σ → Logged (List (Except Fault TreeMesh) × σ)
  | [], rng => pure ([], rng)
  | (b, style) :: requests, rng => do
    let (tree, rng) ← b.plant style rng
    let (trees, rng) ← plantAll requests rng
    pure (tree :: trees, rng)

end Blueprint

end Arbor
