import Arbor.Event
import Arbor.Shape
import Arbor.Skeleton
import Arbor.Taper

/-!
# The walk

The turtle reads a command list from the front and leaves strokes behind.

* A drawing step leaves a stroke, linked to the stroke the turtle stood on.
* A moving step leaves nothing, and the turtle stands on nothing afterwards.
* `[` saves the turtle.  With the stack at its limit the push is dropped, with a
  warning.
* `]` closes the bracket opened last: a dropped push is forgotten, a saved turtle
  comes back.  With nothing open it is stray, with a warning.

The taper has no part in a walk.  `Shape.interpret` lays it over the strokes at
the end.  `Walk.run_append` says that a walk can be taken up where another one
ended.
-/

namespace Arbor

/-- A segment without its radii. -/
structure Stroke where
  /-- The end towards the root. -/
  base : Vec3
  /-- The end towards the tip. -/
  tip : Vec3
  /-- The stroke on whose tip this one starts. -/
  parent : Option Nat
  deriving DecidableEq, Repr, Inhabited

/-- A stroke with radii. -/
def Stroke.thicken (s : Stroke) (radii : Float32 × Float32) : Segment :=
  ⟨s.base, s.tip, radii.1, radii.2, s.parent⟩

/-- The state of a walk. -/
structure Walk where
  /-- The turtle. -/
  turtle : Turtle
  /-- The turtles of the open branches, the innermost first. -/
  saved : List Turtle
  /-- How many pushes were dropped and not closed since. -/
  dropped : Nat
  /-- The strokes drawn. -/
  strokes : Array Stroke
  /-- How many `]` were stray. -/
  strays : Nat
  /-- The warnings given. -/
  warnings : Array Event
  /-- How many commands were read. -/
  position : Nat
  deriving DecidableEq, Repr

namespace Walk

/-- The state before the first command. -/
def start : Walk := ⟨.start, [], 0, #[], 0, #[], 0⟩

instance : Inhabited Walk := ⟨start⟩

/-! ## Single commands -/

/-- A step that leaves a stroke. -/
def draw (step : Float32) (w : Walk) : Walk :=
  let there := w.turtle.advance step
  { w with
    turtle := { there with standsOn := some w.strokes.size }
    strokes := w.strokes.push ⟨w.turtle.position, there.position, w.turtle.standsOn⟩ }

/-- A step that leaves nothing. -/
def move (step : Float32) (w : Walk) : Walk :=
  { w with turtle := { w.turtle.advance step with standsOn := none } }

/-- A turn on the spot. -/
def turn (angle : Float32) (t : Turn) (w : Walk) : Walk :=
  { w with turtle := t.apply angle w.turtle }

/-- Opens a branch. -/
def push (limit : Nat) (w : Walk) : Walk :=
  if w.saved.length < limit then { w with saved := w.turtle :: w.saved }
  else
    { w with
      dropped := w.dropped + 1
      warnings := w.warnings.push (.pushDropped limit w.position) }

/-- Closes a branch. -/
def pop (w : Walk) : Walk :=
  match w.dropped, w.saved with
  | dropped + 1, _ => { w with dropped := dropped }
  | 0, turtle :: saved => { w with turtle := turtle, saved := saved }
  | 0, [] =>
    { w with strays := w.strays + 1, warnings := w.warnings.push (.popUnderflow w.position) }

theorem push_of_room {limit : Nat} {w : Walk} (h : w.saved.length < limit) :
    w.push limit = { w with saved := w.turtle :: w.saved } := if_pos h

theorem push_of_full {limit : Nat} {w : Walk} (h : ¬ w.saved.length < limit) :
    w.push limit = { w with
      dropped := w.dropped + 1
      warnings := w.warnings.push (.pushDropped limit w.position) } := if_neg h

theorem pop_of_dropped {w : Walk} {dropped : Nat} (h : w.dropped = dropped + 1) :
    w.pop = { w with dropped := dropped } := by
  rw [pop, h]

theorem pop_of_cons {w : Walk} {turtle : Turtle} {saved : List Turtle} (h : w.dropped = 0)
    (hs : w.saved = turtle :: saved) :
    w.pop = { w with turtle := turtle, saved := saved } := by
  rw [pop, h, hs]

theorem pop_of_nil {w : Walk} (h : w.dropped = 0) (hs : w.saved = []) :
    w.pop = { w with
      strays := w.strays + 1, warnings := w.warnings.push (.popUnderflow w.position) } := by
  rw [pop, h, hs]

@[simp] theorem strokes_push (limit : Nat) (w : Walk) : (w.push limit).strokes = w.strokes := by
  unfold push
  split <;> rfl

@[simp] theorem strokes_pop (w : Walk) : w.pop.strokes = w.strokes := by
  unfold pop
  split <;> rfl

/-- What one command does to everything but the position. -/
def obey (shape : Shape) (w : Walk) : Command → Walk
  | .draw => w.draw shape.stepLength
  | .move => w.move shape.stepLength
  | .turn t => w.turn shape.angle t
  | .push => w.push shape.stackLimit
  | .pop => w.pop
  | .ignore => w

/-! ## Whole walks -/

/-- Reads one command. -/
def step (shape : Shape) (w : Walk) (c : Command) : Walk :=
  let w := w.obey shape c
  { w with position := w.position + 1 }

/-- Reads a command list from some state on. -/
def run (shape : Shape) (cs : List Command) (w : Walk) : Walk := cs.foldl (step shape) w

@[simp] theorem run_nil (shape : Shape) (w : Walk) : w.run shape [] = w := rfl

@[simp] theorem run_cons (shape : Shape) (c : Command) (cs : List Command) (w : Walk) :
    w.run shape (c :: cs) = (w.step shape c).run shape cs := rfl

theorem run_append (shape : Shape) (cs ds : List Command) (w : Walk) :
    w.run shape (cs ++ ds) = (w.run shape cs).run shape ds :=
  List.foldl_append

/-- How many branches are open. -/
def unclosed (w : Walk) : Nat := w.saved.length + w.dropped

/-- The skeleton that a walk leaves, tapered. -/
def skeleton (shape : Shape) (taper : Taper) (w : Walk) : Skeleton where
  segments := w.strokes.mapIdx fun i s =>
    s.thicken (taper.radii i shape.baseRadius shape.tipRadius)
  strays := w.strays
  unclosed := w.unclosed

end Walk

@[simp] theorem Walk.size_skeleton (shape : Shape) (taper : Taper) (w : Walk) :
    (w.skeleton shape taper).segments.size = w.strokes.size := by
  simp [Walk.skeleton]

/-- The skeleton of a command list. -/
def Shape.skeleton (shape : Shape) (cs : List Command) : Skeleton :=
  (Walk.start.run shape cs).skeleton shape (Taper.ofCommands cs)

/-- The skeleton of a command string, with the warnings of the walk and a report
of its size. -/
def Shape.interpret (shape : Shape) (commands : String) : Logged Skeleton :=
  let cs := Command.ofText commands
  let walk := Walk.start.run shape cs
  let skeleton := walk.skeleton shape (Taper.ofCommands cs)
  ⟨skeleton, walk.warnings.toList ++
    [.interpreted commands.utf8ByteSize skeleton.segments.size walk.strays walk.unclosed]⟩

@[simp] theorem Shape.value_interpret (shape : Shape) (commands : String) :
    (shape.interpret commands).value = shape.skeleton (Command.ofText commands) := rfl

end Arbor
