import Arbor.Text.Quoted

/-!
# Log events

What the library reports while it works.  An event is a value with the facts it
reports; `Event.message` is its wording.  A computation that reports is a
`Logged` value: the result together with its events, the oldest first.
-/

namespace Arbor

/-- How urgent an event is. -/
inductive Level
  /-- Of interest to someone who follows the work. -/
  | debug
  /-- Something in the input was not used as written. -/
  | warn
  deriving DecidableEq, Repr, Inhabited

/-- The name of a level at the head of a log line. -/
def Level.name : Level → String
  | .debug => "DEBUG"
  | .warn => "WARN"

/-- A fact reported while a tree is made. -/
inductive Event
  /-- A start word was expanded over some rounds into a word of some bytes. -/
  | expanded (start : String) (rounds : UInt32) (bytes : Nat)
  /-- A `[` was read at a position with the stack at its limit. -/
  | pushDropped (limit : Nat) (position : Nat)
  /-- A `]` was read at a position with no branch open. -/
  | popUnderflow (position : Nat)
  /-- A command string of some bytes was read to its end. -/
  | interpreted (bytes : Nat) (segments : Nat) (strays : Nat) (unclosed : Nat)
  /-- A skeleton was turned into a mesh. -/
  | assembled (vertices : Nat) (triangles : Nat) (leaves : Nat) (skipped : Nat)
  /-- A mesh left the slot of a generator. -/
  | released (vertices : Nat) (leaves : Nat)
  deriving DecidableEq, Repr, Inhabited

namespace Event

/-- Only dropped brackets are warnings. -/
def level : Event → Level
  | .pushDropped .. => .warn
  | .popUnderflow .. => .warn
  | _ => .debug

/-- The wording of an event. -/
def message : Event → String
  | .expanded start rounds bytes =>
    "expanded axiom " ++ Text.quoted start ++ " over " ++ toString rounds.toNat
      ++ " iterations into " ++ toString bytes ++ " symbols"
  | .pushDropped limit position =>
    "branch stack limit of " ++ toString limit ++ " reached at symbol " ++ toString position
      ++ ", push dropped"
  | .popUnderflow position =>
    "branch stack underflow on ']' at symbol " ++ toString position
  | .interpreted bytes segments strays unclosed =>
    "interpreted " ++ toString bytes ++ " symbols into " ++ toString segments ++ " segments ("
      ++ toString strays ++ " unmatched ']', " ++ toString unclosed ++ " unclosed '[')"
  | .assembled vertices triangles leaves skipped =>
    "assembled " ++ toString vertices ++ " vertices, " ++ toString triangles ++ " triangles and "
      ++ toString leaves ++ " leaves (" ++ toString skipped ++ " degenerate segments skipped)"
  | .released vertices leaves =>
    "releasing tree mesh with " ++ toString vertices ++ " vertices and " ++ toString leaves
      ++ " leaves"

/-- An event as one line of a log. -/
def line (e : Event) : String := e.level.name ++ " " ++ e.message

end Event

/-! ## Computations that report -/

/-- A result with the events reported on the way to it. -/
structure Logged (α : Type) where
  /-- The result. -/
  value : α
  /-- The events, the oldest first. -/
  events : List Event
  deriving Repr, Inhabited

namespace Logged

/-- One event and no other result. -/
def report (e : Event) : Logged Unit := ⟨(), [e]⟩

instance : Monad Logged where
  pure a := ⟨a, []⟩
  bind x f := ⟨(f x.value).value, x.events ++ (f x.value).events⟩

@[simp] theorem value_pure {α : Type} (a : α) : (pure a : Logged α).value = a := rfl

@[simp] theorem events_pure {α : Type} (a : α) : (pure a : Logged α).events = [] := rfl

@[simp] theorem value_bind {α β : Type} (x : Logged α) (f : α → Logged β) :
    (x >>= f).value = (f x.value).value := rfl

@[simp] theorem events_bind {α β : Type} (x : Logged α) (f : α → Logged β) :
    (x >>= f).events = x.events ++ (f x.value).events := rfl

@[simp] theorem value_map {α β : Type} (f : α → β) (x : Logged α) :
    (f <$> x).value = f x.value := rfl

@[simp] theorem events_map {α β : Type} (f : α → β) (x : Logged α) :
    (f <$> x).events = x.events := by
  simp [Functor.map]

end Logged

end Arbor
