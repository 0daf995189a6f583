import Arbor.Generator

/-!
# Requests

What a generator does with one request, and what is left of a list of them.

*One request.*  A blueprint that is refused is answered with its fault, and that is
all that happens (`Generator.regenerate_of_refused`).  One that is accepted is grown,
the mesh on display goes out, and the new one takes its place
(`Generator.value_regenerate_of_accepted`).  `Generator.Outcome` lists what can happen at
any request.

*Many requests.*  A run gives one entry for each request, in order, and the generator
after it is the one in its last entry (`Generator.after`).  The first entries of a run
are the run of the first requests (`Generator.take_run`).
-/

namespace Arbor

namespace Blueprint

variable {σ : Type} [RandomSource σ] {b : Blueprint} {fault : Fault}

/-- A single branch of one step. -/
def twig : Blueprint := ⟨⟨"F", ∅, 0⟩, .slender⟩

/-- A blueprint whose steps go nowhere, which is refused. -/
def stuck : Blueprint := ⟨⟨"F", ∅, 0⟩, { Shape.slender with stepLength := 0 }⟩

theorem grow_of_refused (h : b.check = .error fault) (style : MeshStyle) (rng : σ) :
    b.grow style rng = pure (.error fault, rng) := by
  rw [grow, h]

theorem value_grow_of_accepted (h : b.check = .ok ()) (style : MeshStyle) (rng : σ) :
    (b.grow style rng).value =
      (.ok (b.build style rng).value.1, (b.build style rng).value.2) := by
  rw [grow, h]
  -- The tree itself must not be unfolded.
  generalize b.build style rng = built
  rfl

/-- A blueprint grows no tree if it is refused, and only then. -/
theorem grow_eq_error_iff (style : MeshStyle) (rng : σ) :
    (b.grow style rng).value.1 = .error fault ↔ b.check = .error fault := by
  cases h : b.check with
  | error other =>
    rw [grow_of_refused h, Logged.value_pure, Except.error.injEq, Except.error.injEq]
  | ok _ =>
    rw [value_grow_of_accepted h]
    constructor
    · intro hgrow
      cases hgrow
    · intro hcheck
      cases hcheck

end Blueprint

/-- Requests of all kinds.  The second one is refused. -/
def Request.mixed : List Request :=
  [.regenerate .twig, .regenerate .stuck, .regenerate .twig, .current, .clear, .clear, .current]

namespace Generator

variable {b : Blueprint} {fault : Fault}

/-! ## One request -/

theorem new_of_refused {style : MeshStyle} (h : style.check = .error fault) (rng : Rng)
    (handsOut : Bool) : new style rng handsOut = .error fault := by
  rw [new, h]
  rfl

theorem new_of_accepted {style : MeshStyle} (h : style.check = .ok ()) (rng : Rng)
    (handsOut : Bool) : new style rng handsOut = .ok ⟨style, rng, none, handsOut⟩ := by
  rw [new, h]
  rfl

/-- Only a style in order gives a generator, and its display is empty. -/
theorem eq_of_new {style : MeshStyle} {rng : Rng} {handsOut : Bool} {g : Generator}
    (h : new style rng handsOut = .ok g) : g = ⟨style, rng, none, handsOut⟩ := by
  cases hcheck : style.check with
  | error other =>
    rw [new_of_refused hcheck] at h
    cases h
  | ok _ =>
    rw [new_of_accepted hcheck] at h
    cases h
    rfl

/-- The meshes that go out when the display is emptied. -/
def outgoing (g : Generator) : List TreeMesh := if g.handsOut then g.current.toList else []

theorem value_release (g : Generator) :
    g.release.value = (g.outgoing, { g with current := none }) := by
  obtain ⟨style, rng, current, handsOut⟩ := g
  cases current with
  | none => simp [release, outgoing]
  | some mesh => simp [release, outgoing]

/-- A request that is refused is answered and does nothing else, not even report. -/
theorem regenerate_of_refused (h : b.check = .error fault) (g : Generator) :
    g.regenerate b = pure ⟨.regenerated (.error fault), [], g⟩ := by
  rw [regenerate, Blueprint.grow_of_refused h]
  rfl

theorem value_regenerate_of_accepted (h : b.check = .ok ()) (g : Generator) :
    (g.regenerate b).value =
      ⟨.regenerated (.ok (b.build g.style g.rng).value.1), g.outgoing,
        { g with
          rng := (b.build g.style g.rng).value.2
          current := some (b.build g.style g.rng).value.1 }⟩ := by
  rw [regenerate, Logged.value_bind, Blueprint.value_grow_of_accepted h]
  generalize (b.build g.style g.rng).value = built
  simp only [Logged.value_bind, value_release]
  rfl

theorem value_clear (g : Generator) :
    g.clear.value = ⟨.cleared, g.outgoing, { g with current := none }⟩ := by
  simp only [clear, Logged.value_bind, value_release]
  rfl

/-- What can happen at a request. -/
inductive Outcome (g : Generator) : Request → Served → Prop
  /-- A blueprint is refused, and nothing else happens. -/
  | refused {b : Blueprint} {fault : Fault} (hcheck : b.check = .error fault) :
    Outcome g (.regenerate b) ⟨.regenerated (.error fault), [], g⟩
  /-- A tree takes the place of the mesh on display. -/
  | grown {b : Blueprint} {mesh : TreeMesh} {rng : Rng} (hcheck : b.check = .ok ())
    (hbuild : (b.build g.style g.rng).value = (mesh, rng)) :
    Outcome g (.regenerate b)
      ⟨.regenerated (.ok mesh), g.outgoing, { g with rng := rng, current := some mesh }⟩
  /-- The display is emptied. -/
  | cleared : Outcome g .clear ⟨.cleared, g.outgoing, { g with current := none }⟩
  /-- The display is looked at. -/
  | looked : Outcome g .current ⟨.displayed g.current, [], g⟩

theorem outcome_serve (g : Generator) (request : Request) :
    g.Outcome request (g.serve request).value := by
  cases request with
  | regenerate b =>
    rw [serve]
    cases hcheck : b.check with
    | error fault =>
      rw [regenerate_of_refused hcheck, Logged.value_pure]
      exact .refused hcheck
    | ok _ =>
      rw [value_regenerate_of_accepted hcheck]
      generalize hbuild : (b.build g.style g.rng).value = built
      exact .grown hcheck hbuild
  | clear =>
    rw [serve, value_clear]
    exact .cleared
  | current => exact .looked

/-- No request changes the style of a generator, or whether its meshes are handed out. -/
theorem Outcome.keeps {g : Generator} {request : Request} {served : Served}
    (h : g.Outcome request served) :
    served.generator.style = g.style ∧ served.generator.handsOut = g.handsOut := by
  cases h with
  | refused _ => exact ⟨rfl, rfl⟩
  | grown _ _ => exact ⟨rfl, rfl⟩
  | cleared => exact ⟨rfl, rfl⟩
  | looked => exact ⟨rfl, rfl⟩

/-! ## Many requests -/

/-- The generator after what has happened to it. -/
def after (g : Generator) : List Served → Generator
  | [] => g
  | served :: history => served.generator.after history

@[simp] theorem after_nil (g : Generator) : g.after [] = g := rfl

@[simp] theorem after_cons (g : Generator) (served : Served) (history : List Served) :
    g.after (served :: history) = served.generator.after history := rfl

@[simp] theorem value_run_nil (g : Generator) : (g.run []).value = [] := rfl

@[simp] theorem value_run_cons (g : Generator) (request : Request) (requests : List Request) :
    (g.run (request :: requests)).value =
      (g.serve request).value :: ((g.serve request).value.generator.run requests).value := rfl

/-- The first entries of a run do not depend on later requests. -/
theorem take_run (g : Generator) (requests : List Request) (k : Nat) :
    (g.run requests).value.take k = (g.run (requests.take k)).value := by
  induction requests generalizing g k with
  | nil => simp
  | cons request requests ih =>
    cases k with
    | zero => rfl
    | succ k => simp [ih]

/-- A request is served by the generator that the requests before it have left. -/
theorem getElem?_run (g : Generator) {requests : List Request} {k : Nat} {request : Request}
    (h : requests[k]? = some request) :
    (g.run requests).value[k]? =
      some ((g.after ((g.run requests).value.take k)).serve request).value := by
  induction requests generalizing g k with
  | nil => cases h
  | cons first requests ih =>
    cases k with
    | zero =>
      cases h
      rfl
    | succ k => exact ih _ h

end Generator

end Arbor
