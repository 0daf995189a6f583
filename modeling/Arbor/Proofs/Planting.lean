import Arbor.Proofs.Requests

/-!
# Planting

A generator makes the trees that are planted one after the other with its style from
its random source, and its source is then where theirs is.

Both ways grow a blueprint (`Blueprint.plant_of_accepted`), so what is to be kept is
that the two sources are at the same place.  Clearing and looking leave the source
alone (`Generator.Outcome.other`), and a regeneration takes it to where growing its
blueprint does, also when the blueprint is refused
(`Generator.Outcome.regenerate`).  `Generator.run_trees` follows a whole run.

A style that is refused makes no generator, and plants nothing.
-/

namespace Arbor

namespace Blueprint

variable {σ : Type} [RandomSource σ] {style : MeshStyle}

theorem plant_of_refused {fault : Fault} (h : style.check = .error fault) (b : Blueprint)
    (rng : σ) : b.plant style rng = pure (.error fault, rng) := by
  rw [plant, h]

theorem plant_of_accepted (h : style.check = .ok ()) (b : Blueprint) (rng : σ) :
    b.plant style rng = b.grow style rng := by
  rw [plant, h]

theorem value_plantAll_cons (b : Blueprint) (style : MeshStyle)
    (requests : List (Blueprint × MeshStyle)) (rng : σ) :
    (plantAll ((b, style) :: requests) rng).value =
      ((b.plant style rng).value.1 :: (plantAll requests (b.plant style rng).value.2).value.1,
        (plantAll requests (b.plant style rng).value.2).value.2) := by
  rw [plantAll, Logged.value_bind]
  generalize (b.plant style rng).value = tree
  rfl

end Blueprint

/-- The blueprint of a request for a new tree. -/
def Request.blueprint? : Request → Option Blueprint
  | .regenerate b => some b
  | .clear => none
  | .current => none

theorem Request.eq_regenerate {request : Request} {b : Blueprint}
    (h : request.blueprint? = some b) : request = .regenerate b := by
  cases request with
  | regenerate b' =>
    cases h
    rfl
  | clear => cases h
  | current => cases h

/-- The tree of a request for a new tree, or why there is none. -/
def Served.tree? (s : Served) : Option (Except Fault TreeMesh) :=
  match s.answer with
  | .regenerated tree => some tree
  | .cleared => none
  | .displayed _ => none

namespace Generator

/-- A regeneration grows its blueprint. -/
theorem Outcome.regenerate {g : Generator} {b : Blueprint} {served : Served}
    (h : g.Outcome (.regenerate b) served) :
    served.tree? = some (b.grow g.style g.rng).value.1 ∧
      served.generator.rng = (b.grow g.style g.rng).value.2 := by
  cases h with
  | refused hcheck =>
    rw [Blueprint.grow_of_refused hcheck]
    exact ⟨rfl, rfl⟩
  | grown hcheck hbuild =>
    rw [Blueprint.value_grow_of_accepted hcheck, hbuild]
    exact ⟨rfl, rfl⟩

/-- Any other request leaves the random source where it is. -/
theorem Outcome.other {g : Generator} {request : Request} {served : Served}
    (h : g.Outcome request served) (hother : request.blueprint? = none) :
    served.tree? = none ∧ served.generator.rng = g.rng := by
  cases h with
  | refused _ => cases hother
  | grown _ _ => cases hother
  | cleared => exact ⟨rfl, rfl⟩
  | looked => exact ⟨rfl, rfl⟩

/-- The trees of a run are those planted with its blueprints, and so is the random
source after it. -/
theorem run_trees {g : Generator} (h : g.style.check = .ok ()) (requests : List Request) :
    (Blueprint.plantAll ((requests.filterMap Request.blueprint?).map (·, g.style)) g.rng).value =
      ((g.run requests).value.filterMap Served.tree?, (g.after (g.run requests).value).rng) := by
  induction requests generalizing g with
  | nil => rfl
  | cons request requests ih =>
    have houtcome := g.outcome_serve request
    rw [value_run_cons, after_cons]
    generalize (g.serve request).value = served at houtcome
    have hstyle := houtcome.keeps.1
    have hrest := ih (hstyle ▸ h)
    rw [hstyle] at hrest
    cases hb : request.blueprint? with
    | none =>
      obtain ⟨htree, hrng⟩ := houtcome.other hb
      rw [hrng] at hrest
      rw [List.filterMap_cons_none hb, List.filterMap_cons_none htree, hrest]
    | some b =>
      obtain rfl := Request.eq_regenerate hb
      obtain ⟨htree, hrng⟩ := houtcome.regenerate
      rw [hrng] at hrest
      rw [List.filterMap_cons_some hb, List.filterMap_cons_some htree, List.map_cons,
        Blueprint.value_plantAll_cons, Blueprint.plant_of_accepted h, hrest]

end Generator

/-- With a style in order a generator answers its requests for trees as they are
answered one by one from one random source, and the source is then at the same place.
So requests that only clear or look change no tree.  With any other style there is no
generator, for the reason for which no blueprint can be planted from any source. -/
theorem regenerate_agrees_with_plant (style : MeshStyle) (seed : UInt64) (handsOut : Bool) :
    (style.check = .ok () →
      ∃ g, Generator.new style (.ofSeed seed) handsOut = .ok g ∧
        (∀ requests : List Request,
          let history := (g.run requests).value
          let blueprints := requests.filterMap Request.blueprint?
          let planted := (Blueprint.plantAll (blueprints.map (·, style)) (Rng.ofSeed seed)).value
          history.filterMap Served.tree? = planted.1 ∧ (g.after history).rng = planted.2) ∧
        ∀ requests others : List Request,
          requests.filterMap Request.blueprint? = others.filterMap Request.blueprint? →
          (g.run requests).value.filterMap Served.tree? =
            (g.run others).value.filterMap Served.tree?) ∧
    ∀ fault, style.check = .error fault →
      Generator.new style (.ofSeed seed) handsOut = .error fault ∧
        ∀ {σ : Type} [RandomSource σ] (b : Blueprint) (rng : σ),
          (b.plant style rng).value.1 = .error fault := by
  constructor
  · intro h
    have htrees : ∀ requests : List Request, _ :=
      Generator.run_trees (g := ⟨style, .ofSeed seed, none, handsOut⟩) h
    refine ⟨_, Generator.new_of_accepted h _ _, ?_, ?_⟩
    · intro requests history blueprints planted
      have hplanted : planted = _ := htrees requests
      rw [hplanted]
      exact ⟨rfl, rfl⟩
    · intro requests others hsame
      have hrequests := htrees requests
      rw [hsame, htrees others] at hrequests
      exact (congrArg Prod.fst hrequests).symm
  · intro fault h
    refine ⟨Generator.new_of_refused h _ _, fun b rng => ?_⟩
    rw [Blueprint.plant_of_refused h, Logged.value_pure]

/-- Between a refusal, two clears and two looks, two twigs are the ones planted. -/
theorem regenerate_agrees_with_plant_mixed :
    MeshStyle.octagonal.check = .ok () ∧
      (∃ g, Generator.new .octagonal (.ofSeed 7) false = .ok g ∧
        (g.run Request.mixed).value.filterMap Served.tree? =
          (Blueprint.plantAll [(.twig, .octagonal), (.stuck, .octagonal), (.twig, .octagonal)]
            (Rng.ofSeed 7)).value.1) ∧
      { MeshStyle.octagonal with sides := 2 }.check = .error (.tooFewSides 2) ∧
      Generator.new { MeshStyle.octagonal with sides := 2 } (.ofSeed 7) false =
        .error (.tooFewSides 2) ∧
      (Blueprint.twig.plant { MeshStyle.octagonal with sides := 2 } (Rng.ofSeed 7)).value.1 =
        .error (.tooFewSides 2) := by
  have haccepted : MeshStyle.octagonal.check = .ok () := rfl
  have hrefused : { MeshStyle.octagonal with sides := 2 }.check = .error (.tooFewSides 2) := rfl
  obtain ⟨g, hnew, hruns, -⟩ := (regenerate_agrees_with_plant .octagonal 7 false).1 haccepted
  obtain ⟨hnone, hplant⟩ := (regenerate_agrees_with_plant _ 7 false).2 _ hrefused
  exact ⟨haccepted, ⟨g, hnew, (hruns Request.mixed).1⟩, hrefused, hnone, hplant .twig _⟩

end Arbor
