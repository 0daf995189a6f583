import Arbor.Proofs.Custody
import Arbor.Proofs.Leaves

/-!
# Chance

The random source turns leaves around their branches, and that is all that it does.

*Meshes.*  Two meshes are alike if they differ in how their leaves are turned and in
nothing else (`TreeMesh.Alike`).  One skeleton gives meshes that are alike, whatever the
random source is (`MeshStyle.alike_assemble`).

*Reports.*  Two computations that report are alike if their results are and their events
are the same (`Logged.Alike`).  This is kept when one is done after another, so it goes
from the mesh of a skeleton to a request (`Generator.Alike.serve`) and to a run
(`Generator.Alike.run`): nothing that is done later depends on how a leaf is turned.

`chance_only_turns_leaves` is the result, for two generators of one style.
-/

namespace Arbor

/-! ## Meshes -/

/-- Two meshes differ in how their leaves are turned and in nothing else. -/
structure TreeMesh.Alike (a b : TreeMesh) : Prop where
  /-- The branches are the same. -/
  branches : a.branches = b.branches
  /-- The leaves share the same rectangle. -/
  quad : a.foliage.quad = b.foliage.quad
  /-- There are as many leaves, and they are in the same places. -/
  positions : a.foliage.leaves.map Leaf.position = b.foliage.leaves.map Leaf.position

theorem TreeMesh.Alike.size_eq {a b : TreeMesh} (h : a.Alike b) :
    a.foliage.size = b.foliage.size := by
  have hsize := congrArg Array.size h.positions
  rwa [Array.size_map, Array.size_map] at hsize

/-- A tree is refused for the same reason, or the trees are alike. -/
inductive Fault.Alike : Except Fault TreeMesh → Except Fault TreeMesh → Prop
  /-- Both are refused. -/
  | refused (fault : Fault) : Alike (.error fault) (.error fault)
  /-- Both are grown. -/
  | grown {a b : TreeMesh} (h : a.Alike b) : Alike (.ok a) (.ok b)

/-! ## Reports -/

namespace Logged

variable {α β γ δ : Type}

/-- The results are related and the events are the same. -/
structure Alike (R : α → β → Prop) (x : Logged α) (y : Logged β) : Prop where
  /-- The results are related. -/
  value : R x.value y.value
  /-- The same is reported. -/
  events : x.events = y.events

theorem alike_self (x : Logged α) : Alike Eq x x := ⟨rfl, rfl⟩

theorem alike_pure {R : α → β → Prop} {a : α} {b : β} (h : R a b) : Alike R (pure a) (pure b) :=
  ⟨h, rfl⟩

/-- What is done after related results is alike if it is for all of them. -/
theorem Alike.bind {R : α → β → Prop} {S : γ → δ → Prop} {x : Logged α} {y : Logged β}
    {f : α → Logged γ} {g : β → Logged δ} (h : Alike R x y)
    (hrest : ∀ a b, R a b → Alike S (f a) (g b)) : Alike S (x >>= f) (y >>= g) := by
  have hvalue := hrest _ _ h.value
  refine ⟨hvalue.value, ?_⟩
  rw [events_bind, events_bind, h.events, hvalue.events]

/-- What is done after the same result is alike. -/
theorem alike_bind {S : γ → δ → Prop} (x : Logged α) {f : α → Logged γ} {g : α → Logged δ}
    (hrest : ∀ a, Alike S (f a) (g a)) : Alike S (x >>= f) (x >>= g) := by
  refine (alike_self x).bind fun a b h => ?_
  cases h
  exact hrest a

end Logged

/-! ## Trees -/

namespace MeshStyle

variable {σ τ : Type} [RandomSource σ] [RandomSource τ]

/-- Where a leaf is does not depend on its roll. -/
theorem positions_foliage (style : MeshStyle) {tips : List Segment} {rolls : List Float32}
    (h : rolls.length = tips.length) :
    (style.foliage tips rolls).leaves.map Leaf.position =
      (tips.map fun s => (s.tip + s.direction * (style.leafHeight / 2) : Vec3)).toArray := by
  show (List.zipWith style.leaf tips rolls).toArray.map Leaf.position = _
  rw [List.map_toArray]
  congr 1
  induction tips generalizing rolls with
  | nil => rfl
  | cons tip tips ih =>
    cases rolls with
    | nil => cases h
    | cons roll rolls => exact congrArg _ (ih (Nat.succ.inj h))

theorem isEmpty_foliage (style : MeshStyle) {tips : List Segment} {rolls : List Float32}
    (h : rolls.length = tips.length) : (style.foliage tips rolls).isEmpty = tips.isEmpty := by
  show (List.zipWith style.leaf tips rolls).toArray.isEmpty = _
  cases tips with
  | nil => rfl
  | cons tip tips =>
    cases rolls with
    | nil => cases h
    | cons roll rolls => rfl

theorem length_rolls_tips (s : Skeleton) (rng : σ) :
    (RandomSource.rolls s.leafCount rng).1.length = s.tips.length := by
  rw [RandomSource.length_rolls, s.length_tips]

/-- The report counts branches and leaves. -/
theorem events_assemble (style : MeshStyle) (s : Skeleton) (rng : σ) :
    (style.assemble s rng).events =
      let mesh := (style.assemble s rng).value.1
      if s.isEmpty then [] else
        [.assembled mesh.branches.vertexCount mesh.branches.triangleCount mesh.foliage.size
          (s.segments.toList.countP style.skips)] := rfl

/-- One skeleton gives meshes that are alike, from whatever sources. -/
theorem alike_assemble (style : MeshStyle) (s : Skeleton) (rng : σ) (rng' : τ) :
    Logged.Alike (fun a b => a.1.Alike b.1) (style.assemble s rng) (style.assemble s rng') := by
  have hmesh : (style.assemble s rng).value.1.Alike (style.assemble s rng').value.1 := by
    rw [value_assemble, value_assemble]
    refine ⟨rfl, ?_, ?_⟩
    · simp only [quad_foliage, isEmpty_foliage, length_rolls_tips]
    · show (style.foliage s.tips _).leaves.map _ = (style.foliage s.tips _).leaves.map _
      rw [positions_foliage style (length_rolls_tips s rng),
        positions_foliage style (length_rolls_tips s rng')]
  refine ⟨hmesh, ?_⟩
  simp only [events_assemble, hmesh.branches, hmesh.size_eq]

end MeshStyle

namespace Blueprint

variable {σ τ : Type} [RandomSource σ] [RandomSource τ]

theorem alike_build (b : Blueprint) (style : MeshStyle) (rng : σ) (rng' : τ) :
    Logged.Alike (fun x y => x.1.Alike y.1) (b.build style rng) (b.build style rng') :=
  Logged.alike_bind _ fun _ => Logged.alike_bind _ fun s => style.alike_assemble s rng rng'

/-- Whether a blueprint is refused has nothing to do with the random source. -/
theorem alike_grow (b : Blueprint) (style : MeshStyle) (rng : σ) (rng' : τ) :
    Logged.Alike (fun x y => Fault.Alike x.1 y.1) (b.grow style rng) (b.grow style rng') := by
  cases h : b.check with
  | error fault =>
    rw [grow_of_refused h, grow_of_refused h]
    exact Logged.alike_pure (.refused fault)
  | ok _ =>
    rw [grow, grow, h]
    exact (b.alike_build style rng rng').bind fun _ _ hmesh => Logged.alike_pure (.grown hmesh)

end Blueprint

/-! ## Requests -/

/-- Two generators differ in their random sources, and in how leaves on display are
turned. -/
structure Generator.Alike (g g' : Generator) : Prop where
  /-- They draw in the same style. -/
  style : g.style = g'.style
  /-- Both hand out their meshes or neither does. -/
  handsOut : g.handsOut = g'.handsOut
  /-- Both displays are empty, or what is on them is alike. -/
  current : Option.Rel TreeMesh.Alike g.current g'.current

/-- Two answers differ in how leaves are turned. -/
inductive Answer.Alike : Answer → Answer → Prop
  /-- Both are refused or both are given a tree. -/
  | regenerated {tree tree' : Except Fault TreeMesh} (h : Fault.Alike tree tree') :
    Alike (.regenerated tree) (.regenerated tree')
  /-- Both displays are empty. -/
  | cleared : Alike .cleared .cleared
  /-- The displays are alike. -/
  | displayed {mesh mesh' : Option TreeMesh} (h : Option.Rel TreeMesh.Alike mesh mesh') :
    Alike (.displayed mesh) (.displayed mesh')

/-- Two requests were served alike. -/
structure Served.Alike (s s' : Served) : Prop where
  /-- The answers are alike. -/
  answer : s.answer.Alike s'.answer
  /-- The same number of meshes went out, and they are alike. -/
  released : List.Forall₂ TreeMesh.Alike s.released s'.released
  /-- The generators are alike afterwards. -/
  generator : s.generator.Alike s'.generator

namespace Generator

variable {g g' : Generator}

theorem Alike.release (h : g.Alike g') :
    Logged.Alike (fun x y => List.Forall₂ TreeMesh.Alike x.1 y.1 ∧ x.2.Alike y.2)
      g.release g'.release := by
  obtain ⟨style, rng, current, handsOut⟩ := g
  obtain ⟨style', rng', current', handsOut'⟩ := g'
  obtain ⟨rfl, rfl, hcurrent⟩ := h
  cases hcurrent with
  | none => exact Logged.alike_pure ⟨.nil, rfl, rfl, .none⟩
  | some hmesh =>
    refine ⟨⟨?_, rfl, rfl, .none⟩, ?_⟩
    · cases handsOut with
      | false => exact .nil
      | true => exact .cons hmesh .nil
    · show [Event.released ..] ++ [] = [Event.released ..] ++ []
      rw [hmesh.branches, hmesh.size_eq]

theorem Alike.regenerate (h : g.Alike g') (b : Blueprint) :
    Logged.Alike Served.Alike (g.regenerate b) (g'.regenerate b) := by
  obtain ⟨style, rng, current, handsOut⟩ := g
  obtain ⟨style', rng', current', handsOut'⟩ := g'
  obtain ⟨rfl, rfl, hcurrent⟩ := h
  -- The sources differ from here on, and nothing below looks at them.
  refine (b.alike_grow style rng rng').bind ?_
  rintro ⟨_, rng⟩ ⟨_, rng'⟩ (fault | hmesh)
  · exact Logged.alike_pure ⟨.regenerated (.refused fault), .nil, rfl, rfl, hcurrent⟩
  · have hrelease : Generator.Alike ⟨style, rng, current, handsOut⟩
        ⟨style, rng', current', handsOut⟩ := ⟨rfl, rfl, hcurrent⟩
    refine hrelease.release.bind ?_
    rintro ⟨_, _⟩ ⟨_, _⟩ ⟨hout, hkept⟩
    exact Logged.alike_pure
      ⟨.regenerated (.grown hmesh), hout, hkept.style, hkept.handsOut, .some hmesh⟩

theorem Alike.clear (h : g.Alike g') : Logged.Alike Served.Alike g.clear g'.clear :=
  h.release.bind fun _ _ hout => Logged.alike_pure ⟨.cleared, hout.1, hout.2⟩

/-- Generators that are alike serve a request alike. -/
theorem Alike.serve (h : g.Alike g') (request : Request) :
    Logged.Alike Served.Alike (g.serve request) (g'.serve request) := by
  cases request with
  | regenerate b => exact h.regenerate b
  | clear => exact h.clear
  | current => exact Logged.alike_pure ⟨.displayed h.current, .nil, h⟩

/-- And so they do many requests. -/
theorem Alike.run (h : g.Alike g') (requests : List Request) :
    Logged.Alike (List.Forall₂ Served.Alike) (g.run requests) (g'.run requests) := by
  induction requests generalizing g g' with
  | nil => exact Logged.alike_pure .nil
  | cons request requests ih =>
    exact (h.serve request).bind fun _ _ hserved =>
      (ih hserved.generator).bind fun _ _ hrest => Logged.alike_pure (.cons hserved hrest)

/-- A mesh is made at the same requests. -/
theorem forall₂_made {history history' : List Served}
    (h : List.Forall₂ Served.Alike history history') :
    List.Forall₂ TreeMesh.Alike (history.filterMap Served.made)
      (history'.filterMap Served.made) := by
  refine List.rel_filterMap ?_ h
  rintro ⟨_, _, _⟩ ⟨_, _, _⟩ ⟨hanswer, -, -⟩
  cases hanswer with
  | regenerated htree =>
    cases htree with
    | refused fault => exact .none
    | grown hmesh => exact .some hmesh
  | cleared => exact .none
  | displayed _ => exact .none

end Generator

/-- The random source reaches nothing but the turning of the leaves.  A style is refused
or not whatever the source is.  Two generators of one style, whatever their sources are,
refuse the same requests for the same reasons and report the same, and the meshes they
make are the same ones in order, as are those on display and those handed out: the same
branches, the same rectangle, and as many leaves in the same places. -/
theorem chance_only_turns_leaves (style : MeshStyle) (rng rng' : Rng) (handsOut : Bool) :
    (∀ fault, Generator.new style rng handsOut = .error fault ↔
      Generator.new style rng' handsOut = .error fault) ∧
    ∀ g, Generator.new style rng handsOut = .ok g →
      ∃ g', Generator.new style rng' handsOut = .ok g' ∧ ∀ requests,
        List.Forall₂ Served.Alike (g.run requests).value (g'.run requests).value ∧
          List.Forall₂ TreeMesh.Alike ((g.run requests).value.filterMap Served.made)
            ((g'.run requests).value.filterMap Served.made) ∧
          (g.run requests).events = (g'.run requests).events := by
  cases hcheck : style.check with
  | error fault =>
    rw [Generator.new_of_refused hcheck, Generator.new_of_refused hcheck]
    refine ⟨fun _ => Iff.rfl, fun g hnew => ?_⟩
    cases hnew
  | ok _ =>
    rw [Generator.new_of_accepted hcheck, Generator.new_of_accepted hcheck]
    refine ⟨fun _ => iff_of_false nofun nofun, fun g hnew => ?_⟩
    cases hnew
    have halike : Generator.Alike ⟨style, rng, none, handsOut⟩ ⟨style, rng', none, handsOut⟩ :=
      ⟨rfl, rfl, .none⟩
    refine ⟨_, rfl, fun requests => ?_⟩
    have hrun := halike.run requests
    exact ⟨hrun.value, Generator.forall₂_made hrun.value, hrun.events⟩

/-- Two seeds, and two trees with each. -/
theorem chance_only_turns_leaves_mixed :
    Rng.ofSeed 7 ≠ .ofSeed 8 ∧
    ∃ g g', Generator.new .octagonal (.ofSeed 7) true = .ok g ∧
      Generator.new .octagonal (.ofSeed 8) true = .ok g' ∧
      ((g.run Request.mixed).value.filterMap Served.made).length = 2 ∧
      List.Forall₂ TreeMesh.Alike ((g.run Request.mixed).value.filterMap Served.made)
        ((g'.run Request.mixed).value.filterMap Served.made) := by
  have hnew : Generator.new .octagonal (.ofSeed 7) true =
      .ok ⟨.octagonal, .ofSeed 7, none, true⟩ := rfl
  obtain ⟨-, haccepted⟩ := chance_only_turns_leaves .octagonal (.ofSeed 7) (.ofSeed 8) true
  obtain ⟨g', hnew', hruns⟩ := haccepted _ hnew
  exact ⟨by decide, _, g', hnew, hnew', by decide, (hruns Request.mixed).2.1⟩

end Arbor
