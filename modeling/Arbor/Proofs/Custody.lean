import Arbor.Proofs.Requests

/-!
# Custody

A mesh that a generator has made is either on display or has been handed out, and
not both.

*Nothing is lost.*  With every request the meshes handed out, followed by the one on
display, grow by the mesh that was made (`Generator.Outcome.custody`).  So over a run
they are the meshes made, in the order in which they were made
(`Generator.run_custody`).

*The display.*  A mesh stays until another one is made or the display is cleared, so
the last request that decided about the display says what is on it
(`Generator.current_after`).

`handed_out_append_displayed` is both, for a generator whose owner wants its meshes.
-/

namespace Arbor

namespace Served

/-- The mesh that was made, if one was. -/
def made (s : Served) : Option TreeMesh :=
  match s.answer with
  | .regenerated (.ok mesh) => some mesh
  | _ => none

/-- What a request put on display, if it decided about that: the mesh it made, or
nothing if it cleared. -/
def decides (s : Served) : Option (Option TreeMesh) :=
  match s.answer with
  | .regenerated (.ok mesh) => some (some mesh)
  | .cleared => some none
  | _ => none

/-- What the last request that decided about an empty display put on it. -/
def lastOnDisplay (history : List Served) : Option TreeMesh :=
  (history.filterMap decides).getLast?.getD none

end Served

namespace Generator

/-! ## Nothing is lost -/

theorem outgoing_of_handsOut {g : Generator} (h : g.handsOut = true) :
    g.outgoing = g.current.toList := if_pos h

/-- The mesh that a request puts on display is the one that it makes, and the one that
it takes away goes out. -/
theorem Outcome.custody {g : Generator} {request : Request} {served : Served}
    (h : g.Outcome request served) (hout : g.handsOut = true) :
    served.released ++ served.generator.current.toList =
      g.current.toList ++ served.made.toList := by
  cases h with
  | refused _ => exact (List.append_nil _).symm
  | grown _ _ =>
    rw [outgoing_of_handsOut hout]
    rfl
  | cleared =>
    rw [outgoing_of_handsOut hout]
    rfl
  | looked => exact (List.append_nil _).symm

/-- What has gone out and what is on display are what was on display before and what
was made since. -/
theorem run_custody {g : Generator} (h : g.handsOut = true) (requests : List Request) :
    (g.run requests).value.flatMap Served.released ++
        (g.after (g.run requests).value).current.toList =
      g.current.toList ++ (g.run requests).value.filterMap Served.made := by
  induction requests generalizing g with
  | nil => simp
  | cons request requests ih =>
    have houtcome := g.outcome_serve request
    rw [value_run_cons]
    generalize (g.serve request).value = served at houtcome
    have hserve := houtcome.custody h
    have hrest := ih (houtcome.keeps.2.trans h)
    calc (served :: (served.generator.run requests).value).flatMap Served.released ++ _
      _ = served.released ++ (served.generator.current.toList ++
            (served.generator.run requests).value.filterMap Served.made) := by
          rw [← hrest, List.flatMap_cons, after_cons, List.append_assoc]
      _ = g.current.toList ++ (served.made.toList ++
            (served.generator.run requests).value.filterMap Served.made) := by
          rw [← List.append_assoc, hserve, List.append_assoc]
      _ = g.current.toList ++
            (served :: (served.generator.run requests).value).filterMap Served.made := by
          cases hmade : served.made <;> simp [hmade]

/-! ## The display -/

theorem Outcome.current_eq {g : Generator} {request : Request} {served : Served}
    (h : g.Outcome request served) :
    served.generator.current = served.decides.getD g.current := by
  cases h with
  | refused _ => rfl
  | grown _ _ => rfl
  | cleared => rfl
  | looked => rfl

/-- The last request that decided about the display says what is on it. -/
theorem current_after (g : Generator) (requests : List Request) :
    (g.after (g.run requests).value).current =
      ((g.run requests).value.filterMap Served.decides).getLast?.getD g.current := by
  induction requests generalizing g with
  | nil => rfl
  | cons request requests ih =>
    have hserve := (g.outcome_serve request).current_eq
    rw [value_run_cons, after_cons, ih]
    generalize (g.serve request).value = served at hserve
    rw [hserve]
    cases hdecides : served.decides with
    | none => rw [List.filterMap_cons_none hdecides, Option.getD_none]
    | some shown =>
      rw [List.filterMap_cons_some hdecides, List.getLast?_cons, Option.getD_some,
        Option.getD_some]

end Generator

/-- A generator that hands its meshes out neither loses a mesh nor hands out one that
is still on display.  After any number of requests the meshes handed out, followed by
the one on display, are the meshes made so far, in the order in which they were made.
On display, and so in the answer to a look at it, is the last mesh made, unless the
display was cleared later. -/
theorem handed_out_append_displayed {style : MeshStyle} {rng : Rng} {g : Generator}
    (h : Generator.new style rng true = .ok g) (requests : List Request) (k : Nat) :
    let past := (g.run requests).value.take k
    past.flatMap Served.released ++ (g.after past).current.toList = past.filterMap Served.made ∧
      (g.after past).current = Served.lastOnDisplay past ∧
      (requests[k]? = some .current →
        ∃ served, (g.run requests).value[k]? = some served ∧
          served.answer = .displayed (Served.lastOnDisplay past)) := by
  intro past
  have hpast : past = (g.run (requests.take k)).value := g.take_run requests k
  have hcurrent : (g.after past).current = Served.lastOnDisplay past := by
    rw [hpast, Generator.current_after, Generator.eq_of_new h]
    rfl
  refine ⟨?_, hcurrent, ?_⟩
  · rw [hpast, Generator.run_custody (by rw [Generator.eq_of_new h]), Generator.eq_of_new h]
    rfl
  · intro hlook
    refine ⟨_, g.getElem?_run hlook, ?_⟩
    rw [← hcurrent]
    rfl

/-- Two trees are made and the first one is handed out before the display is looked at. -/
theorem handed_out_append_displayed_mixed :
    ∃ g, Generator.new .octagonal (.ofSeed 7) true = .ok g ∧
      ((g.run Request.mixed).value.take 3).flatMap Served.released ++
          (g.after ((g.run Request.mixed).value.take 3)).current.toList =
        ((g.run Request.mixed).value.take 3).filterMap Served.made ∧
      (((g.run Request.mixed).value.take 3).filterMap Served.made).length = 2 ∧
      ∃ served, (g.run Request.mixed).value[3]? = some served ∧
        served.answer = .displayed (Served.lastOnDisplay ((g.run Request.mixed).value.take 3)) := by
  have hnew : Generator.new .octagonal (.ofSeed 7) true =
      .ok ⟨.octagonal, .ofSeed 7, none, true⟩ := rfl
  obtain ⟨hmeshes, -, hlook⟩ := handed_out_append_displayed hnew Request.mixed 3
  exact ⟨_, hnew, hmeshes, by decide, hlook rfl⟩

end Arbor
