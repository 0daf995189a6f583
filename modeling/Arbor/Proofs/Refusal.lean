import Arbor.Proofs.Omission
import Arbor.Proofs.Planting

/-!
# Refusals

A request that is refused leaves no trace: not on display, not in the random source,
not with the owner of the meshes.  So a run is the same without it, but for the entry
of the request itself.

*One request.*  A generator refuses a blueprint, and a blueprint is not planted, when
a number is not in order and for no other reason (`Generator.answer_eq_error_iff`,
`Blueprint.plant_eq_error_iff`).  Then nothing else happens
(`Generator.Outcome.of_failed`, `Blueprint.plant_of_failed`).

*Many requests.*  Any requests that failed can be left out at once
(`Generator.run_leaveOut`, `Blueprint.plantAll_leaveOut`).
-/

namespace Arbor

/-! ## Single trees -/

namespace Blueprint

variable {σ : Type} [RandomSource σ]

/-- A blueprint is not planted if the style or the blueprint is refused, and only
then.  The style is looked at first. -/
theorem plant_eq_error_iff (b : Blueprint) (style : MeshStyle) (rng : σ) (fault : Fault) :
    (b.plant style rng).value.1 = .error fault ↔
      style.check = .error fault ∨ style.check = .ok () ∧ b.check = .error fault := by
  cases h : style.check with
  | error other =>
    rw [plant_of_refused h, Logged.value_pure, Except.error.injEq]
    simp
  | ok _ =>
    rw [plant_of_accepted h, grow_eq_error_iff]
    simp

/-- A blueprint that is not planted takes nothing from the random source. -/
theorem plant_of_failed {b : Blueprint} {style : MeshStyle} {rng : σ} {fault : Fault}
    (h : (b.plant style rng).value.1 = .error fault) :
    b.plant style rng = pure (.error fault, rng) := by
  rcases (plant_eq_error_iff b style rng fault).mp h with hstyle | ⟨hstyle, hcheck⟩
  · exact plant_of_refused hstyle b rng
  · rw [plant_of_accepted hstyle, grow_of_refused hcheck]

/-- Requests that fail can be left out. -/
theorem plantAll_leaveOut {out : Nat → Bool} {requests : List (Blueprint × MeshStyle)} {rng : σ}
    (h : AllOut out (fun tree => ∃ fault, tree = .error fault)
      (plantAll requests rng).value.1) :
    (plantAll (leaveOut out requests) rng).value =
      (leaveOut out (plantAll requests rng).value.1, (plantAll requests rng).value.2) := by
  induction requests generalizing out rng with
  | nil => rfl
  | cons request requests ih =>
    obtain ⟨b, style⟩ := request
    rw [value_plantAll_cons] at h ⊢
    have hrest := ih h.tail
    cases hout : out 0 with
    | true =>
      obtain ⟨fault, hfault⟩ := h.head hout
      rw [plant_of_failed hfault, Logged.value_pure] at hrest ⊢
      rw [leaveOut_cons_of_out hout, leaveOut_cons_of_out hout, hrest]
    | false =>
      rw [leaveOut_cons_of_not_out hout, leaveOut_cons_of_not_out hout, value_plantAll_cons, hrest]

end Blueprint

/-! ## Generators -/

/-- A new tree was asked for and refused. -/
def Served.Failed (s : Served) : Prop := ∃ fault, s.answer = .regenerated (.error fault)

namespace Generator

/-- A generator refuses the blueprints that are not in order, and only those. -/
theorem answer_eq_error_iff (g : Generator) (b : Blueprint) (fault : Fault) :
    (g.regenerate b).value.answer = .regenerated (.error fault) ↔ b.check = .error fault := by
  cases h : b.check with
  | error other => simp [regenerate_of_refused h]
  | ok _ => simp [value_regenerate_of_accepted h]

/-- A request that fails changes nothing. -/
theorem Outcome.of_failed {g : Generator} {request : Request} {served : Served}
    (h : g.Outcome request served) (hfailed : served.Failed) :
    served.released = [] ∧ served.generator = g := by
  obtain ⟨fault, hfault⟩ := hfailed
  cases h with
  | refused _ => exact ⟨rfl, rfl⟩
  | grown _ _ => cases hfault
  | cleared => cases hfault
  | looked => cases hfault

/-- Requests that fail can be left out.  The others are answered as before, the same
meshes go out, and the generator ends up the same. -/
theorem run_leaveOut {out : Nat → Bool} {g : Generator} {requests : List Request}
    (h : AllOut out Served.Failed (g.run requests).value) :
    (g.run (leaveOut out requests)).value = leaveOut out (g.run requests).value ∧
      (g.run (leaveOut out requests)).value.flatMap Served.released =
        (g.run requests).value.flatMap Served.released ∧
      g.after (g.run (leaveOut out requests)).value = g.after (g.run requests).value := by
  induction requests generalizing out g with
  | nil => exact ⟨rfl, rfl, rfl⟩
  | cons request requests ih =>
    rw [value_run_cons] at h ⊢
    obtain ⟨hvalue, hreleased, hafter⟩ := ih h.tail
    rw [List.flatMap_cons, after_cons]
    cases hout : out 0 with
    | true =>
      obtain ⟨hnone, hsame⟩ := (g.outcome_serve request).of_failed (h.head hout)
      rw [hsame] at hvalue hreleased hafter ⊢
      rw [leaveOut_cons_of_out hout, leaveOut_cons_of_out hout, hnone, List.nil_append]
      exact ⟨hvalue, hreleased, hafter⟩
    | false =>
      rw [leaveOut_cons_of_not_out hout, leaveOut_cons_of_not_out hout, value_run_cons,
        List.flatMap_cons, after_cons, hreleased, hafter, hvalue]
      exact ⟨rfl, rfl, rfl⟩

end Generator

/-- A request that is refused leaves no trace.  A generator answers with the fault and
stays as it is, and planting takes nothing from any random source.  So any requests
that failed can be left out of a run: the other ones are answered as before, the same
meshes are handed out, and the generator, or the random source, is the same in the
end.  The grammar has no part in whether a request is refused. -/
theorem refusal_leaves_no_trace (σ : Type) [RandomSource σ] :
    (∀ (g : Generator) (b : Blueprint) (fault : Fault), b.check = .error fault →
      g.regenerate b = pure ⟨.regenerated (.error fault), [], g⟩) ∧
    (∀ (b : Blueprint) (style : MeshStyle) (rng : σ) (fault : Fault),
      style.check = .error fault ∨ b.check = .error fault →
        ∃ first, b.plant style rng = pure (.error first, rng)) ∧
    (∀ (g : Generator) (requests : List Request) (out : Nat → Bool),
      let history := (g.run requests).value
      let rest := (g.run (leaveOut out requests)).value
      AllOut out Served.Failed history →
        rest = leaveOut out history ∧
          rest.flatMap Served.released = history.flatMap Served.released ∧
          g.after rest = g.after history) ∧
    (∀ (requests : List (Blueprint × MeshStyle)) (rng : σ) (out : Nat → Bool),
      let planted := (Blueprint.plantAll requests rng).value
      AllOut out (fun tree => ∃ fault, tree = .error fault) planted.1 →
        (Blueprint.plantAll (leaveOut out requests) rng).value =
          (leaveOut out planted.1, planted.2)) ∧
    (∀ (g : Generator) (grammar : Grammar) (shape : Shape),
      (g.regenerate ⟨grammar, shape⟩).value.Failed ↔ ∃ fault, shape.check = .error fault) ∧
    ∀ (grammar : Grammar) (shape : Shape) (style : MeshStyle) (rng : σ),
      (∃ fault, (Blueprint.plant ⟨grammar, shape⟩ style rng).value.1 = .error fault) ↔
        (∃ fault, style.check = .error fault) ∨ ∃ fault, shape.check = .error fault := by
  refine ⟨fun g b fault h => Generator.regenerate_of_refused h g, ?_,
    fun g requests out h => Generator.run_leaveOut h,
    fun requests rng out h => Blueprint.plantAll_leaveOut h, ?_, ?_⟩
  · rintro b style rng fault (h | h)
    · exact ⟨fault, Blueprint.plant_of_refused h b rng⟩
    · cases hstyle : style.check with
      | error first => exact ⟨first, Blueprint.plant_of_refused hstyle b rng⟩
      | ok _ =>
        rw [Blueprint.plant_of_accepted hstyle, Blueprint.grow_of_refused h]
        exact ⟨fault, rfl⟩
  · intro g grammar shape
    exact exists_congr fun fault => g.answer_eq_error_iff ⟨grammar, shape⟩ fault
  · intro grammar shape style rng
    simp only [Blueprint.plant_eq_error_iff, Blueprint.check]
    cases hstyle : style.check with
    | error first => simp
    | ok _ => simp

/-- Of some requests of all kinds the second one is refused.  Without it the others are
served in the same way, and the same two twigs are handed out. -/
theorem refusal_leaves_no_trace_mixed :
    ∃ g, Generator.new .octagonal (.ofSeed 7) true = .ok g ∧
      Blueprint.stuck.check = .error (.notPositive .stepLength 0) ∧
      g.regenerate .stuck = pure ⟨.regenerated (.error (.notPositive .stepLength 0)), [], g⟩ ∧
      AllOut (· == 1) Served.Failed (g.run Request.mixed).value ∧
      leaveOut (· == 1) Request.mixed =
        [.regenerate .twig, .regenerate .twig, .current, .clear, .clear, .current] ∧
      (g.run (leaveOut (· == 1) Request.mixed)).value =
        leaveOut (· == 1) (g.run Request.mixed).value ∧
      (g.run (leaveOut (· == 1) Request.mixed)).value.flatMap Served.released =
        (g.run Request.mixed).value.flatMap Served.released ∧
      ((g.run Request.mixed).value.flatMap Served.released).length = 2 := by
  have hnew : Generator.new .octagonal (.ofSeed 7) true =
      .ok ⟨.octagonal, .ofSeed 7, none, true⟩ := rfl
  have hstuck : Blueprint.stuck.check = .error (.notPositive .stepLength 0) := rfl
  have hsecond : Request.mixed[1]? = some (.regenerate .stuck) := rfl
  generalize hg : (⟨.octagonal, .ofSeed 7, none, true⟩ : Generator) = g at hnew
  have hout : AllOut (· == 1) Served.Failed (g.run Request.mixed).value := by
    intro k served hk hserved
    obtain rfl : k = 1 := by simpa using hk
    rw [g.getElem?_run hsecond] at hserved
    cases hserved
    exact ⟨_, (Generator.answer_eq_error_iff _ _ _).mpr hstuck⟩
  have htwice : ((g.run Request.mixed).value.flatMap Served.released).length = 2 := by
    rw [← hg]
    decide
  obtain ⟨halone, -, hruns, -⟩ := refusal_leaves_no_trace Rng
  obtain ⟨hrest, hreleased, -⟩ := hruns g Request.mixed _ hout
  exact ⟨g, hnew, hstuck, halone g _ _ hstuck, hout, rfl, hrest, hreleased, htwice⟩

end Arbor
