import Arbor.Proofs.Omission
import Arbor.Proofs.Stack

/-!
# Pruning

A stack limit takes nothing from a tree but brackets: a text is drawn as if those
without room were not in it.  A `[` is without room if as many branches are open as
the limit allows, and a `]` if it closes such a `[`.

*By depth.*  Whether a bracket fits can be told from the branches open before it
(`Bracket.crowded_iff`).  What can be told so, or from the commands that follow, is left
out in one reading from the front (`Bracket.sift`, `Bracket.map_leaveOut`), the brackets
among it (`Bracket.commands_pruned`).

*Two walks.*  Reading a bracket that does not fit changes nothing but the number of
dropped pushes.  A walk over the text and one over the pruned text are at the same
place, with the same turtles saved, after every command (`Walk.Alike.run`).
-/

namespace Arbor

namespace Bracket

/-! ## Symbols left out by a rule -/

/-- The commands of a list that a rule keeps, with some branches open before it.  The rule is
told how many are open before a command and what follows it. -/
def sift (keep : Nat → Command → List Command → Bool) : Nat → List Command → List Command
  | _, [] => []
  | depth, c :: cs =>
    if keep depth c cs then c :: sift keep (level depth c) cs else sift keep (level depth c) cs

section

variable {keep : Nat → Command → List Command → Bool} {depth : Nat} {c : Command}
  {cs : List Command}

theorem sift_of_kept (h : keep depth c cs = true) :
    sift keep depth (c :: cs) = c :: sift keep (level depth c) cs := if_pos h

theorem sift_of_not_kept (h : keep depth c cs = false) :
    sift keep depth (c :: cs) = sift keep (level depth c) cs := if_neg (ne_true_of_eq_false h)

end

/-- Symbols are left out as a rule says if it decides about each of them. -/
theorem map_leaveOut (out : List Char → Nat → Prop) [∀ symbols, DecidablePred (out symbols)]
    (keep : Nat → Command → List Command → Bool)
    (h : ∀ us c vs, out (us ++ c :: vs) us.length ↔
      keep ((us.map .ofSymbol).foldl level 0) (.ofSymbol c) (vs.map .ofSymbol) = false)
    (us vs : List Char) :
    (leaveOut (fun k => decide (out (us ++ vs) (us.length + k))) vs).map .ofSymbol =
      sift keep ((us.map .ofSymbol).foldl level 0) (vs.map .ofSymbol) := by
  induction vs generalizing us with
  | nil => rfl
  | cons c vs ih =>
    have hc := h us c vs
    have ih := ih (us ++ [c])
    simp only [List.append_assoc, List.singleton_append, List.length_append, List.length_singleton,
      List.map_append, List.map_singleton, List.foldl_append, List.foldl_cons, List.foldl_nil,
      Nat.add_assoc, Nat.add_comm 1] at ih
    cases hkeep : keep ((us.map .ofSymbol).foldl level 0) (.ofSymbol c) (vs.map .ofSymbol) with
    | true =>
      have hout := decide_eq_false (mt hc.mp (by rw [hkeep]; exact Bool.noConfusion))
      rw [leaveOut_cons_of_not_out hout, List.map_cons, List.map_cons, sift_of_kept hkeep, ih]
    | false =>
      have hout := decide_eq_true (hc.mpr hkeep)
      rw [leaveOut_cons_of_out hout, List.map_cons, sift_of_not_kept hkeep, ih]

/-! ## Brackets without room -/

/-- Whether there is no room for a bracket: as many branches are open before it, or
before the `[` that it closes, as the limit allows. -/
def Crowded (limit : Nat) (symbols : List Char) (k : Nat) : Prop :=
  symbols[k]? = some '[' ∧ limit ≤ openBefore symbols k ∨
    ∃ i < k, Closes symbols i k ∧ limit ≤ openBefore symbols i

instance (limit : Nat) (symbols : List Char) : DecidablePred (Crowded limit symbols) :=
  fun _ => inferInstanceAs (Decidable (_ ∨ _))

/-- The symbols for which there is room. -/
def pruned (limit : Nat) (symbols : List Char) : List Char :=
  leaveOut (fun k => decide (Crowded limit symbols k)) symbols

/-- Whether a command fits, with some branches open before it. -/
def fits (limit depth : Nat) : Command → Bool
  | .push => depth < limit
  | .pop => depth ≤ limit
  | _ => true

/-- The commands that fit, with some branches open before the first one. -/
def kept (limit : Nat) : Nat → List Command → List Command :=
  sift fun depth c _ => fits limit depth c

theorem kept_of_fits {limit depth : Nat} {c : Command} (h : fits limit depth c = true)
    (cs : List Command) : kept limit depth (c :: cs) = c :: kept limit (level depth c) cs :=
  sift_of_kept h

theorem kept_of_not_fits {limit depth : Nat} {c : Command} (h : fits limit depth c = false)
    (cs : List Command) : kept limit depth (c :: cs) = kept limit (level depth c) cs :=
  sift_of_not_kept h

/-- What does not fit is crowded. -/
theorem crowded_iff {limit k : Nat} {symbols : List Char} {c : Char}
    (hc : symbols[k]? = some c) :
    Crowded limit symbols k ↔ fits limit (openBefore symbols k) (.ofSymbol c) = false := by
  constructor
  · rintro (⟨hopen, hfull⟩ | ⟨i, -, hcloses, hfull⟩)
    · cases hc.symm.trans hopen
      simpa [fits] using hfull
    · cases hc.symm.trans hcloses.closes
      rw [hcloses.openBefore_eq]
      exact decide_eq_false (by omega)
  · intro hfits
    cases hcommand : Command.ofSymbol c with
    | push =>
      rw [Command.ofSymbol_eq_push_iff.mp hcommand] at hc hfits
      exact .inl ⟨hc, by simpa [fits] using hfits⟩
    | pop =>
      rw [Command.ofSymbol_eq_pop_iff.mp hcommand] at hc hfits
      have hfull : limit < openBefore symbols k := by simpa [fits] using hfits
      obtain ⟨n, hn⟩ := Nat.exists_eq_add_one_of_ne_zero (Nat.ne_zero_of_lt hfull)
      obtain ⟨i, hcloses, hi⟩ := exists_closes hc hn
      exact .inr ⟨i, hcloses.lt, hcloses, by omega⟩
    | draw => simp [hcommand, fits] at hfits
    | move => simp [hcommand, fits] at hfits
    | turn _ => simp [hcommand, fits] at hfits
    | ignore => simp [hcommand, fits] at hfits

theorem crowded_append (limit : Nat) (us : List Char) (c : Char) (vs : List Char) :
    Crowded limit (us ++ c :: vs) us.length ↔
      fits limit ((us.map .ofSymbol).foldl level 0) (.ofSymbol c) = false := by
  have hc : (us ++ c :: vs)[us.length]? = some c := by simp
  rw [crowded_iff hc, openBefore_append]

/-- Pruning leaves out what does not fit. -/
theorem commands_pruned (limit : Nat) (symbols : List Char) :
    (pruned limit symbols).map .ofSymbol = kept limit 0 (symbols.map .ofSymbol) := by
  have h := map_leaveOut (Crowded limit) (fun depth c _ => fits limit depth c)
    (crowded_append limit) [] symbols
  simpa [pruned, kept] using h

/-! ## Depths without the brackets left out -/

theorem level_of_fits {limit depth : Nat} {c : Command} (h : fits limit depth c = true) :
    level (min depth limit) c = min (level depth c) limit := by
  cases c with
  | push =>
    have hroom := of_decide_eq_true h
    rw [level_push, level_push]
    omega
  | pop =>
    have hroom := of_decide_eq_true h
    rw [level_pop, level_pop]
    omega
  | draw => rfl
  | move => rfl
  | turn _ => rfl
  | ignore => rfl

theorem min_level_of_not_fits {limit depth : Nat} {c : Command} (h : fits limit depth c = false) :
    min (level depth c) limit = min depth limit := by
  cases c with
  | push =>
    have hfull := of_decide_eq_false h
    rw [level_push]
    omega
  | pop =>
    have hfull := of_decide_eq_false h
    rw [level_pop]
    omega
  | draw => rfl
  | move => rfl
  | turn _ => rfl
  | ignore => rfl

/-- What is kept has room for all its branches. -/
theorem peak_kept (limit depth : Nat) (cs : List Command) :
    peak (min depth limit) (kept limit depth cs) ≤ limit := by
  induction cs generalizing depth with
  | nil => exact Nat.min_le_right ..
  | cons c cs ih =>
    have ih := ih (level depth c)
    cases hfits : fits limit depth c with
    | true =>
      rw [← level_of_fits hfits] at ih
      rw [kept_of_fits hfits]
      exact Nat.max_le.mpr ⟨Nat.min_le_right .., ih⟩
    | false =>
      rw [min_level_of_not_fits hfits] at ih
      rwa [kept_of_not_fits hfits]

end Bracket

/-! ## Two walks -/

namespace Walk

/-- Two walks are at the same place, with the same way back and the same strokes
behind them. -/
structure Alike (w v : Walk) : Prop where
  turtle : v.turtle = w.turtle
  saved : v.saved = w.saved
  strokes : v.strokes = w.strokes

variable {shape : Shape} {depth : Nat} {w v : Walk}

/-- A command that does not fit leaves a walk where it is. -/
theorem Alike.step_of_not_fits (ha : w.Alike v) (h : w.AtDepth shape.stackLimit depth)
    {c : Command} (hfits : Bracket.fits shape.stackLimit depth c = false) :
    (w.step shape c).Alike v := by
  cases c with
  | push =>
    have hpush := h.push_beyond (by simpa [Bracket.fits] using hfits)
    rw [step, obey, hpush]
    exact ⟨ha.turtle, ha.saved, ha.strokes⟩
  | pop =>
    have hfull : shape.stackLimit < depth := by simpa [Bracket.fits] using hfits
    obtain ⟨n, rfl⟩ := Nat.exists_eq_add_one_of_ne_zero (Nat.ne_zero_of_lt hfull)
    have hpop := h.pop_beyond (Nat.le_of_lt_succ hfull)
    rw [step, obey, hpop]
    exact ⟨ha.turtle, ha.saved, ha.strokes⟩
  | draw => cases hfits
  | move => cases hfits
  | turn _ => cases hfits
  | ignore => cases hfits

/-- A command that fits takes both walks to the same place. -/
theorem Alike.step_of_fits (ha : w.Alike v) (h : w.AtDepth shape.stackLimit depth)
    (hv : v.AtDepth shape.stackLimit (min depth shape.stackLimit)) {c : Command}
    (hfits : Bracket.fits shape.stackLimit depth c = true) :
    (w.step shape c).Alike (v.step shape c) := by
  obtain ⟨hturtle, hsaved, hstrokes⟩ := ha
  cases c with
  | push =>
    have hroom : depth < shape.stackLimit := by simpa [Bracket.fits] using hfits
    rw [step, step, obey, obey, h.push_within hroom, hv.push_within (by omega)]
    exact ⟨hturtle, by rw [hturtle, hsaved], hstrokes⟩
  | pop =>
    have hle : depth ≤ shape.stackLimit := by simpa [Bracket.fits] using hfits
    rw [Nat.min_eq_left hle] at hv
    cases depth with
    | zero =>
      rw [step, step, obey, obey, h.pop_stray, hv.pop_stray]
      exact ⟨hturtle, hsaved, hstrokes⟩
    | succ depth =>
      obtain ⟨turtle, saved, hs, hpop⟩ := h.pop_within hle
      obtain ⟨turtle', saved', hs', hpop'⟩ := hv.pop_within hle
      rw [hs, hs'] at hsaved
      obtain ⟨rfl, rfl⟩ := List.cons.inj hsaved
      rw [step, step, obey, obey, hpop, hpop']
      exact ⟨rfl, rfl, hstrokes⟩
  | draw =>
    refine ⟨?_, hsaved, ?_⟩
    · simp [step, obey, draw, hturtle, hstrokes]
    · simp [step, obey, draw, hturtle, hstrokes]
  | move => exact ⟨by simp [step, obey, move, hturtle], hsaved, hstrokes⟩
  | turn _ => exact ⟨by simp [step, obey, turn, hturtle], hsaved, hstrokes⟩
  | ignore => exact ⟨hturtle, hsaved, hstrokes⟩

/-- A walk over a text and one over what is kept of it stay together. -/
theorem Alike.run (ha : w.Alike v) (h : w.AtDepth shape.stackLimit depth)
    (hv : v.AtDepth shape.stackLimit (min depth shape.stackLimit)) (cs : List Command) :
    (w.run shape cs).Alike (v.run shape (Bracket.kept shape.stackLimit depth cs)) := by
  induction cs generalizing w v depth with
  | nil => exact ha
  | cons c cs ih =>
    rw [run_cons]
    cases hfits : Bracket.fits shape.stackLimit depth c with
    | true =>
      rw [Bracket.kept_of_fits hfits]
      have hstep := hv.step c
      rw [Bracket.level_of_fits hfits] at hstep
      exact ih (ha.step_of_fits h hv hfits) (h.step c) hstep
    | false =>
      -- The second walk does not move, since the depth that it sees is the same.
      rw [← Bracket.min_level_of_not_fits hfits] at hv
      rw [Bracket.kept_of_not_fits hfits]
      exact ih (ha.step_of_not_fits h hfits) (h.step c) hv

/-- No push is dropped where there is room for all branches. -/
theorem dropped_of_deepest {cs ds : List Command} (h : Bracket.deepest cs ≤ shape.stackLimit)
    (hds : ds <+: cs) : (start.run shape ds).dropped = 0 := by
  have hle := Bracket.deepest_le_iff.mp h ds hds
  rw [Bracket.openAtEnd_eq] at hle
  rw [((atDepth_start shape.stackLimit).run ds).dropped]
  omega

/-- The limit is nothing to a walk that has room for all branches. -/
theorem AtDepth.run_limit {limit : Nat} (h : w.AtDepth shape.stackLimit depth)
    (h' : w.AtDepth limit depth) {cs : List Command}
    (hroom : Bracket.peak depth cs ≤ shape.stackLimit) (hroom' : Bracket.peak depth cs ≤ limit) :
    w.run { shape with stackLimit := limit } cs = w.run shape cs := by
  induction cs generalizing w depth with
  | nil => rfl
  | cons c cs ih =>
    have hpeak := Bracket.peak_cons_le hroom
    have hpeak' := Bracket.peak_cons_le hroom'
    have hstep : w.step { shape with stackLimit := limit } c = w.step shape c := by
      cases c with
      | push =>
        have hle := Bracket.le_peak (depth + 1) cs
        rw [Walk.step, Walk.step, obey, obey, h.push_within (Nat.lt_of_lt_of_le hle hpeak),
          h'.push_within (Nat.lt_of_lt_of_le hle hpeak')]
      | pop => rfl
      | draw => rfl
      | move => rfl
      | turn _ => rfl
      | ignore => rfl
    have hlimit : w.AtDepth ({ shape with stackLimit := limit } : Shape).stackLimit depth := h'
    have hnext := hlimit.step c
    rw [hstep] at hnext
    rw [run_cons, run_cons, hstep]
    exact ih (h.step c) hnext hpeak hpeak'

end Walk

/-- What does not fit draws nothing. -/
theorem Shape.strokes_kept (shape : Shape) (cs : List Command) :
    (shape.skeleton (Bracket.kept shape.stackLimit 0 cs)).strokes =
      (shape.skeleton cs).strokes := by
  have hstart := Walk.atDepth_start shape.stackLimit
  have halike : Walk.start.Alike .start := ⟨rfl, rfl, rfl⟩
  have hv : Walk.start.AtDepth shape.stackLimit (min 0 shape.stackLimit) := by
    rw [Nat.zero_min]
    exact hstart
  rw [strokes_skeleton, strokes_skeleton, (halike.run hstart hv cs).strokes]

/-- A stack limit erases brackets and nothing else.  The segments of a text are, but
for their radii, those of the text without the brackets for which there is no room.
No more turtles are saved than the limit allows, and of the brackets that are left
none is dropped.  Two limits with room for all branches give the same skeleton. -/
theorem limit_erases_brackets (shape : Shape) (text : String) :
    let symbols := text.toList
    let rest := String.ofList (Bracket.pruned shape.stackLimit symbols)
    (shape.interpret text).value.strokes = (shape.interpret rest).value.strokes ∧
      (∀ cs, cs <+: Command.ofText text →
        (Walk.start.run shape cs).saved.length ≤ shape.stackLimit) ∧
      (∀ cs, cs <+: Command.ofText rest → (Walk.start.run shape cs).dropped = 0) ∧
      ∀ limit, Bracket.deepest (Command.ofText text) ≤ shape.stackLimit →
        Bracket.deepest (Command.ofText text) ≤ limit →
        (({ shape with stackLimit := limit }).interpret text).value =
          (shape.interpret text).value := by
  intro symbols rest
  have hrest : Command.ofText rest = Bracket.kept shape.stackLimit 0 (Command.ofText text) := by
    rw [Command.ofText_ofList, Bracket.commands_pruned]
    rfl
  refine ⟨?_, ?_, ?_, ?_⟩
  · rw [Shape.value_interpret, Shape.value_interpret, hrest, shape.strokes_kept]
  · intro cs _
    rw [((Walk.atDepth_start shape.stackLimit).run cs).saved]
    exact Nat.min_le_right ..
  · intro cs hcs
    rw [hrest] at hcs
    have hpeak := Bracket.peak_kept shape.stackLimit 0 (Command.ofText text)
    rw [Nat.zero_min] at hpeak
    exact Walk.dropped_of_deepest hpeak hcs
  · intro limit hroom hroom'
    have hrun := (Walk.atDepth_start shape.stackLimit).run_limit (Walk.atDepth_start limit) hroom
      hroom'
    rw [Shape.value_interpret, Shape.value_interpret, Shape.skeleton, Shape.skeleton, hrun]
    rfl

/-- Three branches where there is room for one, a stray bracket, and a branch that
stays open. -/
theorem limit_erases_brackets_crowded :
    String.ofList (Bracket.pruned 1 "[F[+F[F]]F]]F[[F".toList) = "[F+FFF]]F[F" ∧
      Bracket.deepest (Command.ofText "[F[+F[F]]F]]F[[F") ≤ Shape.slender.stackLimit ∧
      ({ Shape.slender with stackLimit := 3 }.interpret "[F[+F[F]]F]]F[[F").value =
        (Shape.slender.interpret "[F[+F[F]]F]]F[[F").value :=
  ⟨by decide, by decide,
    (limit_erases_brackets Shape.slender "[F[+F[F]]F]]F[[F").2.2.2 3 (by decide) (by decide)⟩

end Arbor
