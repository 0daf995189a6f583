import Arbor.Proofs.Accounting
import Arbor.Proofs.Lineage
import Arbor.Proofs.Pruning

/-!
# Tidying

What is malformed in a text has no effect on its tree.  Such are the symbols that are
ignored, the `]` that are stray, and the `[` that are never closed.

*By depth and by what follows.*  Whether a `]` is stray can be told from the branches open
before it (`Bracket.stray_iff`), and whether a `[` is ever closed from the text behind it:
`Bracket.closing` counts the `]` there that close something before it
(`Bracket.unclosed_append`).  So both are left out in one reading (`Bracket.sift`).

*The taper.*  Read from the end, a `[` that is never closed finds no counter saved
(`Taper.length_saved_backwardFrom`), and the rest of the text is read the same without it.

*The walk.*  A stray `]` changes nothing but what a walk reports (`Walk.quiet`).  A `[` that is
never closed saves a turtle that never comes back: of all saved turtles only as many are of
use as the rest of the text closes branches (`Walk.Shares`).  But a turtle of no use takes up
room, so this is said of a walk that has room for all branches.
-/

namespace Arbor

/-! ## Symbols left out -/

namespace Bracket

/-- The `]` at the position closes no `[`. -/
def Stray (symbols : List Char) (j : Nat) : Prop :=
  symbols[j]? = some ']' ∧ ∀ i < j, ¬ Closes symbols i j

instance (symbols : List Char) : DecidablePred (Stray symbols) :=
  fun _ => inferInstanceAs (Decidable (_ ∧ _))

/-- The symbol at the position is ignored, or it is a stray `]`. -/
def Idle (symbols : List Char) (k : Nat) : Prop :=
  symbols[k]?.map .ofSymbol = some Command.ignore ∨ Stray symbols k

instance (symbols : List Char) : DecidablePred (Idle symbols) :=
  fun _ => inferInstanceAs (Decidable (_ ∨ _))

/-- The symbols without those that are ignored and without stray `]`. -/
def tidied (symbols : List Char) : List Char :=
  leaveOut (fun k => decide (Idle symbols k)) symbols

/-- The symbols without those, and without the `[` that are never closed. -/
def paired (symbols : List Char) : List Char :=
  leaveOut (fun k => decide (Idle symbols k ∨ Unclosed symbols k)) symbols

theorem stray_iff {symbols : List Char} {j : Nat} :
    Stray symbols j ↔ symbols[j]? = some ']' ∧ openBefore symbols j = 0 := by
  refine and_congr_right fun hclose => ?_
  constructor
  · intro h
    refine Classical.byContradiction fun hopen => ?_
    obtain ⟨n, hn⟩ := Nat.exists_eq_add_one_of_ne_zero hopen
    obtain ⟨i, hcloses, -⟩ := exists_closes hclose hn
    exact h i hcloses.lt hcloses
  · intro hopen i _ hcloses
    have heq := hcloses.openBefore_eq
    omega

/-! ## Brackets closed by what follows -/

/-- How many `]` of a list close nothing in it.  They close branches opened before it, if
there are so many. -/
def closing (cs : List Command) : Nat := (flags 0 cs).count true

@[simp] theorem closing_nil : closing [] = 0 := rfl

/-- Each branch open before the list takes care of one of them. -/
theorem count_flags_eq (depth : Nat) (cs : List Command) :
    (flags depth cs).count true = closing cs - depth := by
  rw [closing]
  induction cs generalizing depth with
  | nil => exact (Nat.zero_sub depth).symm
  | cons c cs ih =>
    rw [count_flags_cons, count_flags_cons, ih (level depth c), ih (level 0 c)]
    cases c with
    | push =>
      rw [level_push, level_push, isStray_push, isStray_push, Bool.toNat_false]
      omega
    | pop =>
      cases depth with
      | zero => rfl
      | succ depth =>
        rw [level_pop, level_pop, isStray_pop_succ, isStray_pop_zero, Bool.toNat_true,
          Bool.toNat_false]
        omega
    | draw => rfl
    | move => rfl
    | turn _ => rfl
    | ignore => rfl

@[simp] theorem closing_push (cs : List Command) : closing (.push :: cs) = closing cs - 1 := by
  rw [closing, count_flags_cons, count_flags_eq]
  rfl

@[simp] theorem closing_pop (cs : List Command) : closing (.pop :: cs) = closing cs + 1 :=
  count_flags_cons 0 .pop cs

theorem closing_of_plain {c : Command} (h : c ≠ .push ∧ c ≠ .pop) (cs : List Command) :
    closing (c :: cs) = closing cs := by
  rw [closing, count_flags_cons, level_of_plain h, isStray_of_ne h.2]
  rfl

/-- A `[` is never closed if nothing behind it closes anything before. -/
theorem unclosed_append (us vs : List Char) (c : Char) :
    Unclosed (us ++ c :: vs) us.length ↔ c = '[' ∧ closing (vs.map .ofSymbol) = 0 := by
  induction us with
  | nil =>
    rw [List.nil_append, List.length_nil, unclosed_cons_zero, closing,
      ← Ragged.commands_ofSymbols, Ragged.count_flags, List.length_eq_zero_iff]
  | cons _ us ih => rw [List.cons_append, List.length_cons, unclosed_cons_succ, ih]

theorem stray_append (us vs : List Char) (c : Char) :
    Stray (us ++ c :: vs) us.length ↔
      isStray ((us.map .ofSymbol).foldl level 0) (.ofSymbol c) = true := by
  rw [stray_iff, openBefore_append, List.getElem?_append_right (Nat.le_refl _), Nat.sub_self,
    List.getElem?_cons_zero, Option.some_inj, ← Command.ofSymbol_eq_pop_iff]
  constructor
  · rintro ⟨hc, hdepth⟩
    rw [hc, hdepth, isStray_pop_zero]
  · intro h
    have hc : Command.ofSymbol c = .pop := by
      refine Classical.byContradiction fun hc => ?_
      rw [isStray_of_ne hc] at h
      cases h
    rw [hc] at h
    exact ⟨hc, beq_iff_eq.mp h⟩

/-! ## One reading -/

/-- Keeps what has a meaning and is no stray `]`. -/
def meant (depth : Nat) (c : Command) (_ : List Command) : Bool :=
  c != .ignore && !isStray depth c

/-- Keeps, of what has a meaning and is no stray `]`, all but the `[` that are never closed. -/
def used (depth : Nat) (c : Command) (cs : List Command) : Bool :=
  meant depth c cs && !(c == .push && closing cs == 0)

theorem idle_append (us : List Char) (c : Char) (vs : List Char) :
    Idle (us ++ c :: vs) us.length ↔
      meant ((us.map .ofSymbol).foldl level 0) (.ofSymbol c) (vs.map .ofSymbol) = false := by
  unfold Idle
  rw [stray_append, List.getElem?_append_right (Nat.le_refl _), Nat.sub_self,
    List.getElem?_cons_zero, Option.map_some, Option.some_inj, meant, Bool.and_eq_false_iff,
    bne_eq_false_iff_eq, Bool.not_eq_false']

theorem commands_tidied (symbols : List Char) :
    (tidied symbols).map .ofSymbol = sift meant 0 (symbols.map .ofSymbol) := by
  have h := map_leaveOut Idle meant idle_append [] symbols
  simpa [tidied] using h

theorem loose_append (us : List Char) (c : Char) (vs : List Char) :
    Idle (us ++ c :: vs) us.length ∨ Unclosed (us ++ c :: vs) us.length ↔
      used ((us.map .ofSymbol).foldl level 0) (.ofSymbol c) (vs.map .ofSymbol) = false := by
  rw [idle_append, unclosed_append, ← Command.ofSymbol_eq_push_iff, used, Bool.and_eq_false_iff,
    Bool.not_eq_false', Bool.and_eq_true, beq_iff_eq, beq_iff_eq]

theorem commands_paired (symbols : List Char) :
    (paired symbols).map .ofSymbol = sift used 0 (symbols.map .ofSymbol) := by
  have h := map_leaveOut (fun symbols k => Idle symbols k ∨ Unclosed symbols k) used loose_append
    [] symbols
  simpa [paired] using h

/-- What becomes of a command, with some branches open before it and others behind it. -/
inductive Fate (cs : List Command) : Nat → Command → Prop
  /-- What is no bracket stays if it has a meaning. -/
  | plain {depth : Nat} {c : Command} (hplain : c ≠ .push ∧ c ≠ .pop)
    (hmeant : c ≠ .ignore) : Fate cs depth c
  /-- A `[` that is closed stays. -/
  | opens {depth n : Nat} (h : closing cs = n + 1) : Fate cs depth .push
  /-- A `]` that closes a branch stays. -/
  | closes {depth : Nat} : Fate cs (depth + 1) .pop
  /-- What is ignored goes. -/
  | ignored {depth : Nat} : Fate cs depth .ignore
  /-- A stray `]` goes. -/
  | stray : Fate cs 0 .pop
  /-- A `[` that is never closed goes. -/
  | unclosed {depth : Nat} (h : closing cs = 0) : Fate cs depth .push

theorem fate (cs : List Command) (depth : Nat) (c : Command) : Fate cs depth c := by
  cases c with
  | push =>
    cases h : closing cs with
    | zero => exact .unclosed h
    | succ n => exact .opens h
  | pop =>
    cases depth with
    | zero => exact .stray
    | succ depth => exact .closes
  | ignore => exact .ignored
  | draw => exact .plain ⟨Command.noConfusion, Command.noConfusion⟩ Command.noConfusion
  | move => exact .plain ⟨Command.noConfusion, Command.noConfusion⟩ Command.noConfusion
  | turn _ => exact .plain ⟨Command.noConfusion, Command.noConfusion⟩ Command.noConfusion

section

variable {depth n : Nat} {c : Command} {cs : List Command}

theorem sift_used_plain (hplain : c ≠ .push ∧ c ≠ .pop) (hmeant : c ≠ .ignore) :
    sift used depth (c :: cs) = c :: sift used depth cs := by
  have hused : used depth c cs = true := by
    simp [used, meant, isStray_of_ne hplain.2, hplain.1, hmeant]
  rw [sift_of_kept hused, level_of_plain hplain]

theorem sift_used_opens (h : closing cs = n + 1) :
    sift used depth (.push :: cs) = .push :: sift used (depth + 1) cs :=
  sift_of_kept (by simp [used, meant, h])

theorem sift_used_closes :
    sift used (depth + 1) (.pop :: cs) = .pop :: sift used depth cs := rfl

theorem sift_used_stray : sift used 0 (.pop :: cs) = sift used 0 cs := rfl

theorem sift_used_unclosed (h : closing cs = 0) :
    sift used depth (.push :: cs) = sift used (depth + 1) cs :=
  sift_of_not_kept (by simp [used, meant, h])

end

theorem not_meant {depth : Nat} {c : Command} {cs : List Command} (h : meant depth c cs = false) :
    c = .ignore ∨ c = .pop ∧ depth = 0 := by
  cases fate cs depth c with
  | plain hplain hmeant => simp [meant, isStray_of_ne hplain.2, hmeant] at h
  | opens _ => cases h
  | closes => cases h
  | ignored => exact .inl rfl
  | stray => exact .inr ⟨rfl, rfl⟩
  | unclosed _ => cases h

/-- In what is left every bracket has its partner, but for those that close a branch opened
before. -/
theorem balance_sift_used {depth other : Nat} {cs : List Command}
    (h : min depth (closing cs) ≤ other) :
    (flags other (sift used depth cs)).count true = 0 ∧
      (sift used depth cs).foldl level other = other - min depth (closing cs) := by
  induction cs generalizing depth other with
  | nil => exact ⟨rfl, by simp [sift]⟩
  | cons c cs ih =>
    cases fate cs depth c with
    | plain hplain hmeant =>
      rw [closing_of_plain hplain] at h ⊢
      rw [sift_used_plain hplain hmeant, count_flags_cons, isStray_of_ne hplain.2, List.foldl_cons,
        level_of_plain hplain]
      exact ih h
    | @opens _ n hn =>
      rw [closing_push, hn] at h ⊢
      rw [sift_used_opens hn, count_flags_cons, List.foldl_cons, level_push]
      have hle : min (depth + 1) (closing cs) ≤ other + 1 := by omega
      obtain ⟨hcount, hlevel⟩ := ih hle
      exact ⟨hcount, hlevel.trans (by omega)⟩
    | @closes depth =>
      rw [closing_pop] at h ⊢
      obtain ⟨other, rfl⟩ := Nat.exists_eq_add_one_of_ne_zero (n := other) (by omega)
      rw [sift_used_closes, count_flags_cons, List.foldl_cons, level_pop]
      have hle : min depth (closing cs) ≤ other := by omega
      obtain ⟨hcount, hlevel⟩ := ih hle
      exact ⟨hcount, hlevel.trans (by omega)⟩
    | ignored => exact ih h
    | stray =>
      have hle : min 0 (closing cs) ≤ other := by omega
      obtain ⟨hcount, hlevel⟩ := ih hle
      exact ⟨hcount, hlevel.trans (by omega)⟩
    | unclosed hnone =>
      rw [closing_push, hnone] at h ⊢
      rw [sift_used_unclosed hnone]
      have hle : min (depth + 1) (closing cs) ≤ other := by omega
      obtain ⟨hcount, hlevel⟩ := ih hle
      exact ⟨hcount, hlevel.trans (by omega)⟩

end Bracket

/-! ## The taper -/

namespace Taper

open Arbor.Bracket

theorem saved_read_push (b : Backward) (stray : Bool) :
    (b.read (.push, stray)).saved = b.saved.tail := by
  cases hs : b.saved <;> simp [Backward.read, hs]

theorem read_push_of_nil {b : Backward} (h : b.saved = []) (stray : Bool) :
    b.read (.push, stray) = b := by
  rw [Backward.read, h]

/-- A counter is saved for each branch opened before that the list closes. -/
theorem length_saved_backwardFrom (depth : Nat) (cs : List Command) :
    (backwardFrom depth cs).saved.length = min depth (closing cs) := by
  induction cs generalizing depth with
  | nil => exact (Nat.min_zero depth).symm
  | cons c cs ih =>
    have ih := ih (level depth c)
    rw [backwardFrom_cons]
    cases c with
    | push =>
      rw [level_push] at ih
      rw [saved_read_push, List.length_tail, level_push, ih, closing_push]
      omega
    | pop =>
      rw [closing_pop]
      cases depth with
      | zero => exact ih.trans (by rw [level_pop]; omega)
      | succ depth => exact (congrArg (· + 1) ih).trans (by rw [level_pop]; omega)
    | draw => exact ih
    | move => exact ih
    | turn _ => exact ih
    | ignore => exact ih

theorem backwardFrom_sift_meant (depth : Nat) (cs : List Command) :
    backwardFrom depth (sift meant depth cs) = backwardFrom depth cs := by
  induction cs generalizing depth with
  | nil => rfl
  | cons c cs ih =>
    cases hmeant : meant depth c cs with
    | true => rw [sift_of_kept hmeant, backwardFrom_cons, backwardFrom_cons, ih]
    | false =>
      rcases not_meant hmeant with rfl | ⟨rfl, rfl⟩
      · exact ih depth
      · exact ih 0

/-- The taper does not see the brackets left out.  Before what is left fewer branches may be
open, as long as it finds those that it closes. -/
theorem backwardFrom_sift_used {depth other : Nat} {cs : List Command}
    (h : min depth (closing cs) ≤ other) :
    backwardFrom other (sift used depth cs) = backwardFrom depth cs := by
  induction cs generalizing depth other with
  | nil => rfl
  | cons c cs ih =>
    cases fate cs depth c with
    | plain hplain hmeant =>
      rw [closing_of_plain hplain] at h
      rw [sift_used_plain hplain hmeant, backwardFrom_cons, backwardFrom_cons,
        isStray_of_ne hplain.2, isStray_of_ne hplain.2, level_of_plain hplain,
        level_of_plain hplain, ih h]
    | opens hn =>
      rw [closing_push, hn] at h
      have hle : min (depth + 1) (closing cs) ≤ other + 1 := by omega
      rw [sift_used_opens hn, backwardFrom_cons, backwardFrom_cons, level_push, level_push,
        ih hle]
      rfl
    | @closes depth =>
      rw [closing_pop] at h
      obtain ⟨other, rfl⟩ := Nat.exists_eq_add_one_of_ne_zero (n := other) (by omega)
      have hle : min depth (closing cs) ≤ other := by omega
      rw [sift_used_closes, backwardFrom_cons, backwardFrom_cons, level_pop, level_pop,
        Nat.add_sub_cancel, Nat.add_sub_cancel, ih hle]
      rfl
    | ignored => exact ih h
    | stray =>
      have hle : min 0 (closing cs) ≤ other := by omega
      exact ih hle
    | unclosed hnone =>
      have hsaved := length_saved_backwardFrom (depth + 1) cs
      rw [hnone, Nat.min_zero, List.length_eq_zero_iff] at hsaved
      have hle : min (depth + 1) (closing cs) ≤ other := by omega
      rw [sift_used_unclosed hnone, backwardFrom_cons, level_push, read_push_of_nil hsaved,
        ih hle]

end Taper

/-! ## The walk -/

namespace Walk

open Arbor.Bracket

/-- The walk without what it reports. -/
def quiet (w : Walk) : Walk := { w with strays := 0, warnings := #[], position := 0 }

/-- What a walk reports has no part in where it goes. -/
theorem quiet_step (shape : Shape) (w : Walk) (c : Command) :
    (w.step shape c).quiet = (w.quiet.step shape c).quiet := by
  cases c with
  | push =>
    show (w.push shape.stackLimit).quiet = (w.quiet.push shape.stackLimit).quiet
    by_cases hroom : w.saved.length < shape.stackLimit
    · rw [push_of_room hroom, push_of_room (w := w.quiet) hroom]
      rfl
    · rw [push_of_full hroom, push_of_full (w := w.quiet) hroom]
      rfl
  | pop =>
    show w.pop.quiet = w.quiet.pop.quiet
    cases hd : w.dropped with
    | succ dropped =>
      rw [pop_of_dropped hd, pop_of_dropped (w := w.quiet) hd]
      rfl
    | zero =>
      cases hs : w.saved with
      | nil =>
        rw [pop_of_nil hd hs, pop_of_nil (w := w.quiet) hd hs]
        rfl
      | cons turtle saved =>
        rw [pop_of_cons hd hs, pop_of_cons (w := w.quiet) hd hs]
        rfl
  | draw => rfl
  | move => rfl
  | turn _ => rfl
  | ignore => rfl

theorem quiet_run (shape : Shape) (cs : List Command) (w : Walk) :
    (w.run shape cs).quiet = (w.quiet.run shape cs).quiet := by
  induction cs generalizing w with
  | nil => rfl
  | cons c cs ih => rw [run_cons, run_cons, ih, quiet_step, ← ih]

theorem quiet_run_congr {w v : Walk} (h : w.quiet = v.quiet) (shape : Shape) (cs : List Command) :
    (w.run shape cs).quiet = (v.run shape cs).quiet := by
  rw [quiet_run, h, ← quiet_run]

variable {shape : Shape} {depth other n : Nat} {w v : Walk}

/-- What is ignored and what is stray is only reported. -/
theorem AtDepth.quiet_sift (h : w.AtDepth shape.stackLimit depth) (cs : List Command) :
    (w.run shape (sift meant depth cs)).quiet = (w.run shape cs).quiet := by
  induction cs generalizing w depth with
  | nil => rfl
  | cons c cs ih =>
    cases hmeant : meant depth c cs with
    | true => rw [sift_of_kept hmeant, run_cons, run_cons, ih (h.step c)]
    | false =>
      rw [sift_of_not_kept hmeant, run_cons]
      rcases not_meant hmeant with rfl | ⟨rfl, rfl⟩
      · have hignore : (w.step shape .ignore).quiet = w.quiet := rfl
        exact (ih h).trans (quiet_run_congr hignore.symm shape cs)
      · have hpop : (w.step shape .pop).quiet = w.quiet := by
          rw [Walk.step, obey, h.pop_stray]
          rfl
        exact (ih h).trans (quiet_run_congr hpop.symm shape cs)

/-- Two walks are at the same place, with the same strokes behind them and the same way back
for the next branches closed. -/
structure Shares (n : Nat) (w v : Walk) : Prop where
  turtle : v.turtle = w.turtle
  strokes : v.strokes = w.strokes
  saved : v.saved.take n = w.saved.take n

theorem Shares.plain (h : w.Shares n v) (shape : Shape) {c : Command}
    (hc : c ≠ .push ∧ c ≠ .pop) :
    (w.step shape c).Shares n (v.step shape c) := by
  obtain ⟨hturtle, hstrokes, hsaved⟩ := h
  cases c with
  | push => exact absurd rfl hc.1
  | pop => exact absurd rfl hc.2
  | draw => exact ⟨by simp [step, obey, draw, hturtle, hstrokes],
      by simp [step, obey, draw, hturtle, hstrokes], hsaved⟩
  | move => exact ⟨by simp [step, obey, move, hturtle], hstrokes, hsaved⟩
  | turn _ => exact ⟨by simp [step, obey, turn, hturtle], hstrokes, hsaved⟩
  | ignore => exact ⟨hturtle, hstrokes, hsaved⟩

theorem Shares.push (h : w.Shares n v) (hw : w.AtDepth shape.stackLimit depth)
    (hv : v.AtDepth shape.stackLimit other) (hle : other ≤ depth)
    (hroom : depth < shape.stackLimit) :
    (w.step shape .push).Shares (n + 1) (v.step shape .push) := by
  obtain ⟨hturtle, hstrokes, hsaved⟩ := h
  rw [step, step, obey, obey, hw.push_within hroom,
    hv.push_within (Nat.lt_of_le_of_lt hle hroom)]
  exact ⟨hturtle, hstrokes, by rw [List.take_succ_cons, List.take_succ_cons, hturtle, hsaved]⟩

theorem Shares.pop (h : w.Shares (n + 1) v) (hw : w.AtDepth shape.stackLimit (depth + 1))
    (hv : v.AtDepth shape.stackLimit (other + 1)) (hle : other ≤ depth)
    (hroom : depth < shape.stackLimit) :
    (w.step shape .pop).Shares n (v.step shape .pop) := by
  obtain ⟨-, hstrokes, htake⟩ := h
  obtain ⟨turtle, saved, hs, hpop⟩ := hw.pop_within hroom
  obtain ⟨turtle', saved', hs', hpop'⟩ := hv.pop_within (Nat.lt_of_le_of_lt hle hroom)
  rw [hs, hs', List.take_succ_cons, List.take_succ_cons] at htake
  obtain ⟨hturtle, hsaved⟩ := List.cons.inj htake
  rw [step, step, obey, obey, hpop, hpop']
  exact ⟨hturtle, hstrokes, hsaved⟩

theorem Shares.stray (h : w.Shares (n + 1) v) (hw : w.AtDepth shape.stackLimit 0) :
    (w.step shape .pop).Shares n v := by
  have htake := congrArg (List.take n) h.saved
  rw [List.take_take, List.take_take, Nat.min_eq_left (Nat.le_succ n)] at htake
  rw [step, obey, hw.pop_stray]
  exact ⟨h.turtle, h.strokes, htake⟩

theorem Shares.unclosed (h : w.Shares 0 v) (hw : w.AtDepth shape.stackLimit depth)
    (hroom : depth < shape.stackLimit) : (w.step shape .push).Shares 0 v := by
  rw [step, obey, hw.push_within hroom]
  exact ⟨h.turtle, h.strokes, rfl⟩

/-- The turtles that are still to come back are saved by both walks. -/
theorem Shares.min_le (h : w.Shares n v) (hw : w.AtDepth shape.stackLimit depth)
    (hv : v.AtDepth shape.stackLimit other) (hroom : depth ≤ shape.stackLimit) :
    min depth n ≤ other := by
  have hlength := congrArg List.length h.saved
  rw [List.length_take, List.length_take, hw.saved, hv.saved] at hlength
  omega

/-- A walk with room for all branches draws the same without those that are never closed. -/
theorem Shares.strokes_sift {cs : List Command} (h : w.Shares (closing cs) v)
    (hw : w.AtDepth shape.stackLimit depth) (hv : v.AtDepth shape.stackLimit other)
    (hle : other ≤ depth) (hroom : peak depth cs ≤ shape.stackLimit) :
    (v.run shape (sift used depth cs)).strokes = (w.run shape cs).strokes := by
  induction cs generalizing w v depth other with
  | nil => exact h.strokes
  | cons c cs ih =>
    have hpeak := peak_cons_le hroom
    have hwithin := Nat.le_trans (le_peak _ cs) hpeak
    have hnext := hw.step c
    rw [run_cons]
    cases fate cs depth c with
    | plain hplain hmeant =>
      rw [closing_of_plain hplain] at h
      have hv' := hv.step c
      rw [level_of_plain hplain] at hpeak hnext hv'
      rw [sift_used_plain hplain hmeant]
      exact ih (h.plain shape hplain) hnext hv' hle hpeak
    | @opens _ n hn =>
      rw [closing_push, hn, Nat.add_sub_cancel] at h
      rw [sift_used_opens hn]
      refine ih ?_ hnext (hv.step .push) (Nat.succ_le_succ hle) hpeak
      rw [hn]
      exact h.push hw hv hle hwithin
    | @closes depth =>
      have hmin := h.min_le hw hv (Nat.le_trans (le_peak _ _) hroom)
      rw [closing_pop] at h hmin
      obtain ⟨other, rfl⟩ := Nat.exists_eq_add_one_of_ne_zero (n := other) (by omega)
      rw [sift_used_closes]
      exact ih (h.pop hw hv (Nat.le_of_succ_le_succ hle) (Nat.le_trans (le_peak _ _) hroom)) hnext
        (hv.step .pop) (Nat.le_of_succ_le_succ hle) hpeak
    | ignored => exact ih ⟨h.turtle, h.strokes, h.saved⟩ hnext hv hle hpeak
    | stray =>
      rw [closing_pop] at h
      rw [sift_used_stray]
      exact ih (h.stray hw) hnext hv hle hpeak
    | unclosed hnone =>
      rw [closing_push, hnone] at h
      rw [sift_used_unclosed hnone]
      refine ih ?_ hnext hv (Nat.le_succ_of_le hle) hpeak
      rw [hnone]
      exact h.unclosed hw hwithin

end Walk

/-! ## Whole texts -/

theorem Command.ofText_tidied (text : String) :
    ofText (String.ofList (Bracket.tidied text.toList)) =
      Bracket.sift Bracket.meant 0 (ofText text) := by
  rw [ofText_ofList, Bracket.commands_tidied]
  rfl

theorem Command.ofText_paired (text : String) :
    ofText (String.ofList (Bracket.paired text.toList)) =
      Bracket.sift Bracket.used 0 (ofText text) := by
  rw [ofText_ofList, Bracket.commands_paired]
  rfl

namespace Shape

theorem segments_sift_meant (shape : Shape) (cs : List Command) :
    (shape.skeleton (Bracket.sift Bracket.meant 0 cs)).segments = (shape.skeleton cs).segments := by
  refine segments_congr ?_ (Taper.ofCommands_congr (Taper.backwardFrom_sift_meant 0 cs))
  have hquiet := congrArg Walk.strokes ((Walk.atDepth_start shape.stackLimit).quiet_sift cs)
  rw [strokes_skeleton, strokes_skeleton]
  exact congrArg Array.toList hquiet

theorem segments_sift_used {shape : Shape} {cs : List Command}
    (h : Bracket.deepest cs ≤ shape.stackLimit) :
    (shape.skeleton (Bracket.sift Bracket.used 0 cs)).segments = (shape.skeleton cs).segments := by
  have htaper := Taper.backwardFrom_sift_used (Nat.min_le_left 0 (Bracket.closing cs))
  refine segments_congr ?_ (Taper.ofCommands_congr htaper)
  have hstart := Walk.atDepth_start shape.stackLimit
  have hshares : Walk.start.Shares (Bracket.closing cs) .start := ⟨rfl, rfl, rfl⟩
  rw [strokes_skeleton, strokes_skeleton,
    hshares.strokes_sift hstart hstart (Nat.le_refl 0) h]

end Shape

/-- The ignored symbols and the stray `]` of a text have no part in its segments and its taper.
Without them and without the `[` that are never closed the text is well bracketed and has the
same taper, and the same segments where there is room for all branches of the text. -/
theorem malformed_inert (shape : Shape) (text : String) :
    let tidy := String.ofList (Bracket.tidied text.toList)
    let pairs := String.ofList (Bracket.paired text.toList)
    (shape.interpret tidy).value.segments = (shape.interpret text).value.segments ∧
      Taper.ofCommands (Command.ofText tidy) = Taper.ofCommands (Command.ofText text) ∧
      Bracket.WellBracketed pairs.toList ∧
      Taper.ofCommands (Command.ofText pairs) = Taper.ofCommands (Command.ofText text) ∧
      (Bracket.deepest (Command.ofText text) ≤ shape.stackLimit →
        (shape.interpret pairs).value.segments = (shape.interpret text).value.segments) := by
  intro tidy pairs
  have htidy : Command.ofText tidy = _ := Command.ofText_tidied text
  have hpairs : Command.ofText pairs = _ := Command.ofText_paired text
  have hmin := Nat.min_le_left 0 (Bracket.closing (Command.ofText text))
  refine ⟨?_, ?_, ?_, ?_, fun hroom => ?_⟩
  · rw [Shape.value_interpret, Shape.value_interpret, htidy, Shape.segments_sift_meant]
  · rw [htidy, Taper.ofCommands_congr (Taper.backwardFrom_sift_meant 0 _)]
  · obtain ⟨hcount, hlevel⟩ := Bracket.balance_sift_used hmin
    rw [← hpairs] at hcount hlevel
    exact Bracket.wellBracketed_iff.mpr ⟨hcount, hlevel.trans (Nat.zero_sub _)⟩
  · rw [hpairs, Taper.ofCommands_congr (Taper.backwardFrom_sift_used hmin)]
  · rw [Shape.value_interpret, Shape.value_interpret, hpairs, Shape.segments_sift_used hroom]

/-- Ignored symbols, a stray `]`, and two branches that are never closed, one of them around a
branch that is. -/
theorem malformed_inert_frayed :
    let roomy : Shape := { Shape.slender with stackLimit := 2 }
    Bracket.paired "F!]F[+F[F]F[!".toList = "FF+F[F]F".toList ∧
      Bracket.deepest (Command.ofText "F!]F[+F[F]F[!") ≤ roomy.stackLimit ∧
      (roomy.interpret "FF+F[F]F").value.segments =
        (roomy.interpret "F!]F[+F[F]F[!").value.segments := by
  intro roomy
  have hpaired : Bracket.paired "F!]F[+F[F]F[!".toList = "FF+F[F]F".toList := by decide
  have hroom : Bracket.deepest (Command.ofText "F!]F[+F[F]F[!") ≤ roomy.stackLimit := by decide
  obtain ⟨-, -, -, -, hsegments⟩ := malformed_inert roomy "F!]F[+F[F]F[!"
  rw [hpaired, String.ofList_toList] at hsegments
  exact ⟨hpaired, hroom, hsegments hroom⟩

/-- The turtle of the first `[` never comes back, but it takes the room of the second one. -/
example :
    let narrow : Shape := { Shape.slender with stackLimit := 1 }
    Bracket.paired "[[F]F".toList = "[F]F".toList ∧
      (narrow.interpret "[[F]F").value.parentOf 1 = some 0 ∧
      (narrow.interpret "[F]F").value.parentOf 1 = none := by
  decide

end Arbor
