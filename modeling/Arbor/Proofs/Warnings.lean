import Arbor.Proofs.Stack

/-!
# Warnings

A walk warns of a `[` for which there is no room and of a stray `]`.

*One command.*  The number of branches open says whether a command gives a warning
(`Bracket.warning`), and the warning says where the command stands.

*Whole texts.*  So the warnings of a text follow from a reading of its brackets
(`Walk.AtDepth.warnings_run`).  There are none if there is room for all branches and no
`]` is stray, and only then (`Bracket.warnings_eq_nil_iff`).

*Symbol by symbol.*  Whether a symbol of a text gives a warning is seen from the branches
open before it (`Bracket.warningAt`), so the warnings come in the order of the symbols that
give them (`Bracket.warnings_eq_filterMap`).  A `]` with a partner gives none, also where
the partner was dropped.
-/

namespace Arbor

namespace Bracket

/-- The warning that a command gives at a position with some branches open, if it gives
one. -/
def warning (limit depth position : Nat) : Command → Option Event
  | .push => if depth < limit then none else some (.pushDropped limit position)
  | .pop => if depth = 0 then some (.popUnderflow position) else none
  | _ => none

/-- The warnings that a command list gives, with some branches open before the first
command and from some position on. -/
def warnings (limit : Nat) : (depth position : Nat) → List Command → List Event
  | _, _, [] => []
  | depth, position, c :: cs =>
    (warning limit depth position c).toList ++ warnings limit (level depth c) (position + 1) cs

/-- A command gives no warning if there is room behind it and it is not stray. -/
theorem warning_eq_none_iff {limit depth position : Nat} (h : depth ≤ limit) (c : Command) :
    warning limit depth position c = none ↔ level depth c ≤ limit ∧ isStray depth c = false := by
  cases c with
  | push =>
    by_cases hroom : depth < limit
    · exact iff_of_true (if_pos hroom) ⟨hroom, rfl⟩
    · refine iff_of_false ?_ fun hlevel => hroom hlevel.1
      rw [warning, if_neg hroom]
      exact Option.some_ne_none _
  | pop =>
    have hle : depth - 1 ≤ limit := by omega
    simp [warning, isStray, hle]
  | draw => exact iff_of_true rfl ⟨h, rfl⟩
  | move => exact iff_of_true rfl ⟨h, rfl⟩
  | turn _ => exact iff_of_true rfl ⟨h, rfl⟩
  | ignore => exact iff_of_true rfl ⟨h, rfl⟩

/-- A text gives no warning if there is room for all its branches and none of its
brackets is stray, and only then. -/
theorem warnings_eq_nil_iff {limit depth position : Nat} (h : depth ≤ limit)
    (cs : List Command) :
    warnings limit depth position cs = [] ↔
      peak depth cs ≤ limit ∧ (flags depth cs).count true = 0 := by
  induction cs generalizing depth position with
  | nil => exact iff_of_true rfl ⟨h, rfl⟩
  | cons c cs ih =>
    have hhead : warning limit depth position c = none ↔ _ := warning_eq_none_iff h c
    rw [warnings, List.append_eq_nil_iff, Option.toList_eq_nil_iff, hhead, peak_cons, Nat.max_le,
      count_flags_cons, Nat.add_eq_zero_iff, Bool.toNat_eq_zero]
    constructor
    · rintro ⟨⟨hlevel, hstray⟩, hrest⟩
      obtain ⟨hpeak, hcount⟩ := (ih hlevel).mp hrest
      exact ⟨⟨h, hpeak⟩, hcount, hstray⟩
    · rintro ⟨⟨-, hpeak⟩, hcount, hstray⟩
      -- Room for what follows is room for the branches open before it.
      have hlevel := Nat.le_trans (le_peak (level depth c) cs) hpeak
      exact ⟨⟨hlevel, hstray⟩, (ih hlevel).mpr ⟨hpeak, hcount⟩⟩

end Bracket

namespace Walk

variable {shape : Shape} {depth : Nat} {w : Walk}

theorem position_step (shape : Shape) (w : Walk) (c : Command) :
    (w.step shape c).position = w.position + 1 := by
  cases c with
  | draw => rfl
  | move => rfl
  | turn _ => rfl
  | push =>
    show (w.push shape.stackLimit).position + 1 = _
    unfold push
    split <;> rfl
  | pop =>
    show w.pop.position + 1 = _
    unfold pop
    split <;> rfl
  | ignore => rfl

/-- A command adds its warning. -/
theorem AtDepth.warnings_step (h : w.AtDepth shape.stackLimit depth) (c : Command) :
    (w.step shape c).warnings.toList = w.warnings.toList ++
      (Bracket.warning shape.stackLimit depth w.position c).toList := by
  cases c with
  | draw => exact (List.append_nil _).symm
  | move => exact (List.append_nil _).symm
  | turn _ => exact (List.append_nil _).symm
  | push =>
    show (w.push shape.stackLimit).warnings.toList = _
    by_cases hroom : depth < shape.stackLimit
    · rw [h.push_within hroom]
      simp [Bracket.warning, hroom]
    · rw [h.push_beyond (Nat.not_lt.mp hroom)]
      simp [Bracket.warning, hroom]
  | pop =>
    show w.pop.warnings.toList = _
    cases depth with
    | zero =>
      rw [h.pop_stray]
      simp [Bracket.warning]
    | succ depth =>
      by_cases hroom : depth < shape.stackLimit
      · obtain ⟨turtle, saved, -, hpop⟩ := h.pop_within hroom
        rw [hpop]
        simp [Bracket.warning]
      · rw [h.pop_beyond (Nat.not_lt.mp hroom)]
        simp [Bracket.warning]
  | ignore => exact (List.append_nil _).symm

/-- A text adds its warnings, in order. -/
theorem AtDepth.warnings_run (h : w.AtDepth shape.stackLimit depth) (cs : List Command) :
    (w.run shape cs).warnings.toList = w.warnings.toList ++
      Bracket.warnings shape.stackLimit depth w.position cs := by
  induction cs generalizing w depth with
  | nil => exact (List.append_nil _).symm
  | cons c cs ih =>
    rw [run_cons, ih (h.step c), h.warnings_step, position_step, List.append_assoc,
      Bracket.warnings]

end Walk

/-- The interpretation of a text reports its warnings, and then the sizes. -/
theorem Shape.events_interpret (shape : Shape) (text : String) :
    let drawn := (shape.interpret text).value
    (shape.interpret text).events =
      Bracket.warnings shape.stackLimit 0 0 (Command.ofText text) ++
        [.interpreted text.utf8ByteSize drawn.segments.size drawn.strays drawn.unclosed] :=
  congrArg (· ++ _) ((Walk.atDepth_start shape.stackLimit).warnings_run (Command.ofText text))

/-! ## Symbol by symbol -/

/-- Whether an event reports a `]` that was read with no branch open. -/
def Event.isUnderflow : Event → Bool
  | .popUnderflow _ => true
  | _ => false

namespace Bracket

/-- The warning that a text gives at one of its symbols, if it gives one there: at a `[`
with as many branches open before it as the limit allows, and at a `]` with none open. -/
def warningAt (limit : Nat) (symbols : List Char) (i : Nat) : Option Event :=
  if symbols[i]? = some '[' ∧ limit ≤ openBefore symbols i then some (.pushDropped limit i)
  else if symbols[i]? = some ']' ∧ openBefore symbols i = 0 then some (.popUnderflow i)
  else none

theorem warningAt_append (limit : Nat) (us : List Char) (c : Char) (vs : List Char) :
    warningAt limit (us ++ c :: vs) us.length =
      warning limit ((us.map .ofSymbol).foldl level 0) us.length (.ofSymbol c) := by
  have hc : (us ++ c :: vs)[us.length]? = some c := by simp
  simp only [warningAt, hc, openBefore_append, Option.some_inj,
    ← Command.ofSymbol_eq_push_iff, ← Command.ofSymbol_eq_pop_iff]
  cases Command.ofSymbol c with
  | push =>
    rw [warning, ← ite_not]
    simp
  | pop => simp [warning]
  | draw => simp [warning]
  | move => simp [warning]
  | turn _ => simp [warning]
  | ignore => simp [warning]

/-- The warnings of the rest of a text are those at its symbols, in order. -/
theorem warnings_rest (limit : Nat) (us vs : List Char) :
    warnings limit ((us.map .ofSymbol).foldl level 0) us.length (vs.map .ofSymbol) =
      (List.range' us.length vs.length).filterMap (warningAt limit (us ++ vs)) := by
  induction vs generalizing us with
  | nil => rfl
  | cons c vs ih =>
    have hrest := ih (us ++ [c])
    simp only [List.map_append, List.foldl_append, List.append_assoc, List.length_append,
      List.map_singleton, List.foldl_cons, List.foldl_nil, List.length_singleton,
      List.singleton_append] at hrest
    rw [List.map_cons, warnings, hrest, List.length_cons, List.range'_succ, List.filterMap_cons,
      warningAt_append]
    cases warning limit ((us.map .ofSymbol).foldl level 0) us.length (.ofSymbol c) <;> rfl

/-- The warnings of a text are those at its symbols, in order. -/
theorem warnings_eq_filterMap (limit : Nat) (symbols : List Char) :
    warnings limit 0 0 (symbols.map .ofSymbol) =
      (List.range symbols.length).filterMap (warningAt limit symbols) := by
  rw [List.range_eq_range']
  exact warnings_rest limit [] symbols

/-- A warning tells the position of the symbol that gives it. -/
theorem eq_of_mem_warningAt {limit i : Nat} {symbols : List Char} {e : Event}
    (h : warningAt limit symbols i = some e) :
    e = .pushDropped limit i ∨ e = .popUnderflow i := by
  unfold warningAt at h
  split at h
  · exact .inl (Option.some.inj h).symm
  · split at h
    · exact .inr (Option.some.inj h).symm
    · cases h

theorem level_of_mem_warnings {limit : Nat} {symbols : List Char} {e : Event}
    (h : e ∈ warnings limit 0 0 (symbols.map .ofSymbol)) : e.level = .warn := by
  rw [warnings_eq_filterMap] at h
  obtain ⟨i, -, he⟩ := List.mem_filterMap.mp h
  rcases eq_of_mem_warningAt he with rfl | rfl <;> rfl

/-- A `]` with a partner gives no warning, also where the partner was dropped. -/
theorem Closes.warningAt_eq_none {symbols : List Char} {i j : Nat} (h : Closes symbols i j)
    (limit : Nat) : warningAt limit symbols j = none := by
  have hopen : openBefore symbols j ≠ 0 := by
    rw [h.openBefore_eq]
    exact Nat.succ_ne_zero _
  simp [warningAt, h.closes, hopen]

theorem countP_warning (limit depth position : Nat) (c : Command) :
    (warning limit depth position c).toList.countP Event.isUnderflow =
      (isStray depth c).toNat := by
  cases c with
  | push =>
    rw [warning]
    split <;> rfl
  | pop => cases depth <;> rfl
  | draw => rfl
  | move => rfl
  | turn _ => rfl
  | ignore => rfl

/-- A text reports as many underflows as it has stray brackets. -/
theorem countP_warnings (limit depth position : Nat) (cs : List Command) :
    (warnings limit depth position cs).countP Event.isUnderflow =
      (flags depth cs).count true := by
  induction cs generalizing depth position with
  | nil => rfl
  | cons c cs ih => rw [warnings, List.countP_append, countP_warning, ih, count_flags_cons,
      Nat.add_comm]

end Bracket

/-- Of the events of a text only those at its symbols are warnings. -/
theorem Shape.warnings_interpret (shape : Shape) (text : String) :
    (shape.interpret text).events.filter (·.level = .warn) =
      Bracket.warnings shape.stackLimit 0 0 (Command.ofText text) := by
  rw [events_interpret, List.filter_append, List.filter_eq_self.mpr]
  · exact List.append_nil _
  · intro e he
    exact decide_eq_true (Bracket.level_of_mem_warnings he)

/-- The warnings of a text are those at its symbols, in order: for every `[` that finds as
many branches open as the limit allows, that it was dropped, and for every `]` that finds
none open, an underflow, each with the position of the symbol.  No `]` that closes a `[`
gives a warning, and there are as many underflows as stray brackets. -/
theorem warns_at_offenders (shape : Shape) (text : String) :
    let read := shape.interpret text
    let warned := read.events.filter (·.level = .warn)
    warned = (List.range text.toList.length).filterMap
        (Bracket.warningAt shape.stackLimit text.toList) ∧
      (∀ i j, Bracket.Closes text.toList i j →
        ∀ e ∈ warned, e ≠ .pushDropped shape.stackLimit j ∧ e ≠ .popUnderflow j) ∧
      warned.countP Event.isUnderflow = read.value.strays := by
  intro read warned
  have hwarned : warned = Bracket.warnings shape.stackLimit 0 0 (Command.ofText text) :=
    shape.warnings_interpret text
  have hsymbols : warned = (List.range text.toList.length).filterMap
      (Bracket.warningAt shape.stackLimit text.toList) :=
    hwarned.trans (Bracket.warnings_eq_filterMap shape.stackLimit text.toList)
  refine ⟨hsymbols, fun i j hcloses e he => ?_, ?_⟩
  · rw [hsymbols, List.mem_filterMap] at he
    obtain ⟨k, -, hk⟩ := he
    have hne : k ≠ j := by
      rintro rfl
      cases (hcloses.warningAt_eq_none shape.stackLimit).symm.trans hk
    rcases Bracket.eq_of_mem_warningAt hk with rfl | rfl
    · simp [hne]
    · simp [hne]
  · rw [hwarned, Bracket.countP_warnings]
    exact (shape.strays_skeleton (Command.ofText text)).symm

/-- With room for one branch the second `[` is dropped.  The first `]` belongs to it, the
second one to the branch that was saved, and the third one to none. -/
theorem warns_at_offenders_crowded :
    Bracket.Closes "[é[F]]]".toList 2 4 ∧
      (({ Shape.slender with stackLimit := 1 } : Shape).interpret "[é[F]]]").events.filter
        (·.level = .warn) = [.pushDropped 1 2, .popUnderflow 6] ∧
      ∀ e ∈ (({ Shape.slender with stackLimit := 1 } : Shape).interpret "[é[F]]]").events.filter
        (·.level = .warn), e ≠ .pushDropped 1 4 ∧ e ≠ .popUnderflow 4 := by
  have hcloses : Bracket.Closes "[é[F]]]".toList 2 4 := by decide
  obtain ⟨hwarned, hclosed, -⟩ :=
    warns_at_offenders { Shape.slender with stackLimit := 1 } "[é[F]]]"
  exact ⟨hcloses, hwarned.trans (by decide), hclosed 2 4 hcloses⟩

end Arbor
