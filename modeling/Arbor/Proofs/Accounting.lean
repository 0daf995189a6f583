import Arbor.Proofs.Stack

/-!
# Bracket accounting

A skeleton says how many `]` were stray and how many branches stayed open.  Both
numbers belong to the text: the stack limit has no part in them.

*Stray brackets.*  A walk counts one at exactly the places that a reading flags.

*Open brackets.*  The branches open at the end are the `[` without a partner
(`Bracket.countP_unclosed`).

*Balance.*  Brackets opened and closed add up (`Bracket.level_balance`), and both
numbers are zero if the brackets alone make a well bracketed text.

`accounts_exact` puts all of this together.
-/

namespace Arbor

/-! ## Brackets without a partner -/

theorem Ragged.exists_close {r : Ragged} (h : r.behindStrays ≠ []) :
    ∃ j, r.symbols[j]? = some ']' ∧ Bracket.WellBracketed (r.symbols.take j) := by
  obtain ⟨t, ts, hstrays⟩ := List.exists_cons_of_ne_nil h
  exact ⟨r.first.symbols.length, by simp [symbols, hstrays], r.first, by simp [symbols, hstrays]⟩

namespace Bracket

/-- No `]` closes the `[` at the position. -/
def Unclosed (symbols : List Char) (i : Nat) : Prop :=
  symbols[i]? = some '[' ∧ ∀ j < symbols.length, ¬ Closes symbols i j

instance (symbols : List Char) : DecidablePred (Unclosed symbols) :=
  fun _ => inferInstanceAs (Decidable (_ ∧ _))

theorem Closes.lt_length {symbols : List Char} {i j : Nat} (h : Closes symbols i j) :
    j < symbols.length :=
  (List.getElem?_eq_some_iff.mp h.closes).1

theorem unclosed_iff {symbols : List Char} {i : Nat} :
    Unclosed symbols i ↔ symbols[i]? = some '[' ∧ ∀ j, ¬ Closes symbols i j :=
  and_congr_right fun _ => ⟨fun h j hj => h j hj.lt_length hj, fun h j _ => h j⟩

theorem closes_cons_succ {c : Char} {symbols : List Char} {i j : Nat} :
    Closes (c :: symbols) (i + 1) (j + 1) ↔ Closes symbols i j := by
  simp [closes_iff_and]

theorem closes_cons_zero {c : Char} {symbols : List Char} {j : Nat} :
    Closes (c :: symbols) 0 (j + 1) ↔
      c = '[' ∧ symbols[j]? = some ']' ∧ WellBracketed (symbols.take j) := by
  simp [closes_iff_and]

theorem unclosed_cons_succ {c : Char} {symbols : List Char} {i : Nat} :
    Unclosed (c :: symbols) (i + 1) ↔ Unclosed symbols i := by
  rw [unclosed_iff, unclosed_iff, List.getElem?_cons_succ]
  refine and_congr_right fun _ => ⟨fun h j hj => h (j + 1) (closes_cons_succ.mpr hj), ?_⟩
  intro h j hj
  cases j with
  | zero => exact absurd hj.lt (Nat.not_lt_zero _)
  | succ j => exact h j (closes_cons_succ.mp hj)

/-- A `]` that belongs to a `[` before the text is a stray one of the text. -/
theorem exists_close_iff {symbols : List Char} :
    (∃ j, symbols[j]? = some ']' ∧ WellBracketed (symbols.take j)) ↔
      (Ragged.ofSymbols symbols).behindStrays ≠ [] := by
  constructor
  · rintro ⟨j, hclose, t, ht⟩ hnil
    have hcount := Ragged.count_flags (Ragged.ofSymbols symbols)
    rw [hnil, Ragged.commands_ofSymbols, ← take_cons_drop hclose, ← ht, List.map_append,
      flags_append] at hcount
    have hcommands : t.symbols.map .ofSymbol = t.commands := rfl
    simp [hcommands] at hcount
  · intro hstrays
    have hclose := Ragged.exists_close hstrays
    rw [Ragged.symbols_ofSymbols] at hclose
    exact hclose

theorem unclosed_cons_zero {c : Char} {symbols : List Char} :
    Unclosed (c :: symbols) 0 ↔ c = '[' ∧ (Ragged.ofSymbols symbols).behindStrays = [] := by
  rw [unclosed_iff, List.getElem?_cons_zero, Option.some_inj]
  refine and_congr_right fun hopen => ?_
  constructor
  · intro h
    refine Classical.byContradiction fun hstrays => ?_
    obtain ⟨j, hj⟩ := exists_close_iff.mpr hstrays
    exact h (j + 1) (closes_cons_zero.mpr ⟨hopen, hj⟩)
  · intro hnil j hj
    cases j with
    | zero => exact absurd hj.lt (Nat.not_lt_zero _)
    | succ j => exact exists_close_iff.mp ⟨j, (closes_cons_zero.mp hj).2⟩ hnil

/-- The branches open at the end are the `[` without a partner. -/
theorem countP_unclosed (symbols : List Char) :
    (List.range symbols.length).countP (Unclosed symbols ·) =
      openAtEnd (symbols.map .ofSymbol) := by
  rw [openAtEnd_eq, ← Ragged.commands_ofSymbols, Ragged.level_commands]
  induction symbols with
  | nil => rfl
  | cons c symbols ih =>
    rw [List.length_cons, List.range_succ_eq_map, List.countP_cons, List.countP_map,
      Ragged.ofSymbols_cons, Ragged.length_behindOpen_cons, ← ih]
    simp only [Function.comp_def, unclosed_cons_succ, unclosed_cons_zero, decide_eq_true_eq]

/-! ## Balance -/

theorem level_balance_step (depth : Nat) (c : Command) :
    depth + [c].count .push + (isStray depth c).toNat = [c].count .pop + level depth c := by
  cases c with
  | pop => cases depth <;> simp [Nat.add_comm]
  | push => simp
  | draw => simp [level, isStray]
  | move => simp [level, isStray]
  | turn _ => simp [level, isStray]
  | ignore => simp [level, isStray]

/-- What is open before a text and opened in it is closed in it or stays open. -/
theorem level_balance (depth : Nat) (cs : List Command) :
    depth + cs.count .push + (flags depth cs).count true =
      cs.count .pop + cs.foldl level depth := by
  induction cs generalizing depth with
  | nil => simp
  | cons c cs ih =>
    have hstep := level_balance_step depth c
    have hrest := ih (level depth c)
    rw [← List.singleton_append, List.count_append, List.count_append, List.singleton_append,
      count_flags_cons, List.foldl_cons]
    omega

/-- Whether a symbol is a bracket. -/
def isBracket (c : Char) : Bool := c == '[' || c == ']'

theorem plain_of_not_isBracket {c : Char} (h : isBracket c = false) :
    Command.ofSymbol c ≠ .push ∧ Command.ofSymbol c ≠ .pop :=
  Plain.command_plain ⟨c, by simpa [isBracket] using h⟩

theorem level_filter (symbols : List Char) (depth : Nat) :
    ((symbols.filter isBracket).map .ofSymbol).foldl level depth =
      (symbols.map .ofSymbol).foldl level depth := by
  induction symbols generalizing depth with
  | nil => rfl
  | cons c symbols ih =>
    cases hc : isBracket c with
    | true => simp [hc, ih]
    | false =>
      have hplain := plain_of_not_isBracket hc
      simp [hc, ih, level_of_plain hplain]

theorem count_flags_filter (symbols : List Char) (depth : Nat) :
    (flags depth ((symbols.filter isBracket).map .ofSymbol)).count true =
      (flags depth (symbols.map .ofSymbol)).count true := by
  induction symbols generalizing depth with
  | nil => rfl
  | cons c symbols ih =>
    cases hc : isBracket c with
    | true => simp [hc, -flags_cons, count_flags_cons, ih]
    | false =>
      have hplain := plain_of_not_isBracket hc
      simp [hc, ih, level_of_plain hplain, isStray_of_ne hplain.2]

/-- Well bracketed are the texts whose brackets alone are. -/
theorem wellBracketed_filter {symbols : List Char} :
    WellBracketed (symbols.filter isBracket) ↔ WellBracketed symbols := by
  rw [wellBracketed_iff, wellBracketed_iff, count_flags_filter, level_filter]

end Bracket

/-- A skeleton is balanced if its text is well bracketed, and only then. -/
theorem Shape.isBalanced_skeleton (shape : Shape) (symbols : List Char) :
    (shape.skeleton (symbols.map .ofSymbol)).isBalanced = true ↔
      Bracket.WellBracketed symbols := by
  rw [Bracket.wellBracketed_iff, Skeleton.isBalanced, Bool.and_eq_true, beq_iff_eq, beq_iff_eq,
    strays_skeleton, unclosed_skeleton]

/-! ## Position by position -/

theorem Bracket.getElem?_flags (depth : Nat) (cs : List Command) (i : Nat) :
    (flags depth cs)[i]? = cs[i]?.map (isStray ((cs.take i).foldl level depth)) := by
  induction cs generalizing depth i with
  | nil => rfl
  | cons c cs ih =>
    cases i with
    | zero => rfl
    | succ i => simpa using ih (level depth c) i

/-- A walk counts one stray bracket more behind a flagged position, and none behind
any other. -/
theorem Walk.strays_take_succ (shape : Shape) {cs : List Command} {i : Nat} {flag : Bool}
    (h : (Bracket.strays cs)[i]? = some flag) :
    (start.run shape (cs.take (i + 1))).strays =
      (start.run shape (cs.take i)).strays + flag.toNat := by
  rw [Bracket.strays_eq_flags, Bracket.getElem?_flags, Option.map_eq_some_iff] at h
  obtain ⟨c, hc, rfl⟩ := h
  have hdepth := (atDepth_start shape.stackLimit).run (cs.take i)
  rw [List.take_add_one, hc, run_append]
  exact hdepth.strays_step c

/-- A skeleton counts the stray brackets that a reading flags, and a walk counts them
where they are flagged.  What stays open are the `[` that no `]` closes.  Both
numbers are the same for every stack limit, brackets opened and closed add up, and
a skeleton is balanced if and only if the brackets alone are well bracketed. -/
theorem accounts_exact (shape : Shape) (text : String) :
    let cs := Command.ofText text
    let drawn := (shape.interpret text).value
    drawn.strays = (Bracket.strays cs).count true ∧
      (∀ i flag, (Bracket.strays cs)[i]? = some flag →
        (Walk.start.run shape (cs.take (i + 1))).strays =
          (Walk.start.run shape (cs.take i)).strays + flag.toNat) ∧
      drawn.unclosed =
        (List.range text.toList.length).countP (Bracket.Unclosed text.toList ·) ∧
      (∀ limit, let other := (({ shape with stackLimit := limit }).interpret text).value
        other.strays = drawn.strays ∧ other.unclosed = drawn.unclosed) ∧
      text.toList.count '[' + drawn.strays = text.toList.count ']' + drawn.unclosed ∧
      (drawn.isBalanced = true ↔
        Bracket.WellBracketed (text.toList.filter Bracket.isBracket)) := by
  intro cs drawn
  have hstrays : ∀ s : Shape, (s.skeleton cs).strays = (Bracket.strays cs).count true := by
    intro s
    rw [s.strays_skeleton, Bracket.strays_eq_flags]
  have hunclosed : ∀ s : Shape, (s.skeleton cs).unclosed = Bracket.openAtEnd cs := by
    intro s
    rw [s.unclosed_skeleton, Bracket.openAtEnd_eq]
  refine ⟨hstrays shape, fun i flag => Walk.strays_take_succ shape, ?_, ?_, ?_, ?_⟩
  · rw [Bracket.countP_unclosed]
    exact hunclosed shape
  · intro limit
    exact ⟨(hstrays _).trans (hstrays shape).symm, (hunclosed _).trans (hunclosed shape).symm⟩
  · have hbalance := Bracket.level_balance 0 cs
    have hopen : cs.count .push = _ := Command.count_push_ofText text
    have hclose : cs.count .pop = _ := Command.count_pop_ofText text
    have hs : drawn.strays = _ := shape.strays_skeleton cs
    have hu : drawn.unclosed = _ := shape.unclosed_skeleton cs
    omega
  · rw [Bracket.wellBracketed_filter]
    exact shape.isBalanced_skeleton text.toList

/-- With room for one branch the first `]` closes the dropped one and the second one
the other, so the third one is stray. -/
theorem accounts_exact_crowded :
    (Bracket.strays (Command.ofText "[F[F]]]F["))[6]? = some true ∧
      (Walk.start.run { Shape.slender with stackLimit := 1 }
        ((Command.ofText "[F[F]]]F[").take 7)).strays =
      (Walk.start.run { Shape.slender with stackLimit := 1 }
        ((Command.ofText "[F[F]]]F[").take 6)).strays + 1 :=
  ⟨by decide, (accounts_exact { Shape.slender with stackLimit := 1 } "[F[F]]]F[").2.1 6 true
    (by decide)⟩

end Arbor
