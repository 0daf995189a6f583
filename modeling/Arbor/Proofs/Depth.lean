import Arbor.Bracket

/-!
# Depth

How many branches are open changes with `[` and `]` only.  `level` is the change
that one command makes, and `peak` the largest number reached on the way.

*Flags.*  The stray brackets of a command list are found from the front, with
no branch open before the first command.  The taper is read from the end, so its
proofs look at the rest of a list, with some branches open before it.  `flags`
gives the stray brackets of such a rest.

*Nesting.*  `deepest` is the peak of a whole list.  It bounds the number of
branches open after every beginning of the list (`deepest_le_iff`), and moves do
not count (`deepest_unbroken`).
-/

namespace Arbor

/-! ## Moves left out -/

namespace Command

/-- The command list without its moves: the turtle draws on where it would have
lifted the pen. -/
def unbroken (cs : List Command) : List Command := cs.filter (· ≠ .move)

/-- The text without its ASCII small letters. -/
def unbrokenText (text : String) : String :=
  String.ofList (text.toList.filter fun c => !c.isLower)

theorem ofSymbol_eq_move_iff {c : Char} : ofSymbol c = .move ↔ c.isLower = true := by
  have hlower : c.isLower = true ↔ 'a' ≤ c ∧ c ≤ 'z' := by
    show (decide _ && decide _) = true ↔ _
    rw [Bool.and_eq_true, decide_eq_true_iff, decide_eq_true_iff]
    exact Iff.rfl
  rw [hlower]
  unfold ofSymbol
  by_cases hs : 'a' ≤ c ∧ c ≤ 'z'
  · have hc : ¬ ('A' ≤ c ∧ c ≤ 'Z') := fun h => absurd (Char.le_trans hs.1 h.2) (by decide)
    rw [if_neg hc, if_pos hs]
    exact iff_of_true rfl hs
  · refine iff_of_false ?_ hs
    rw [if_neg hs]
    split
    · exact Command.noConfusion
    · split <;> exact Command.noConfusion

theorem ofText_unbrokenText (text : String) :
    ofText (unbrokenText text) = unbroken (ofText text) := by
  rw [ofText, unbrokenText, String.toList_ofList, ofText, unbroken, List.filter_map]
  congr 1
  apply List.filter_congr
  intro c _
  rw [Bool.eq_iff_iff, Function.comp_apply, decide_eq_true_iff, Bool.not_eq_true']
  rw [Ne, ofSymbol_eq_move_iff, Bool.not_eq_true]

@[simp] theorem unbroken_nil : unbroken [] = [] := rfl

@[simp] theorem unbroken_move (cs : List Command) : unbroken (.move :: cs) = unbroken cs := by
  simp [unbroken]

theorem unbroken_cons {c : Command} (h : c ≠ .move) (cs : List Command) :
    unbroken (c :: cs) = c :: unbroken cs := by
  simp [unbroken, h]

theorem move_notMem_unbroken (cs : List Command) : Command.move ∉ unbroken cs := by
  simp [unbroken]

theorem count_draw_unbroken (cs : List Command) : (unbroken cs).count .draw = cs.count .draw :=
  List.count_filter (by decide)

end Command

namespace Bracket

/-! ## One command -/

/-- How many branches are open after one more command. -/
def level (depth : Nat) : Command → Nat
  | .push => depth + 1
  | .pop => depth - 1
  | _ => depth

/-- Whether a command is a stray `]`, with some branches open before it. -/
def isStray (depth : Nat) : Command → Bool
  | .pop => depth == 0
  | _ => false

@[simp] theorem level_push (depth : Nat) : level depth .push = depth + 1 := rfl

@[simp] theorem level_pop (depth : Nat) : level depth .pop = depth - 1 := rfl

@[simp] theorem isStray_push (depth : Nat) : isStray depth .push = false := rfl

@[simp] theorem isStray_pop_zero : isStray 0 .pop = true := rfl

@[simp] theorem isStray_pop_succ (depth : Nat) : isStray (depth + 1) .pop = false := rfl

theorem level_of_plain {c : Command} (h : c ≠ .push ∧ c ≠ .pop) (depth : Nat) :
    level depth c = depth := by
  cases c with
  | push => exact absurd rfl h.1
  | pop => exact absurd rfl h.2
  | draw => rfl
  | move => rfl
  | turn _ => rfl
  | ignore => rfl

theorem isStray_of_ne {c : Command} (h : c ≠ .pop) (depth : Nat) : isStray depth c = false := by
  cases c with
  | pop => exact absurd rfl h
  | draw => rfl
  | move => rfl
  | turn _ => rfl
  | push => rfl
  | ignore => rfl

theorem Reading.read_eq (r : Reading) (c : Command) :
    r.read c = ⟨level r.depth c, isStray r.depth c :: r.strays⟩ := by
  cases c with
  | pop =>
    cases h : r.depth with
    | zero => simp [Reading.read, level, isStray, h]
    | succ depth => simp [Reading.read, level, isStray, h]
  | draw => rfl
  | move => rfl
  | turn t => rfl
  | push => rfl
  | ignore => rfl

/-! ## Flags -/

/-- For each command of a list whether it is a stray `]`, with some branches open
before the first one. -/
def flags : Nat → List Command → List Bool
  | _, [] => []
  | depth, c :: cs => isStray depth c :: flags (level depth c) cs

@[simp] theorem flags_nil (depth : Nat) : flags depth [] = [] := rfl

@[simp] theorem flags_cons (depth : Nat) (c : Command) (cs : List Command) :
    flags depth (c :: cs) = isStray depth c :: flags (level depth c) cs := rfl

theorem flags_append (depth : Nat) (cs ds : List Command) :
    flags depth (cs ++ ds) = flags depth cs ++ flags (cs.foldl level depth) ds := by
  induction cs generalizing depth with
  | nil => rfl
  | cons c cs ih => simp [ih]

theorem count_flags_cons (depth : Nat) (c : Command) (cs : List Command) :
    (flags depth (c :: cs)).count true =
      (flags (level depth c) cs).count true + (isStray depth c).toNat := by
  rw [flags_cons, List.count_cons]
  cases isStray depth c <;> rfl

theorem strays_foldl (cs : List Command) (r : Reading) :
    (cs.foldl Reading.read r).strays = (flags r.depth cs).reverse ++ r.strays := by
  induction cs generalizing r with
  | nil => rfl
  | cons c cs ih =>
    rw [List.foldl_cons, ih, Reading.read_eq, flags, List.reverse_cons, List.append_assoc]
    rfl

/-- At the beginning of a text no branch is open. -/
theorem strays_eq_flags (cs : List Command) : strays cs = flags 0 cs := by
  rw [strays, reading, strays_foldl, List.append_nil, List.reverse_reverse]

/-! ## Nesting -/

theorem depth_foldl (cs : List Command) (r : Reading) :
    (cs.foldl Reading.read r).depth = cs.foldl level r.depth := by
  induction cs generalizing r with
  | nil => rfl
  | cons c cs ih => rw [List.foldl_cons, List.foldl_cons, ih, Reading.read_eq]

theorem openAtEnd_eq (cs : List Command) : openAtEnd cs = cs.foldl level 0 :=
  depth_foldl cs ⟨0, []⟩

/-- The largest number of branches open at once, with some open before the first
command. -/
def peak : Nat → List Command → Nat
  | depth, [] => depth
  | depth, c :: cs => max depth (peak (level depth c) cs)

/-- The largest number of branches open at once in a whole text. -/
def deepest (cs : List Command) : Nat := peak 0 cs

@[simp] theorem peak_nil (depth : Nat) : peak depth [] = depth := rfl

@[simp] theorem peak_cons (depth : Nat) (c : Command) (cs : List Command) :
    peak depth (c :: cs) = max depth (peak (level depth c) cs) := rfl

theorem le_peak (depth : Nat) (cs : List Command) : depth ≤ peak depth cs := by
  cases cs with
  | nil => exact Nat.le_refl _
  | cons c cs => exact Nat.le_max_left ..

theorem peak_append (depth : Nat) (cs ds : List Command) :
    peak depth (cs ++ ds) = max (peak depth cs) (peak (cs.foldl level depth) ds) := by
  induction cs generalizing depth with
  | nil => exact (Nat.max_eq_right (le_peak depth ds)).symm
  | cons c cs ih => simp [ih, Nat.max_assoc]

theorem peak_cons_le {depth n : Nat} {c : Command} {cs : List Command}
    (h : peak depth (c :: cs) ≤ n) : peak (level depth c) cs ≤ n :=
  Nat.le_trans (Nat.le_max_right ..) h

theorem peak_le_iff {n : Nat} : ∀ {depth : Nat} {cs : List Command},
    peak depth cs ≤ n ↔ ∀ ds, ds <+: cs → ds.foldl level depth ≤ n
  | depth, [] => by
    constructor
    · intro h ds hds
      rw [List.prefix_nil.mp hds]
      exact h
    · intro h
      exact h [] (List.prefix_refl [])
  | depth, c :: cs => by
    rw [peak, Nat.max_le, peak_le_iff]
    constructor
    · rintro ⟨hd, h⟩ ds hds
      cases ds with
      | nil => exact hd
      | cons b ds =>
        obtain ⟨rfl, hds'⟩ := List.cons_prefix_cons.mp hds
        exact h ds hds'
    · intro h
      refine ⟨h [] List.nil_prefix, fun ds hds => ?_⟩
      exact h (c :: ds) (List.cons_prefix_cons.mpr ⟨rfl, hds⟩)

/-- A bound on the nesting bounds the branches open after every beginning. -/
theorem deepest_le_iff {n : Nat} {cs : List Command} :
    deepest cs ≤ n ↔ ∀ ds, ds <+: cs → openAtEnd ds ≤ n := by
  simp only [openAtEnd_eq]
  exact peak_le_iff

theorem deepest_le_append (us vs : List Command) : deepest us ≤ deepest (us ++ vs) :=
  deepest_le_iff.mpr fun ds hds =>
    deepest_le_iff.mp (Nat.le_refl _) ds (hds.trans (List.prefix_append us vs))

theorem peak_unbroken (depth : Nat) (cs : List Command) :
    peak depth (Command.unbroken cs) = peak depth cs := by
  induction cs generalizing depth with
  | nil => rfl
  | cons c cs ih =>
    rcases Decidable.em (c = .move) with rfl | h
    · rw [Command.unbroken_move, ih, peak]
      exact (Nat.max_eq_right (le_peak depth cs)).symm
    · rw [Command.unbroken_cons h, peak, peak, ih]

@[simp] theorem deepest_unbroken (cs : List Command) :
    deepest (Command.unbroken cs) = deepest cs :=
  peak_unbroken 0 cs

end Bracket

end Arbor
