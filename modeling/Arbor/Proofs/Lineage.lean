import Arbor.Proofs.Depth
import Arbor.Taper

/-!
# Lineage

The taper is read from the end of a text and its tree is drawn from the front.
Both see the same tree, the *lineage* of the text: every `[` is kept, every `]`
that is not stray goes back to it, and moves change nothing.

*Forwards.*  A `Lineage` holds the segment at the end of the chain being drawn and
those at which the open branches go on.  `Lineage.parents` lists the parent of
each segment that the rest of a text draws.

*Backwards.*  `Taper.backwardFrom` reads the rest of a text with some branches
open before it.  Its counters belong to the open branches, the innermost first:
`reach k` is the largest counter of a branch that goes on at the segment `k`.

*Main statement.*  `tallest_parents` ties the two readings together: among the
segments that the rest of a text draws, those that grow out of `k` reach as high
above it as the counters say.  Over a whole text, each segment's depth is the
height of the lineage above it (`tallest_lineage`).
-/

namespace Arbor

/-! ## Forwards -/

/-- What is known of a tree while it is drawn. -/
structure Lineage where
  /-- The segment at the end of the chain, if the chain has one. -/
  live : Option Nat
  /-- The segments at which the open branches go on, the innermost first. -/
  saved : List (Option Nat)
  /-- The number of segments drawn. -/
  size : Nat

namespace Lineage

/-- Nothing is drawn yet. -/
def start : Lineage := ⟨none, [], 0⟩

/-- Reads one more command. -/
def read (t : Lineage) : Command → Lineage
  | .draw => { t with live := some t.size, size := t.size + 1 }
  | .push => { t with saved := t.live :: t.saved }
  | .pop =>
    match t.saved with
    | [] => t
    | live :: saved => { t with live := live, saved := saved }
  | _ => t

/-- The parent of the segment that a command draws, if it draws one. -/
def born (t : Lineage) : Command → List (Option Nat)
  | .draw => [t.live]
  | _ => []

/-- The parents of the segments that a command list draws, in drawing order. -/
def parents : Lineage → List Command → List (Option Nat)
  | _, [] => []
  | t, c :: cs => t.born c ++ parents (t.read c) cs

/-- The lineage after a command list. -/
def run (t : Lineage) (cs : List Command) : Lineage := cs.foldl read t

/-- The segments at which something may still grow, the nearest first. -/
def links (t : Lineage) : List (Option Nat) := t.live :: t.saved

/-- Only segments already drawn are linked to. -/
def Bounded (t : Lineage) : Prop := ∀ k, some k ∈ t.links → k < t.size

@[simp] theorem read_move (t : Lineage) : t.read .move = t := rfl

theorem read_pop_of_nil {t : Lineage} (h : t.saved = []) : t.read .pop = t := by
  rw [read, h]

theorem read_pop_of_cons {t : Lineage} {live : Option Nat} {saved : List (Option Nat)}
    (h : t.saved = live :: saved) : t.read .pop = { t with live := live, saved := saved } := by
  rw [read, h]

@[simp] theorem run_nil (t : Lineage) : t.run [] = t := rfl

@[simp] theorem run_cons (t : Lineage) (c : Command) (cs : List Command) :
    t.run (c :: cs) = (t.read c).run cs := rfl

@[simp] theorem length_saved_read (t : Lineage) (c : Command) :
    (t.read c).saved.length = Bracket.level t.saved.length c := by
  cases c with
  | pop => cases h : t.saved <;> simp [read, Bracket.level, h]
  | push => rfl
  | draw => rfl
  | move => rfl
  | turn _ => rfl
  | ignore => rfl

theorem born_of_ne {c : Command} (h : c ≠ .draw) (t : Lineage) : t.born c = [] := by
  cases c with
  | draw => exact absurd rfl h
  | move => rfl
  | turn _ => rfl
  | push => rfl
  | pop => rfl
  | ignore => rfl

theorem size_read (t : Lineage) (c : Command) :
    (t.read c).size = t.size + (t.born c).length := by
  cases c with
  | pop => cases h : t.saved <;> simp [read, born, h]
  | draw => rfl
  | move => rfl
  | turn _ => rfl
  | push => rfl
  | ignore => rfl

theorem bounded_start : start.Bounded := by
  intro k hk
  simp [links, start] at hk

theorem Bounded.read {t : Lineage} (h : t.Bounded) (c : Command) : (t.read c).Bounded := by
  intro k hk
  cases c with
  | draw =>
    rcases List.mem_cons.mp hk with hk | hk
    · cases hk
      exact Nat.lt_succ_self _
    · exact Nat.lt_succ_of_lt (h k (List.mem_cons_of_mem _ hk))
  | push =>
    rcases List.mem_cons.mp hk with hk | hk
    · exact h k (hk ▸ List.mem_cons_self)
    · exact h k hk
  | pop =>
    cases hs : t.saved with
    | nil =>
      rw [read_pop_of_nil hs] at hk ⊢
      exact h k hk
    | cons live saved =>
      rw [read_pop_of_cons hs] at hk ⊢
      exact h k (List.mem_cons_of_mem _ (hs ▸ hk))
  | move => exact h k hk
  | turn _ => exact h k hk
  | ignore => exact h k hk

theorem Bounded.run {t : Lineage} (h : t.Bounded) (cs : List Command) : (t.run cs).Bounded := by
  induction cs generalizing t with
  | nil => exact h
  | cons c cs ih => exact ih (h.read c)

theorem parents_append (t : Lineage) (cs ds : List Command) :
    t.parents (cs ++ ds) = t.parents cs ++ (t.run cs).parents ds := by
  induction cs generalizing t with
  | nil => rfl
  | cons c cs ih => rw [List.cons_append, parents, parents, ih, List.append_assoc, run_cons]

/-- Every segment drawn has its entry. -/
theorem size_run (t : Lineage) (cs : List Command) :
    (t.run cs).size = t.size + (t.parents cs).length := by
  induction cs generalizing t with
  | nil => rfl
  | cons c cs ih => rw [run_cons, ih, size_read, parents, List.length_append, Nat.add_assoc]

theorem length_parents (t : Lineage) (cs : List Command) :
    (t.parents cs).length = cs.count .draw := by
  induction cs generalizing t with
  | nil => rfl
  | cons c cs ih =>
    rw [parents, List.length_append, ih, List.count_cons]
    rcases Decidable.em (c = .draw) with rfl | h
    · exact Nat.add_comm ..
    · simp [born_of_ne h, h]

/-- A lineage does not see the moves. -/
theorem parents_unbroken (t : Lineage) (cs : List Command) :
    t.parents (Command.unbroken cs) = t.parents cs := by
  induction cs generalizing t with
  | nil => rfl
  | cons c cs ih =>
    rcases Decidable.em (c = .move) with rfl | h
    · rw [Command.unbroken_move, parents, read_move, ih]
      rfl
    · rw [Command.unbroken_cons h, parents, parents, ih]

end Lineage

/-! ## Backwards -/

namespace Taper

/-- The reading of the rest of a text, with some branches open before it. -/
def backwardFrom (depth : Nat) (cs : List Command) : Backward :=
  (cs.zip (Bracket.flags depth cs)).foldr Backward.read ⟨0, [], []⟩

theorem backward_eq (cs : List Command) : backward cs = backwardFrom 0 cs := by
  rw [backward, Bracket.strays_eq_flags, backwardFrom]

theorem ofCommands_congr {cs ds : List Command} (h : backwardFrom 0 cs = backwardFrom 0 ds) :
    ofCommands cs = ofCommands ds := by
  rw [ofCommands, ofCommands, backward_eq, backward_eq, h]

@[simp] theorem backwardFrom_nil (depth : Nat) : backwardFrom depth [] = ⟨0, [], []⟩ := rfl

@[simp] theorem backwardFrom_cons (depth : Nat) (c : Command) (cs : List Command) :
    backwardFrom depth (c :: cs) =
      (backwardFrom (Bracket.level depth c) cs).read (c, Bracket.isStray depth c) := rfl

/-- For each open branch the length of the longest chain that goes on there, the
innermost branch first.  Branches that nothing follows may be missing. -/
def Backward.counters (b : Backward) : List Nat := b.following :: b.saved

/-- The taper sees nothing but drawing commands and brackets. -/
theorem backwardFrom_filter {keep : Command → Bool}
    (hkeep : ∀ c, keep c = false → c ≠ .draw ∧ c ≠ .push ∧ c ≠ .pop) (depth : Nat)
    (cs : List Command) : backwardFrom depth (cs.filter keep) = backwardFrom depth cs := by
  induction cs generalizing depth with
  | nil => rfl
  | cons c cs ih =>
    cases hc : keep c with
    | true => rw [List.filter_cons_of_pos hc, backwardFrom_cons, backwardFrom_cons, ih]
    | false =>
      obtain ⟨hdraw, hplain⟩ := hkeep c hc
      rw [List.filter_cons_of_neg (ne_true_of_eq_false hc), ih, backwardFrom_cons,
        Bracket.level_of_plain hplain, read_of_plain hdraw hplain]

theorem ofCommands_filter {keep : Command → Bool}
    (hkeep : ∀ c, keep c = false → c ≠ .draw ∧ c ≠ .push ∧ c ≠ .pop) (cs : List Command) :
    ofCommands (cs.filter keep) = ofCommands cs :=
  ofCommands_congr (backwardFrom_filter hkeep 0 cs)

theorem ofCommands_unbroken (cs : List Command) :
    ofCommands (Command.unbroken cs) = ofCommands cs := by
  refine ofCommands_filter (fun c hc => ?_) cs
  obtain rfl : c = .move := by simpa using hc
  exact ⟨Command.noConfusion, Command.noConfusion, Command.noConfusion⟩

/-- Only a drawing command adds a depth. -/
theorem depths_read (b : Backward) (c : Command) (stray : Bool) :
    (b.read (c, stray)).depths = if c = .draw then b.following :: b.depths else b.depths := by
  cases c with
  | draw => rfl
  | push => cases h : b.saved <;> simp [Backward.read, h]
  | pop => cases stray <;> rfl
  | move => rfl
  | turn _ => rfl
  | ignore => rfl

/-- Every segment has its depth. -/
theorem length_depths (depth : Nat) (cs : List Command) :
    (backwardFrom depth cs).depths.length = cs.count .draw := by
  induction cs generalizing depth with
  | nil => rfl
  | cons c cs ih =>
    rw [backwardFrom_cons, depths_read, List.count_cons]
    rcases Decidable.em (c = .draw) with rfl | h
    · simp [ih]
    · simp [h, ih]

end Taper

/-! ## Both readings together -/

namespace Lineage

/-- How high the segments of a list that grow out of `k` reach above it, where
each entry is a segment's parent and its own height.  Without one it is zero. -/
def tallest (k : Nat) : List (Option Nat × Nat) → Nat
  | [] => 0
  | (parent, height) :: rest =>
    max (if parent = some k then height + 1 else 0) (tallest k rest)

/-- The largest counter of a branch that goes on at `k`. -/
def reach (k : Nat) : List (Option Nat) → List Nat → Nat
  | link :: links, counter :: counters =>
    max (if link = some k then counter else 0) (reach k links counters)
  | _, _ => 0

theorem reach_of_notMem {k : Nat} : ∀ {links : List (Option Nat)} (counters : List Nat),
    some k ∉ links → reach k links counters = 0
  | [], _, _ => rfl
  | _ :: _, [], _ => rfl
  | link :: links, counter :: counters, h => by
    have hne : link ≠ some k := fun he => h (he ▸ List.mem_cons_self)
    rw [reach, if_neg hne, reach_of_notMem counters (fun hk => h (List.mem_cons_of_mem _ hk))]
    rfl

/-- A command that draws nothing leaves every reach as it is: what the lineage
does to the open branches, the backward reading does to their counters. -/
theorem reach_read {c : Command} (hc : c ≠ .draw) (t : Lineage) (b : Taper.Backward) (k : Nat) :
    reach k (t.read c).links b.counters =
      reach k t.links (b.read (c, Bracket.isStray t.saved.length c)).counters := by
  cases c with
  | draw => exact absurd rfl hc
  | push =>
    cases hb : b.saved with
    | nil => simp [read, links, Taper.Backward.read, Taper.Backward.counters, hb, reach]
    | cons outer saved =>
      simp only [read, links, Taper.Backward.read, Taper.Backward.counters, hb, reach]
      split <;> omega
  | pop =>
    cases ht : t.saved with
    | nil => simp [read, links, Taper.Backward.read, Bracket.isStray, ht]
    | cons live saved =>
      simp [read, links, Taper.Backward.read, Taper.Backward.counters, Bracket.isStray, ht, reach]
  | move => rfl
  | turn _ => rfl
  | ignore => rfl

/-- The segment that a drawing command adds has its depth for a height, and its
parent is reached one higher through it. -/
theorem tallest_draw {t : Lineage} (h : t.Bounded) (k : Nat) (b : Taper.Backward)
    (rest : List (Option Nat × Nat))
    (hrest : tallest k rest =
      if k < t.size + 1 then reach k (t.read .draw).links b.counters
      else b.depths.getD (k - (t.size + 1)) 0) :
    tallest k ((t.live, b.following) :: rest) =
      if k < t.size then reach k t.links (b.read (.draw, false)).counters
      else (b.read (.draw, false)).depths.getD (k - t.size) 0 := by
  have hlinks : (t.read .draw).links = some t.size :: t.saved := rfl
  have hcounters : (b.read (.draw, false)).counters = (b.following + 1) :: b.saved := rfl
  have hdepths : (b.read (.draw, false)).depths = b.following :: b.depths := rfl
  rw [hlinks, Taper.Backward.counters, reach] at hrest
  rw [tallest, hrest, hcounters, hdepths, links, reach]
  rcases Nat.lt_trichotomy k t.size with hk | hk | hk
  · -- An older segment: only the chain's end may be its child.
    have hne : some t.size ≠ some k := fun he => Nat.ne_of_gt hk (Option.some.inj he)
    rw [if_pos (Nat.lt_succ_of_lt hk), if_pos hk, if_neg hne, Nat.zero_max]
  · -- The new segment: of all open branches only the chain goes on at it.
    subst hk
    have hlive : t.live ≠ some t.size := fun he =>
      Nat.lt_irrefl _ (h t.size (he ▸ List.mem_cons_self))
    have hsaved : some t.size ∉ t.saved := fun hm =>
      Nat.lt_irrefl _ (h t.size (List.mem_cons_of_mem _ hm))
    rw [if_pos (Nat.lt_succ_self _), if_neg (Nat.lt_irrefl _), if_neg hlive, if_pos rfl,
      reach_of_notMem b.saved hsaved, Nat.sub_self, Nat.zero_max, Nat.max_zero]
    rfl
  · -- A later segment: the new one is not its child.
    have hlive : t.live ≠ some k := fun he =>
      Nat.lt_asymm hk (h k (he ▸ List.mem_cons_self))
    have hsub : k - t.size = k - (t.size + 1) + 1 := by omega
    rw [if_neg (Nat.not_lt.mpr hk), if_neg (Nat.lt_asymm hk), if_neg hlive, Nat.zero_max, hsub]
    rfl

/-- The segments that the rest of a text draws reach as high above an older
segment as the counters of its open branches say, and as high above a new one as
its own depth says. -/
theorem tallest_parents (cs : List Command) {t : Lineage} (h : t.Bounded) (k : Nat) :
    tallest k ((t.parents cs).zip (Taper.backwardFrom t.saved.length cs).depths) =
      if k < t.size then reach k t.links (Taper.backwardFrom t.saved.length cs).counters
      else (Taper.backwardFrom t.saved.length cs).depths.getD (k - t.size) 0 := by
  induction cs generalizing t with
  | nil =>
    have hr : reach k t.links [0] = 0 := by
      rw [links]
      cases t.saved <;> simp [reach]
    simp [parents, tallest, Taper.Backward.counters, hr]
  | cons c cs ih =>
    have ih := ih (h.read c)
    rw [length_saved_read] at ih
    rcases Decidable.em (c = .draw) with rfl | hc
    · exact tallest_draw h k _ _ ih
    · rw [size_read, born_of_ne hc, List.length_nil, Nat.add_zero, reach_read hc] at ih
      rw [parents, born_of_ne hc, List.nil_append, Taper.backwardFrom_cons, Taper.depths_read,
        if_neg hc]
      exact ih

/-- The lineage of a text, each segment with its depth: the parents as they are
read from the front, the depths as they are read from the end. -/
def withDepths (cs : List Command) : List (Option Nat × Nat) :=
  (start.parents cs).zip (Taper.backward cs).depths

/-- Each segment's depth is the height of the lineage above it. -/
theorem tallest_lineage (cs : List Command) (k : Nat) :
    tallest k (withDepths cs) = (Taper.backward cs).depths.getD k 0 := by
  rw [withDepths, Taper.backward_eq]
  exact (tallest_parents cs bounded_start k).trans (if_neg (Nat.not_lt_zero k))

end Lineage

end Arbor
