import Arbor.Proofs.Positions
import Arbor.Proofs.Strokes
import Mathlib.Data.List.Forall2

/-!
# Overflow

A walk drops the pushes for which its stack has no room, and the lineage of the
text keeps them.  So a branch whose `[` was dropped is drawn onto the chain, and
behind its `]` the turtle stands on the branch where the lineage is back on the
chain.

*The turtle goes astray in one way only.*  A turtle that stands on something
stands on the live segment of the lineage, or on the segment drawn last
(`Walk.Tracks`).  A move takes its footing away and never gives it a wrong one.

*Nothing grows out of the segment drawn last.*  If the lineage has left that
segment, it does not come back to it (`Lineage.parentAt_ne_of_last`).

`Shape.parentOf_cases` is what follows for a skeleton: a link is one of the
lineage, or its parent has no child there.
-/

namespace Arbor

/-! ## The segment drawn last -/

namespace Lineage

/-- The links of the outer branches are the older ones. -/
def Sorted (t : Lineage) : Prop := t.links.Pairwise fun inner outer => outer ≤ inner

theorem sorted_start : start.Sorted := List.pairwise_singleton ..

theorem Sorted.read {t : Lineage} (h : t.Sorted) (hb : t.Bounded) (c : Command) :
    (t.read c).Sorted := by
  cases c with
  | draw =>
    refine List.pairwise_cons.mpr ⟨?_, (List.pairwise_cons.mp h).2⟩
    intro outer ho
    cases outer with
    | none => exact Option.none_le
    | some k => exact Option.some_le_some.mpr (Nat.le_of_lt (hb k (List.mem_cons_of_mem _ ho)))
  | push =>
    refine List.pairwise_cons.mpr ⟨?_, h⟩
    intro outer ho
    rcases List.mem_cons.mp ho with ho | ho
    · rw [ho]
      show t.live ≤ t.live
      cases t.live with
      | none => exact Option.none_le
      | some k => exact Option.some_le_some.mpr (Nat.le_refl k)
    · exact (List.pairwise_cons.mp h).1 outer ho
  | pop =>
    cases hs : t.saved with
    | nil =>
      rw [read_pop_of_nil hs]
      exact h
    | cons live saved =>
      rw [read_pop_of_cons hs]
      rw [Sorted, links, hs] at h
      exact (List.pairwise_cons.mp h).2
  | move => exact h
  | turn _ => exact h
  | ignore => exact h

theorem Sorted.run {t : Lineage} (h : t.Sorted) (hb : t.Bounded) (cs : List Command) :
    (t.run cs).Sorted := by
  induction cs generalizing t with
  | nil => exact h
  | cons c cs ih => exact ih (h.read hb c) (hb.read c)

/-- If something may still grow at the segment drawn last, the chain ends there. -/
theorem live_of_mem_links {t : Lineage} (h : t.Sorted) (hb : t.Bounded) {p : Nat}
    (hp : some p ∈ t.links) (hlast : p + 1 = t.size) : t.live = some p := by
  rcases List.mem_cons.mp hp with hp | hp
  · exact hp.symm
  · have hle := (List.pairwise_cons.mp h).1 _ hp
    cases hlive : t.live with
    | none =>
      rw [hlive] at hle
      exact absurd hle Option.not_some_le_none
    | some q =>
      rw [hlive, Option.some_le_some] at hle
      have hq := hb q (hlive ▸ List.mem_cons_self)
      rw [show q = p by omega]

/-- A command opens a link to no segment but the one it draws. -/
theorem mem_links_of_read {t : Lineage} {c : Command} {p : Nat} (h : some p ∈ (t.read c).links)
    (hp : p < t.size) : some p ∈ t.links := by
  cases c with
  | draw =>
    rcases List.mem_cons.mp h with h | h
    · cases h
      exact absurd hp (Nat.lt_irrefl _)
    · exact List.mem_cons_of_mem _ h
  | push =>
    rcases List.mem_cons.mp h with h | h
    · exact h ▸ List.mem_cons_self
    · exact h
  | pop =>
    cases hs : t.saved with
    | nil =>
      rw [read_pop_of_nil hs] at h
      exact h
    | cons live saved =>
      rw [read_pop_of_cons hs] at h
      rw [links, hs]
      exact List.mem_cons_of_mem _ h
  | move => exact h
  | turn _ => exact h
  | ignore => exact h

theorem mem_born {t : Lineage} {c : Command} {link : Option Nat} (h : link ∈ t.born c) :
    c = .draw ∧ link = t.live := by
  rcases Decidable.em (c = .draw) with rfl | hc
  · exact ⟨rfl, List.mem_singleton.mp h⟩
  · rw [born_of_ne hc] at h
    cases h

/-- Only the links say where the rest of a text may grow out of an older segment. -/
theorem mem_links_of_mem_parents {t : Lineage} {cs : List Command} {p : Nat}
    (h : some p ∈ t.parents cs) (hp : p < t.size) : some p ∈ t.links := by
  induction cs generalizing t with
  | nil => cases h
  | cons c cs ih =>
    rcases List.mem_append.mp h with h | h
    · rw [(mem_born h).2]
      exact List.mem_cons_self
    · have hsize : p < (t.read c).size := by
        rw [size_read]
        omega
      exact mem_links_of_read (ih h hsize) hp

/-- A segment is drawn after its parent. -/
theorem lt_size_of_mem_parents {t : Lineage} (hb : t.Bounded) {cs : List Command} {p : Nat}
    (h : some p ∈ t.parents cs) : p + 1 < (t.run cs).size := by
  induction cs generalizing t with
  | nil => cases h
  | cons c cs ih =>
    rcases List.mem_append.mp h with h | h
    · obtain ⟨rfl, hlive⟩ := mem_born h
      have hp := hb p (hlive ▸ List.mem_cons_self)
      have hsize : (t.read .draw).size = t.size + 1 := rfl
      rw [run_cons, size_run]
      omega
    · exact ih (hb.read c) h

/-- Nothing grows out of the segment drawn last, once the lineage has left it. -/
theorem parentAt_ne_of_last {us vs : List Command} {p : Nat}
    (hlast : p + 1 = (start.run us).size) (hlive : (start.run us).live ≠ some p) (i : Nat) :
    parentAt (us ++ vs) i ≠ some p := by
  intro h
  have hm := List.mem_of_getElem? (parentAt_eq_some.mp h)
  rw [parents_append] at hm
  rcases List.mem_append.mp hm with hm | hm
  · have hlt := lt_size_of_mem_parents bounded_start hm
    omega
  · have hlink := mem_links_of_mem_parents hm (by omega)
    exact hlive (live_of_mem_links (sorted_start.run bounded_start us) (bounded_start.run us)
      hlink hlast)

end Lineage

/-! ## The walk tracks the lineage -/

/-- If the turtle stands on a segment, a branch that goes on at the link goes on
there. -/
def Turtle.Agrees (t : Turtle) (link : Option Nat) : Prop :=
  ∀ p, t.standsOn = some p → link = some p

namespace Walk

/-- The chain goes on at a segment, and so does every branch whose dropped push is
still to be closed. -/
def OnChain (w : Walk) (t : Lineage) (p : Nat) : Prop :=
  ∀ link ∈ t.links.take (w.dropped + 1), link = some p

/-- The stack has run over, and the segment is the last one drawn. -/
def Astray (limit nesting : Nat) (w : Walk) (t : Lineage) (p : Nat) : Prop :=
  limit < nesting ∧ limit ≤ w.saved.length ∧ p + 1 = t.size

/-- A walk under a stack limit compared with the lineage, where no more branches
are open at once than the nesting says. -/
structure Tracks (limit nesting : Nat) (w : Walk) (t : Lineage) : Prop where
  /-- As many strokes as segments. -/
  size : w.strokes.size = t.size
  /-- Dropped pushes are open branches. -/
  dropped : w.dropped < t.links.length
  /-- Pushes are dropped only where there is no room. -/
  full : w.dropped = 0 ∨ limit ≤ w.saved.length
  /-- The outer branches are the saved ones. -/
  kept : List.Forall₂ Turtle.Agrees w.saved (t.links.drop (w.dropped + 1))
  /-- What the turtle may stand on. -/
  live : ∀ p, w.turtle.standsOn = some p → w.OnChain t p ∨ w.Astray limit nesting t p

theorem tracks_start (limit nesting : Nat) : start.Tracks limit nesting .start where
  size := rfl
  dropped := Nat.zero_lt_one
  full := .inl rfl
  kept := .nil
  live := by
    intro p hp
    cases hp

variable {limit nesting : Nat} {w : Walk} {t : Lineage}

theorem OnChain.live {p : Nat} (h : w.OnChain t p) : t.live = some p :=
  h t.live List.mem_cons_self

theorem Tracks.length_saved (h : w.Tracks limit nesting t) :
    w.saved.length + w.dropped = t.saved.length := by
  have hkept := h.kept.length_eq
  have hdropped := h.dropped
  rw [List.length_drop] at hkept
  rw [Lineage.links, List.length_cons] at hkept hdropped
  omega

theorem Tracks.draw (h : w.Tracks limit nesting t) (shape : Shape)
    (hnesting : t.saved.length ≤ nesting) :
    (w.step shape .draw).Tracks limit nesting (t.read .draw) where
  size := by
    rw [strokes_step_draw, Array.size_push, h.size]
    rfl
  dropped := h.dropped
  full := h.full
  kept := h.kept
  live := by
    intro p hp
    have hsize : w.strokes.size = p := Option.some.inj hp
    rw [h.size] at hsize
    rcases Nat.eq_zero_or_pos w.dropped with hd | hd
    · left
      intro link hlink
      change link ∈ (t.read .draw).links.take (w.dropped + 1) at hlink
      rw [hd] at hlink
      rw [List.mem_singleton.mp hlink, ← hsize]
      rfl
    · right
      have hfull := h.full.resolve_left (Nat.ne_of_gt hd)
      have hlength := h.length_saved
      exact ⟨by omega, hfull, congrArg (· + 1) hsize.symm⟩

theorem Tracks.push_of_room (h : w.Tracks limit nesting t) (hroom : w.saved.length < limit) :
    (w.push limit).Tracks limit nesting (t.read .push) := by
  have hd := h.full.resolve_right (Nat.not_le_of_lt hroom)
  have hon : ∀ p, w.turtle.standsOn = some p → t.live = some p := by
    intro p hp
    rcases h.live p hp with hon | ⟨-, hfull, -⟩
    · exact hon.live
    · exact absurd hfull (Nat.not_le_of_lt hroom)
  have hkept := h.kept
  rw [hd] at hkept
  rw [Walk.push_of_room hroom]
  refine ⟨h.size, ?_, .inl hd, ?_, ?_⟩
  · show w.dropped < _
    rw [hd]
    exact Nat.zero_lt_succ _
  · show List.Forall₂ _ _ (List.drop (w.dropped + 1) _)
    rw [hd]
    exact .cons hon hkept
  · intro p hp
    left
    intro link hlink
    change link ∈ (t.read .push).links.take (w.dropped + 1) at hlink
    rw [hd] at hlink
    rw [List.mem_singleton.mp hlink]
    exact hon p hp

theorem Tracks.push_of_full (h : w.Tracks limit nesting t) (hfull : ¬ w.saved.length < limit) :
    (w.push limit).Tracks limit nesting (t.read .push) := by
  rw [Walk.push_of_full hfull]
  refine ⟨h.size, Nat.succ_lt_succ h.dropped, .inr (Nat.le_of_not_lt hfull), h.kept, ?_⟩
  intro p hp
  refine (h.live p hp).imp_left fun hon link hlink => ?_
  rcases List.mem_cons.mp hlink with rfl | hlink
  · exact hon.live
  · exact hon link hlink

theorem Tracks.pop_of_dropped (h : w.Tracks limit nesting t) {dropped : Nat}
    (hd : w.dropped = dropped + 1) : w.pop.Tracks limit nesting (t.read .pop) := by
  rw [Walk.pop_of_dropped hd]
  obtain ⟨hsize, hdropped, hfull, hkept, hlive⟩ := h
  rw [hd] at hdropped hkept
  cases hs : t.saved with
  | nil =>
    rw [Lineage.links, hs] at hdropped
    exact absurd hdropped (by simp)
  | cons live saved =>
    rw [Lineage.links, hs] at hdropped hkept
    rw [Lineage.read_pop_of_cons hs]
    refine ⟨hsize, Nat.lt_of_succ_lt_succ hdropped, ?_, hkept, ?_⟩
    · exact .inr (hfull.resolve_left (by omega))
    · intro p hp
      refine (hlive p hp).imp_left fun hon link hlink => ?_
      apply hon link
      rw [hd, Lineage.links, hs]
      exact List.mem_cons_of_mem _ hlink

theorem Tracks.pop_of_kept (h : w.Tracks limit nesting t) (hd : w.dropped = 0) :
    w.pop.Tracks limit nesting (t.read .pop) := by
  have hkept : w.saved.Forall₂ Turtle.Agrees t.saved := by
    have hkept := h.kept
    rw [hd] at hkept
    exact hkept
  cases hs : w.saved with
  | nil =>
    rw [hs, List.forall₂_nil_left_iff] at hkept
    rw [Walk.pop_of_nil hd hs, Lineage.read_pop_of_nil hkept]
    exact ⟨h.size, h.dropped, h.full, h.kept, h.live⟩
  | cons turtle saved =>
    rw [hs] at hkept
    obtain ⟨live, links, hlive, hlinks, ht⟩ := List.forall₂_cons_left_iff.mp hkept
    rw [Walk.pop_of_cons hd hs, Lineage.read_pop_of_cons ht]
    refine ⟨h.size, ?_, .inl hd, ?_, ?_⟩
    · show w.dropped < _
      rw [hd]
      exact Nat.zero_lt_succ _
    · show List.Forall₂ _ _ (List.drop (w.dropped + 1) _)
      rw [hd]
      exact hlinks
    · intro p hp
      left
      intro link hlink
      change link ∈ List.take (w.dropped + 1) (live :: links) at hlink
      rw [hd] at hlink
      rw [List.mem_singleton.mp hlink]
      exact hlive p hp

/-- One command keeps the walk on the track. -/
theorem Tracks.step (h : w.Tracks limit nesting t) {shape : Shape}
    (hlimit : shape.stackLimit = limit) {c : Command} (hnesting : t.saved.length ≤ nesting) :
    (w.step shape c).Tracks limit nesting (t.read c) := by
  cases c with
  | draw => exact h.draw shape hnesting
  | move =>
    refine ⟨h.size, h.dropped, h.full, h.kept, ?_⟩
    intro p hp
    cases hp
  | turn u =>
    refine ⟨h.size, h.dropped, h.full, h.kept, ?_⟩
    intro p hp
    exact h.live p ((Turn.standsOn_apply ..).symm.trans hp)
  | push =>
    obtain ⟨hsize, hdropped, hfull, hkept, hlive⟩ :
        (w.push shape.stackLimit).Tracks limit nesting (t.read .push) := by
      rw [hlimit]
      by_cases hroom : w.saved.length < limit
      · exact h.push_of_room hroom
      · exact h.push_of_full hroom
    exact ⟨hsize, hdropped, hfull, hkept, hlive⟩
  | pop =>
    obtain ⟨hsize, hdropped, hfull, hkept, hlive⟩ :
        w.pop.Tracks limit nesting (t.read .pop) := by
      cases hd : w.dropped with
      | zero => exact h.pop_of_kept hd
      | succ dropped => exact h.pop_of_dropped hd
    exact ⟨hsize, hdropped, hfull, hkept, hlive⟩
  | ignore => exact ⟨h.size, h.dropped, h.full, h.kept, h.live⟩

theorem Tracks.run (h : w.Tracks limit nesting t) {shape : Shape}
    (hlimit : shape.stackLimit = limit) {cs : List Command}
    (hnesting : Bracket.peak t.saved.length cs ≤ nesting) :
    (w.run shape cs).Tracks limit nesting (t.run cs) := by
  induction cs generalizing w t with
  | nil => exact h
  | cons c cs ih =>
    refine ih (h.step hlimit (Nat.le_trans (Bracket.le_peak ..) hnesting)) ?_
    rw [Lineage.length_saved_read]
    exact Bracket.peak_cons_le hnesting

end Walk

/-! ## Links of a skeleton and of its lineage -/

/-- A link of a skeleton is a link of the lineage, or the stack has run over and
its parent has no child in the lineage. -/
theorem Shape.parentOf_cases {shape : Shape} {cs : List Command} {i p : Nat}
    (h : (shape.skeleton cs).parentOf i = some p) :
    Lineage.parentAt cs i = some p ∨
      shape.stackLimit < Bracket.deepest cs ∧ ∀ j, Lineage.parentAt cs j ≠ some p := by
  obtain ⟨us, vs, rfl, rfl, hp⟩ := Shape.exists_draw_of_parentOf h
  have ht := (Walk.tracks_start shape.stackLimit (Bracket.deepest (us ++ .draw :: vs))).run rfl
    (Bracket.deepest_le_append us (.draw :: vs))
  rw [ht.size, Lineage.parentAt_draw]
  rcases ht.live p hp with hon | ⟨hover, -, hlast⟩
  · exact .inl hon.live
  · by_cases hlive : (Lineage.start.run us).live = some p
    · exact .inl hlive
    · exact .inr ⟨hover, Lineage.parentAt_ne_of_last hlast hlive⟩

/-- With room for all branches every link is one of the lineage. -/
theorem Shape.parentAt_of_parentOf {shape : Shape} {cs : List Command}
    (hroom : Bracket.deepest cs ≤ shape.stackLimit) {i p : Nat}
    (h : (shape.skeleton cs).parentOf i = some p) : Lineage.parentAt cs i = some p := by
  rcases Shape.parentOf_cases h with h | ⟨hover, -⟩
  · exact h
  · exact absurd hover (Nat.not_lt.mpr hroom)

end Arbor
