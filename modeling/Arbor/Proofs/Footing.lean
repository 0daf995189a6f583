import Arbor.Proofs.Strokes

/-!
# Footing

A turtle that stands on a stroke is at its tip.  So the next stroke starts where
its parent ends, to the last bit, whatever the shape and whatever the text.

The invariant is `Walk.Footed`: it speaks of the moving turtle and of every saved
one, since a `]` may bring any of them back.  A drawing step gives the moving
turtle a new footing, a moving step takes its footing away, and nothing else
touches a turtle's position or its memory.

`parent_tip_eq_base` states both the invariant and what follows for the skeleton.
-/

namespace Arbor

/-- If the turtle stands on a stroke, the stroke is there and ends at the turtle. -/
def Turtle.Footed (strokes : Array Stroke) (t : Turtle) : Prop :=
  ∀ k, t.standsOn = some k → ∃ s, strokes[k]? = some s ∧ s.tip = t.position

theorem Turtle.Footed.push {strokes : Array Stroke} {t : Turtle} (h : t.Footed strokes)
    (s : Stroke) : t.Footed (strokes.push s) := by
  intro k hk
  obtain ⟨s', hs', htip⟩ := h k hk
  obtain ⟨hlt, -⟩ := Array.getElem?_eq_some_iff.mp hs'
  refine ⟨s', ?_, htip⟩
  rw [Array.getElem?_push_lt hlt, ← hs', Array.getElem?_eq_getElem hlt]

namespace Walk

/-- The moving turtle and the saved ones. -/
def turtles (w : Walk) : List Turtle := w.turtle :: w.saved

/-- No turtle of the walk has lost its footing. -/
def Footed (w : Walk) : Prop := ∀ t ∈ w.turtles, t.Footed w.strokes

theorem footed_start : start.Footed := by
  intro t ht k hk
  rw [turtles, List.mem_singleton.mp ht] at *
  cases hk

theorem Footed.draw {w : Walk} (h : w.Footed) (shape : Shape) : (w.step shape .draw).Footed := by
  intro t ht
  rw [strokes_step_draw]
  rcases List.mem_cons.mp ht with rfl | ht
  · intro k hk
    cases hk
    exact ⟨_, Array.getElem?_push_size, rfl⟩
  · exact (h t (List.mem_cons_of_mem _ ht)).push _

theorem Footed.push {w : Walk} (h : w.Footed) (limit : Nat) : (w.push limit).Footed := by
  intro t ht
  rw [strokes_push]
  by_cases hroom : w.saved.length < limit
  · rw [push_of_room hroom] at ht
    rcases List.mem_cons.mp ht with rfl | ht
    · exact h _ List.mem_cons_self
    · exact h t ht
  · rw [push_of_full hroom] at ht
    exact h t ht

theorem Footed.pop {w : Walk} (h : w.Footed) : w.pop.Footed := by
  intro t ht
  rw [strokes_pop]
  cases hd : w.dropped with
  | succ dropped =>
    rw [pop_of_dropped hd] at ht
    exact h t ht
  | zero =>
    cases hs : w.saved with
    | nil =>
      rw [pop_of_nil hd hs] at ht
      exact h t ht
    | cons turtle saved =>
      rw [pop_of_cons hd hs] at ht
      apply h t
      rw [turtles, hs]
      exact List.mem_cons_of_mem _ ht

/-- One command keeps the footing. -/
theorem Footed.step {w : Walk} (h : w.Footed) (shape : Shape) (c : Command) :
    (w.step shape c).Footed := by
  cases c with
  | draw => exact h.draw shape
  | move =>
    intro t ht
    rcases List.mem_cons.mp ht with rfl | ht
    · intro k hk
      cases hk
    · exact h t (List.mem_cons_of_mem _ ht)
  | turn u =>
    intro t ht
    rcases List.mem_cons.mp ht with rfl | ht
    · intro k hk
      have hk' : w.turtle.standsOn = some k := by
        rw [← hk]
        exact (Turn.standsOn_apply ..).symm
      obtain ⟨s, hs, htip⟩ := h _ List.mem_cons_self k hk'
      exact ⟨s, hs, htip.trans (Turn.position_apply ..).symm⟩
    · exact h t (List.mem_cons_of_mem _ ht)
  | push => exact h.push shape.stackLimit
  | pop => exact h.pop
  | ignore => exact h

theorem Footed.run {w : Walk} (h : w.Footed) (shape : Shape) (cs : List Command) :
    (w.run shape cs).Footed := by
  induction cs generalizing w with
  | nil => exact h
  | cons c cs ih => exact ih (h.step shape c)

end Walk

/-- A link was made on a footing: its parent is an earlier stroke that ends where the
child's stroke begins. -/
theorem Shape.exists_strokes_of_parentOf {shape : Shape} {cs : List Command} {i p : Nat}
    (h : (shape.skeleton cs).parentOf i = some p) :
    p < i ∧ ∃ child parent, (Walk.start.run shape cs).strokes[i]? = some child ∧
      (Walk.start.run shape cs).strokes[p]? = some parent ∧ child.base = parent.tip := by
  obtain ⟨us, vs, rfl, rfl, hp⟩ := Shape.exists_draw_of_parentOf h
  obtain ⟨s, hs, htip⟩ := Walk.footed_start.run shape us _ List.mem_cons_self p hp
  have hlt := (Array.getElem?_eq_some_iff.mp hs).1
  have hparent := Walk.getElem?_strokes_run shape (.draw :: vs) hlt
  rw [← Walk.run_append, hs] at hparent
  exact ⟨hlt, _, _, Walk.getElem?_strokes_draw shape us vs Walk.start, hparent, htip.symm⟩

/-- In every state of a walk each turtle that stands on a stroke is at the tip of
an earlier stroke.  So every parent of a segment is an earlier segment, and its
tip is the segment's base. -/
theorem parent_tip_eq_base (shape : Shape) (text : String) :
    (∀ cs, cs <+: Command.ofText text → ∀ t ∈ (Walk.start.run shape cs).turtles,
      ∀ k, t.standsOn = some k → k < (Walk.start.run shape cs).strokes.size ∧
        ∃ s, (Walk.start.run shape cs).strokes[k]? = some s ∧ t.position = s.tip) ∧
    ∀ i p, (shape.interpret text).value.parentOf i = some p →
      p < i ∧ ∃ child parent, (shape.interpret text).value.segments[i]? = some child ∧
        (shape.interpret text).value.segments[p]? = some parent ∧ child.base = parent.tip := by
  constructor
  · intro cs _ t ht k hk
    obtain ⟨s, hs, htip⟩ := Walk.footed_start.run shape cs t ht k hk
    exact ⟨(Array.getElem?_eq_some_iff.mp hs).1, s, hs, htip.symm⟩
  · intro i p h
    rw [Shape.value_interpret] at h ⊢
    obtain ⟨hlt, child, parent, hchild, hparent, htip⟩ := Shape.exists_strokes_of_parentOf h
    exact ⟨hlt, _, _, Shape.getElem?_segments_of_stroke hchild,
      Shape.getElem?_segments_of_stroke hparent, htip⟩

/-- Both branches of a fork start where the trunk ends, the second one after the
first one was left. -/
theorem parent_tip_eq_base_fork :
    (Shape.slender.interpret "F[+F]F").value.parentOf 2 = some 0 ∧
      0 < 2 ∧ ∃ child parent,
        (Shape.slender.interpret "F[+F]F").value.segments[2]? = some child ∧
        (Shape.slender.interpret "F[+F]F").value.segments[0]? = some parent ∧
        child.base = parent.tip :=
  ⟨by decide, (parent_tip_eq_base Shape.slender "F[+F]F").2 2 0 (by decide)⟩

end Arbor
