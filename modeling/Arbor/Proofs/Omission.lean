/-!
# Lists without some entries

Which entries are left out is said by their positions, since two equal entries of a list
need not share their fate.  `leaveOut` goes along the list: behind the first entry the
positions count one less.
-/

namespace Arbor

/-- A list without the entries at some positions. -/
def leaveOut {α : Type} (out : Nat → Bool) (xs : List α) : List α :=
  (xs.zipIdx.filter fun (_, k) => !out k).map Prod.fst

variable {α : Type} {out : Nat → Bool}

theorem leaveOut_tail (out : Nat → Bool) (xs : List α) :
    ((xs.zipIdx 1).filter fun (_, k) => !out k).map Prod.fst =
      leaveOut (fun k => out (k + 1)) xs := by
  rw [leaveOut, List.zipIdx_succ, List.filter_map, List.map_map]
  rfl

theorem leaveOut_cons_of_out (h : out 0 = true) (x : α) (xs : List α) :
    leaveOut out (x :: xs) = leaveOut (fun k => out (k + 1)) xs := by
  rw [← leaveOut_tail, leaveOut, List.zipIdx_cons, List.filter_cons_of_neg (by simp [h])]

theorem leaveOut_cons_of_not_out (h : out 0 = false) (x : α) (xs : List α) :
    leaveOut out (x :: xs) = x :: leaveOut (fun k => out (k + 1)) xs := by
  rw [← leaveOut_tail, leaveOut, List.zipIdx_cons, List.filter_cons_of_pos (by simp [h]),
    List.map_cons]

/-- All entries left out have some property. -/
def AllOut (out : Nat → Bool) (p : α → Prop) (xs : List α) : Prop :=
  ∀ k x, out k = true → xs[k]? = some x → p x

theorem AllOut.head {p : α → Prop} {x : α} {xs : List α} (h : AllOut out p (x :: xs))
    (hout : out 0 = true) : p x := h 0 x hout rfl

theorem AllOut.tail {p : α → Prop} {x : α} {xs : List α} (h : AllOut out p (x :: xs)) :
    AllOut (fun k => out (k + 1)) p xs := fun k y hout hy => h (k + 1) y hout hy

end Arbor
