import Arbor.Proofs.Lineage

/-!
# Positions along the lineage

A taper gives each segment of a text a position between the root and the tips.
This module says where the positions lie in the lineage of the text, and nothing
else needs to know how they are computed.

* Every segment has a position, and a position is below the length of the taper.
  Together with the segment's depth it makes up the length
  (`position_iff_depth`).
* A segment lies behind its parent (`position_lt_of_parentAt`).
* Before the last position, some child lies right behind its parent
  (`exists_parentAt_of_position`), and some segment is at position zero
  (`exists_position_zero`).  So no position is skipped.
* The last position is that of the segments without children
  (`at_end_iff_childless`).
-/

namespace Arbor

/-! ## Depths along the lineage -/

namespace Lineage

theorem lt_tallest {k height : Nat} : ∀ {entries : List (Option Nat × Nat)},
    (some k, height) ∈ entries → height < tallest k entries
  | (parent, h) :: rest, hm => by
    rw [tallest]
    rcases List.mem_cons.mp hm with he | hm
    · cases he
      rw [if_pos rfl]
      exact Nat.le_max_left ..
    · exact Nat.lt_of_lt_of_le (lt_tallest hm) (Nat.le_max_right ..)

theorem exists_of_tallest_eq_succ {k height : Nat} : ∀ {entries : List (Option Nat × Nat)},
    tallest k entries = height + 1 → (some k, height) ∈ entries
  | [], h => by cases h
  | (parent, h) :: rest, he => by
    rw [tallest] at he
    by_cases hp : parent = some k
    · rw [if_pos hp] at he
      by_cases hh : h = height
      · rw [hp, hh]
        exact List.mem_cons_self
      · have hrest : tallest k rest = height + 1 := by omega
        exact List.mem_cons_of_mem _ (exists_of_tallest_eq_succ hrest)
    · rw [if_neg hp, Nat.zero_max] at he
      exact List.mem_cons_of_mem _ (exists_of_tallest_eq_succ he)

/-- The parent of a segment in the lineage of a text. -/
def parentAt (cs : List Command) (i : Nat) : Option Nat := ((start.parents cs)[i]?).join

theorem parentAt_eq_some {cs : List Command} {i p : Nat} :
    parentAt cs i = some p ↔ (start.parents cs)[i]? = some (some p) := by
  rw [parentAt, Option.join_eq_some_iff]

/-- The parent of a drawing command's segment is the live one before it. -/
theorem parentAt_draw (us vs : List Command) :
    parentAt (us ++ .draw :: vs) (start.run us).size = (start.run us).live := by
  rw [parentAt, parents_append, size_run, List.getElem?_append_right (by simp [start])]
  simp [start, parents, born]

theorem length_depths_eq (cs : List Command) :
    (Taper.backward cs).depths.length = (start.parents cs).length := by
  rw [Taper.backward_eq, Taper.length_depths, length_parents]

theorem mem_withDepths {cs : List Command} {i p d : Nat} (hp : parentAt cs i = some p)
    (hd : (Taper.backward cs).depths[i]? = some d) : (some p, d) ∈ withDepths cs := by
  apply List.mem_of_getElem? (i := i)
  rw [withDepths, List.getElem?_zip_eq_some]
  exact ⟨parentAt_eq_some.mp hp, hd⟩

/-- A segment is not as deep as its parent. -/
theorem depth_lt_of_parentAt {cs : List Command} {i p : Nat} (h : parentAt cs i = some p) :
    ∃ d e, (Taper.backward cs).depths[i]? = some d ∧
      (Taper.backward cs).depths[p]? = some e ∧ d < e := by
  have hi : i < (Taper.backward cs).depths.length := by
    obtain ⟨hi, -⟩ := List.getElem?_eq_some_iff.mp (parentAt_eq_some.mp h)
    rw [length_depths_eq]
    exact hi
  have hd : (Taper.backward cs).depths[i]? = some (Taper.backward cs).depths[i] :=
    List.getElem?_eq_getElem hi
  have hlt := lt_tallest (mem_withDepths h hd)
  rw [tallest_lineage, List.getD_eq_getElem?_getD] at hlt
  cases he : (Taper.backward cs).depths[p]? with
  | none =>
    rw [he] at hlt
    exact absurd hlt (Nat.not_lt_zero _)
  | some e =>
    rw [he] at hlt
    exact ⟨_, e, hd, rfl, hlt⟩

/-- A segment with some depth has a child that is one less deep. -/
theorem exists_parentAt_of_depth {cs : List Command} {p d : Nat}
    (h : (Taper.backward cs).depths[p]? = some (d + 1)) :
    ∃ i, parentAt cs i = some p ∧ (Taper.backward cs).depths[i]? = some d := by
  have ht : tallest p (withDepths cs) = d + 1 := by
    rw [tallest_lineage, List.getD_eq_getElem?_getD, h]
    rfl
  obtain ⟨i, hi⟩ := List.mem_iff_getElem?.mp (exists_of_tallest_eq_succ ht)
  obtain ⟨hp, hd⟩ := List.getElem?_zip_eq_some.mp hi
  exact ⟨i, parentAt_eq_some.mpr hp, hd⟩

end Lineage

/-! ## Positions from depths -/

namespace Taper

theorem le_foldl_max {depths : List Nat} {d : Nat} (h : d ∈ depths) :
    d ≤ depths.foldl max 0 := by
  cases depths with
  | nil => cases h
  | cons e rest =>
    rw [List.foldl_cons, Nat.zero_max]
    exact (List.max?_eq_some_iff.mp List.max?_cons').2 d h

theorem foldl_max_mem {depths : List Nat} (h : depths ≠ []) :
    depths.foldl max 0 ∈ depths := by
  cases depths with
  | nil => exact absurd rfl h
  | cons e rest =>
    rw [List.foldl_cons, Nat.zero_max]
    exact (List.max?_eq_some_iff.mp List.max?_cons').1

theorem positions_ofDepths_iff {depths : List Nat} {i a : Nat} :
    (ofDepths depths).positions[i]? = some a ↔
      ∃ d, depths[i]? = some d ∧ a + d + 1 = (ofDepths depths).length := by
  cases depths with
  | nil => simp [ofDepths]
  | cons e rest =>
    simp only [ofDepths, List.getElem?_toArray, List.getElem?_map, Option.map_eq_some_iff]
    constructor
    · rintro ⟨d, hd, rfl⟩
      have hle := le_foldl_max (List.mem_of_getElem? hd)
      exact ⟨d, hd, by omega⟩
    · rintro ⟨d, hd, hsum⟩
      exact ⟨d, hd, by omega⟩

/-- A segment's position and its depth make up the length of the taper. -/
theorem position_iff_depth {cs : List Command} {i a : Nat} :
    (ofCommands cs).positions[i]? = some a ↔
      ∃ d, (backward cs).depths[i]? = some d ∧ a + d + 1 = (ofCommands cs).length :=
  positions_ofDepths_iff

/-- Every segment has a position. -/
theorem size_positions (cs : List Command) :
    (ofCommands cs).positions.size = cs.count .draw := by
  rw [ofCommands, size_ofDepths, backward_eq, length_depths]

theorem lt_count_of_position {cs : List Command} {i a : Nat}
    (h : (ofCommands cs).positions[i]? = some a) : i < cs.count .draw := by
  obtain ⟨hi, -⟩ := Array.getElem?_eq_some_iff.mp h
  rwa [size_positions] at hi

theorem exists_position {cs : List Command} {i : Nat} (h : i < cs.count .draw) :
    ∃ a, (ofCommands cs).positions[i]? = some a := by
  have hi : i < (ofCommands cs).positions.size := by
    rw [size_positions]
    exact h
  exact ⟨_, Array.getElem?_eq_getElem hi⟩

theorem exists_position_of_depth {cs : List Command} {i d : Nat}
    (h : (backward cs).depths[i]? = some d) :
    ∃ a, (ofCommands cs).positions[i]? = some a ∧ a + d + 1 = (ofCommands cs).length := by
  obtain ⟨hi, -⟩ := List.getElem?_eq_some_iff.mp h
  rw [backward_eq, length_depths] at hi
  obtain ⟨a, ha⟩ := exists_position hi
  obtain ⟨e, he, hsum⟩ := position_iff_depth.mp ha
  cases h.symm.trans he
  exact ⟨a, ha, hsum⟩

theorem position_lt_length {cs : List Command} {i a : Nat}
    (h : (ofCommands cs).positions[i]? = some a) : a < (ofCommands cs).length := by
  obtain ⟨d, -, hd⟩ := position_iff_depth.mp h
  omega

/-- Where there is a segment at all, one is at the root of the longest chain. -/
theorem exists_position_zero {cs : List Command} (h : 0 < (ofCommands cs).length) :
    ∃ i : Nat, (ofCommands cs).positions[i]? = some 0 := by
  have hne : (backward cs).depths ≠ [] := by
    intro he
    rw [ofCommands, he] at h
    exact Nat.lt_irrefl _ h
  obtain ⟨i, hi⟩ := List.mem_iff_getElem?.mp (foldl_max_mem hne)
  refine ⟨i, position_iff_depth.mpr ⟨_, hi, ?_⟩⟩
  rw [ofCommands]
  cases hd : (backward cs).depths with
  | nil => exact absurd hd hne
  | cons e rest => rw [Nat.zero_add]; rfl

/-- A segment lies behind its parent. -/
theorem position_lt_of_parentAt {cs : List Command} {i p : Nat}
    (h : Lineage.parentAt cs i = some p) :
    ∃ a b, (ofCommands cs).positions[p]? = some a ∧
      (ofCommands cs).positions[i]? = some b ∧ a < b := by
  obtain ⟨d, e, hd, he, hlt⟩ := Lineage.depth_lt_of_parentAt h
  obtain ⟨a, ha, hae⟩ := exists_position_of_depth he
  obtain ⟨b, hb, hbd⟩ := exists_position_of_depth hd
  exact ⟨a, b, ha, hb, by omega⟩

/-- Before the end of the taper some child lies right behind its parent. -/
theorem exists_parentAt_of_position {cs : List Command} {p a : Nat}
    (h : (ofCommands cs).positions[p]? = some a) (hlt : a + 1 < (ofCommands cs).length) :
    ∃ i, Lineage.parentAt cs i = some p ∧ (ofCommands cs).positions[i]? = some (a + 1) := by
  obtain ⟨d, hd, hsum⟩ := position_iff_depth.mp h
  obtain ⟨d, rfl⟩ : ∃ e, d = e + 1 := ⟨d - 1, by omega⟩
  obtain ⟨i, hi, hdi⟩ := Lineage.exists_parentAt_of_depth hd
  exact ⟨i, hi, position_iff_depth.mpr ⟨d, hdi, by omega⟩⟩

/-- A segment is at the end of the taper if nothing grows out of it in the lineage,
and only then. -/
theorem at_end_iff_childless {cs : List Command} {i a : Nat}
    (h : (ofCommands cs).positions[i]? = some a) :
    a + 1 = (ofCommands cs).length ↔ ∀ j, Lineage.parentAt cs j ≠ some i := by
  constructor
  · intro hend j hj
    obtain ⟨a', b, ha', hb, hlt⟩ := position_lt_of_parentAt hj
    cases h.symm.trans ha'
    have hb := position_lt_length hb
    omega
  · intro hnone
    have ha := position_lt_length h
    by_cases hlt : a + 1 < (ofCommands cs).length
    · obtain ⟨j, hj, -⟩ := exists_parentAt_of_position h hlt
      exact absurd hj (hnone j)
    · omega

end Taper

end Arbor
