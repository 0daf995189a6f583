import Mathlib.Data.Finsupp.Multiset
import Mathlib.LinearAlgebra.Finsupp.LinearCombination
import Arbor.Proofs.Expansion
import Arbor.Proofs.Nested
import Arbor.Proofs.Strokes

/-!
# Counting symbols

How many symbols of each kind a word has after some rounds can be told without growing it, and
with it the size of the tree.

*Linear rounds.*  A round takes the counts of a word to the counts of the next one, and it does
so linearly: every symbol gives its share, whatever stands next to it (`Rules.transfer`,
`Rules.census_round`).  So the counts after many rounds are the counts of the start word under
a power of one linear map (`Rules.census_expand`), and the order of the start word is lost.

*Sizes.*  A tree has a segment for each capital, wherever the brackets are.
-/

namespace Arbor

/-! ## Counts of a word -/

/-- How often each symbol occurs in a word. -/
noncomputable def census (word : List Char) : Char →₀ ℕ := Multiset.toFinsupp (word : Multiset Char)

@[simp] theorem census_apply (word : List Char) (c : Char) : census word c = word.count c := by
  rw [census, Multiset.toFinsupp_apply, Multiset.coe_count]

@[simp] theorem census_nil : census [] = 0 := Multiset.toFinsupp_zero

theorem census_append (u v : List Char) : census (u ++ v) = census u + census v := by
  rw [census, ← Multiset.coe_add, Multiset.toFinsupp_add]
  rfl

theorem census_singleton (c : Char) : census [c] = .single c 1 := Multiset.toFinsupp_singleton c

theorem census_cons (c : Char) (word : List Char) :
    census (c :: word) = .single c 1 + census word := by
  rw [← List.singleton_append, census_append, census_singleton]

/-- Two words have the same counts if no symbol tells them apart. -/
theorem census_congr {u v : List Char} (h : ∀ c, u.count c = v.count c) : census u = census v := by
  ext c
  rw [census_apply, census_apply, h]

/-- How many of the symbols counted have some property. -/
def countIn (p : Char → Bool) (counts : Char →₀ ℕ) : ℕ :=
  counts.sum fun c n => if p c then n else 0

theorem countIn_single (p : Char → Bool) (c : Char) :
    countIn p (.single c 1) = if p c then 1 else 0 :=
  Finsupp.sum_single_index (ite_self 0)

theorem countIn_add (p : Char → Bool) (m n : Char →₀ ℕ) :
    countIn p (m + n) = countIn p m + countIn p n := by
  refine Finsupp.sum_add_index' (fun c => ite_self 0) fun c k l => ?_
  cases p c with
  | true => rfl
  | false => rfl

theorem countIn_census (p : Char → Bool) (word : List Char) :
    countIn p (census word) = word.countP p := by
  induction word with
  | nil => rw [census_nil, countIn, Finsupp.sum_zero_index, List.countP_nil]
  | cons c word ih =>
    rw [census_cons, countIn_add, countIn_single, ih, List.countP_cons, Nat.add_comm]

/-! ## Rounds -/

namespace Rules

/-- The counts of what a symbol becomes in a round: those of its replacement, or the symbol
itself if it has none. -/
noncomputable def yield (rules : Rules) (c : Char) : Char →₀ ℕ :=
  match rules[c]? with
  | some replacement => census replacement.toList
  | none => .single c 1

/-- What a round does to counts: each symbol gives its yield as often as it occurs. -/
noncomputable def transfer (rules : Rules) : Module.End ℕ (Char →₀ ℕ) :=
  Finsupp.linearCombination ℕ rules.yield

theorem transfer_single (rules : Rules) (c : Char) :
    rules.transfer (.single c 1) = rules.yield c := by
  rw [transfer, Finsupp.linearCombination_single, one_smul]

theorem census_production (rules : Rules) (c : Char) :
    census (rules.production c) = rules.yield c := by
  rw [production, yield]
  cases rules[c]? with
  | none => exact census_singleton c
  | some replacement => rfl

/-- A round is linear on counts. -/
theorem census_round (rules : Rules) (word : List Char) :
    census (rules.round word) = rules.transfer (census word) := by
  induction word with
  | nil => rw [round_nil, census_nil, map_zero]
  | cons c word ih =>
    calc census (rules.round (c :: word))
        = census (rules.production c) + census (rules.round word) := census_append ..
      _ = rules.transfer (.single c 1) + rules.transfer (census word) := by
        rw [census_production, transfer_single, ih]
      _ = rules.transfer (census (c :: word)) := by rw [census_cons, map_add]

/-- And so are many rounds. -/
theorem census_expand (rules : Rules) (rounds : Nat) (word : List Char) :
    census (rules.expand rounds word) = (rules.transfer ^ rounds) (census word) := by
  induction rounds generalizing word with
  | zero => rfl
  | succ rounds ih => rw [expand_succ, ih, census_round, pow_succ, Module.End.mul_apply]

end Rules

/-- The counts of a grammar's word are those of its start word under a power of the linear map
that sends a symbol to the counts of its replacement.  So start words with the same counts
grow words with the same counts, and a tree has as many segments as there are capitals
predicted, whatever its shape. -/
theorem census_predicts (rules : Rules) (start : String) (rounds : UInt32) :
    let commands := (Grammar.mk start rules rounds).expand.value
    let predicted := (rules.transfer ^ rounds.toNat) (census start.toList)
    (∀ c, commands.toList.count c = predicted c) ∧
      (∀ again : String, (∀ c, again.toList.count c = start.toList.count c) →
        ∀ c, (Grammar.mk again rules rounds).expand.value.toList.count c =
          commands.toList.count c) ∧
      ∀ shape : Shape,
        (shape.interpret commands).value.segments.size = countIn Char.isUpper predicted := by
  intro commands predicted
  have hgrown : ∀ word : String,
      census (Grammar.mk word rules rounds).expand.value.toList =
        (rules.transfer ^ rounds.toNat) (census word.toList) := by
    intro word
    rw [Grammar.value_expand, String.toList_ofList, Grammar.word, Rules.census_expand]
  refine ⟨fun c => ?_, fun again hagain c => ?_, fun shape => ?_⟩
  · rw [← census_apply, hgrown]
  · rw [← census_apply, ← census_apply, hgrown, hgrown, census_congr hagain]
  · rw [Shape.value_interpret, Shape.size_segments, Command.count_draw_ofText, ← countIn_census,
      hgrown]

/-- The order of the start word is lost. -/
theorem census_predicts_entwined :
    (∀ c, "C+A[A".toList.count c = "A+[CA".toList.count c) ∧
      (Grammar.mk "C+A[A" .entwined 40).expand.value.toList.count 'B' =
        (Grammar.mk "A+[CA" .entwined 40).expand.value.toList.count 'B' := by
  have hcounts : ∀ c, "C+A[A".toList.count c = "A+[CA".toList.count c :=
    List.perm_iff_count.mp (by decide)
  exact ⟨hcounts, (census_predicts .entwined "A+[CA" 40).2.1 "C+A[A" hcounts 'B'⟩

end Arbor
