import Arbor.Grammar

/-!
# Expansion symbol by symbol

A round rewrites a whole word, and the next round begins when it is done.  The same word is
made by following one symbol after the other through all rounds, and what a symbol becomes
does not depend on the symbols around it.

*One symbol.*  `Rules.growth` is what a symbol becomes after some rounds, by recursion on
their number.  A symbol without a rule stays what it is (`Rules.growth_of_none`).

*Words.*  A word becomes what its symbols become, in order
(`Rules.expand_eq_flatMap_growth`).  Some rounds and then some more are as many rounds as
both together (`Rules.expand_add`).
-/

namespace Arbor

namespace Rules

/-- What a symbol becomes after some rounds.  The first one puts its replacement in its
place, and the symbols of that have one round less. -/
def growth (rules : Rules) : Nat → Char → List Char
  | 0, c => [c]
  | rounds + 1, c =>
    match rules[c]? with
    | some replacement => replacement.toList.flatMap (rules.growth rounds)
    | none => [c]

variable {rules : Rules}

theorem growth_of_none {c : Char} (h : rules[c]? = none) (rounds : Nat) :
    rules.growth rounds c = [c] := by
  cases rounds with
  | zero => rfl
  | succ rounds => rw [growth, h]

/-- One round on a symbol and the others on what it leaves. -/
theorem growth_succ (rules : Rules) (rounds : Nat) (c : Char) :
    rules.growth (rounds + 1) c = (rules.production c).flatMap (rules.growth rounds) := by
  cases h : rules[c]? with
  | some replacement => rw [growth, production, h]
  | none =>
    -- Nothing happens to the symbol, so the rounds that it is given do not matter.
    rw [growth_of_none h, production, h]
    exact (growth_of_none h rounds).symm.trans (List.flatMap_singleton ..).symm

/-- A word becomes what its symbols become, in order. -/
theorem expand_eq_flatMap_growth (rules : Rules) (rounds : Nat) (word : List Char) :
    rules.expand rounds word = word.flatMap (rules.growth rounds) := by
  induction rounds generalizing word with
  | zero => exact (List.flatMap_singleton' word).symm
  | succ rounds ih =>
    rw [expand_succ, ih, round, List.flatMap_assoc]
    exact congrArg word.flatMap (funext (rules.growth_succ rounds)).symm

/-- Some rounds and then some more. -/
theorem expand_add (rules : Rules) (m n : Nat) (word : List Char) :
    rules.expand n (rules.expand m word) = rules.expand (m + n) word := by
  induction m generalizing word with
  | zero => rw [expand_zero, Nat.zero_add]
  | succ m ih => rw [expand_succ, ih, Nat.succ_add, expand_succ]

end Rules

/-- The word of a grammar is what the symbols of its start word become, each one by itself
and in order.  So a grammar expands the parts of a start word separately, and a word that is
expanded again has had the rounds of both. -/
theorem expand_eq_growth (rules : Rules) :
    (∀ (start : String) (rounds : UInt32),
      (Grammar.mk start rules rounds).expand.value =
        String.ofList (start.toList.flatMap (rules.growth rounds.toNat))) ∧
    (∀ (u v : String) (rounds : UInt32),
      (Grammar.mk (u ++ v) rules rounds).expand.value =
        (Grammar.mk u rules rounds).expand.value ++ (Grammar.mk v rules rounds).expand.value) ∧
    ∀ (start : String) (m n rounds : UInt32), rounds.toNat = m.toNat + n.toNat →
      (Grammar.mk (Grammar.mk start rules m).expand.value rules n).expand.value =
        (Grammar.mk start rules rounds).expand.value := by
  refine ⟨fun start rounds => ?_, fun u v rounds => ?_, fun start m n rounds hsum => ?_⟩
  · rw [Grammar.value_expand, Grammar.word, Rules.expand_eq_flatMap_growth]
  · rw [Grammar.value_expand, Grammar.value_expand, Grammar.value_expand, Grammar.word,
      String.toList_append, Rules.expand_append, String.ofList_append]
    rfl
  · rw [Grammar.value_expand, Grammar.value_expand, Grammar.word, Grammar.value_expand,
      String.toList_ofList, Grammar.word, Rules.expand_add, ← hsum]
    rfl

/-- Two symbols that become each other, and one that goes away. -/
def Rules.entwined : Rules := .ofList [('A', "AB"), ('B', "AC"), ('C', "")]

/-- Two rounds and then three are five. -/
theorem expand_eq_growth_entwined :
    (5 : UInt32).toNat = (2 : UInt32).toNat + (3 : UInt32).toNat ∧
      (Grammar.mk (Grammar.mk "A+C" .entwined 2).expand.value .entwined 3).expand.value =
        (Grammar.mk "A+C" .entwined 5).expand.value := by
  have hsum : (5 : UInt32).toNat = (2 : UInt32).toNat + (3 : UInt32).toNat := by decide
  exact ⟨hsum, (expand_eq_growth .entwined).2.2 "A+C" 2 3 5 hsum⟩

end Arbor
