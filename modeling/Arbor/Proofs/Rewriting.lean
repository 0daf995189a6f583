import Mathlib.Data.List.MinMax
import Mathlib.Order.Nat
import Arbor.Grammar
import Arbor.Proofs.Accounting
import Arbor.Proofs.Pruning
import Arbor.Proofs.Warnings

/-!
# Rewriting nested texts

Rules that keep brackets in pairs make nested texts from nested texts.

*Trees.*  If every symbol stands for a nested text and brackets for themselves, a round
works on the tree: it puts a tree in the place of each symbol (`Nested.replace`).  What is
put in stands at most as deep as the symbol did and its own depth
(`Nested.depth_replace_le`).

*Rounds.*  So every round keeps a text nested and adds no more to its depth than the
deepest replacement has (`Rules.Bracketed.round`), and many rounds add as much each
(`Rules.Bracketed.expand`).

*Walks.*  A nested text leaves a balanced tree and gives no warning where there is room
for its depth.  `bracketed_expand` says so of a whole grammar.
-/

namespace Arbor

/-! ## Trees -/

namespace Nested

/-- One text behind another. -/
def append : Nested → Nested → Nested
  | nil, after => after
  | symbol c rest, after => symbol c (rest.append after)
  | branch side rest, after => branch side (rest.append after)

@[simp] theorem symbols_append (t after : Nested) :
    (t.append after).symbols = t.symbols ++ after.symbols := by
  induction t with
  | nil => rfl
  | symbol c rest ih => simp [append, symbols, ih]
  | branch side rest _ ih => simp [append, symbols, ih]

@[simp] theorem depth_append (t after : Nested) :
    (t.append after).depth = max t.depth after.depth := by
  induction t with
  | nil => exact (Nat.zero_max _).symm
  | symbol c rest ih => exact ih
  | branch side rest _ ih => simp [append, depth, ih, Nat.max_assoc]

/-- The text with another one in the place of each symbol. -/
def replace (production : Plain → Nested) : Nested → Nested
  | nil => nil
  | symbol c rest => (production c).append (rest.replace production)
  | branch side rest => branch (side.replace production) (rest.replace production)

theorem depth_replace_le {production : Plain → Nested} {n : Nat}
    (h : ∀ c, (production c).depth ≤ n) (t : Nested) :
    (t.replace production).depth ≤ t.depth + n := by
  induction t with
  | nil => exact Nat.zero_le _
  | symbol c rest ih =>
    have hc := h c
    rw [replace, depth_append, depth]
    omega
  | branch side rest ihs ihr =>
    rw [replace, depth, depth]
    omega

end Nested

/-! ## Rules -/

namespace Rules

/-- How many branches stand within each other in a replacement, at most.  Without rules
there are none. -/
def deepest (rules : Rules) : Nat :=
  (rules.toList.map fun (_, replacement) => Bracket.deepest (Command.ofText replacement)).foldr
    max 0

theorem deepest_le_iff {rules : Rules} {n : Nat} :
    rules.deepest ≤ n ↔ ∀ (c : Char) (replacement : String), rules[c]? = some replacement →
      Bracket.deepest (Command.ofText replacement) ≤ n := by
  constructor
  · intro h c replacement hrule
    have hmem := Std.ExtTreeMap.mem_toList_iff_getElem?_eq_some.mpr hrule
    exact Nat.le_trans (List.le_max_of_le (List.mem_map_of_mem hmem) (Nat.le_refl _)) h
  · intro h
    refine List.max_le_of_forall_le _ _ fun depth hdepth => ?_
    obtain ⟨⟨c, replacement⟩, hmem, rfl⟩ := List.mem_map.mp hdepth
    exact h c replacement (Std.ExtTreeMap.mem_toList_iff_getElem?_eq_some.mp hmem)

/-- The replacements are well bracketed, and brackets have none. -/
structure Bracketed (rules : Rules) : Prop where
  /-- Every replacement is well bracketed. -/
  replacements : ∀ (c : Char) (replacement : String), rules[c]? = some replacement →
    Bracket.WellBracketed replacement.toList
  /-- A `[` is never replaced. -/
  opens : rules['[']? = none
  /-- A `]` is never replaced. -/
  closes : rules[']']? = none

variable {rules : Rules}

theorem production_of_none {c : Char} (h : rules[c]? = none) : rules.production c = [c] := by
  rw [production, h]

/-- A symbol becomes a nested text, and no deeper one than there are. -/
theorem Bracketed.exists_production (h : rules.Bracketed) (c : Plain) :
    ∃ t : Nested, t.symbols = rules.production c.val ∧ t.depth ≤ rules.deepest := by
  cases hrule : rules[c.val]? with
  | none => exact ⟨.symbol c .nil, (production_of_none hrule).symm, Nat.zero_le _⟩
  | some replacement =>
    obtain ⟨t, ht⟩ := h.replacements c.val replacement hrule
    refine ⟨t, ?_, ?_⟩
    · rw [production, hrule, ht]
    · have hdeepest := deepest_le_iff.mp (Nat.le_refl _) c.val replacement hrule
      have hcommands : Command.ofText replacement = t.commands := by
        rw [Command.ofText, ← ht, Nested.commands]
      rwa [hcommands, t.deepest_commands] at hdeepest

/-- A round puts a text in the place of each symbol and leaves the brackets. -/
theorem Bracketed.symbols_replace (h : rules.Bracketed) {production : Plain → Nested}
    (hproduction : ∀ c, (production c).symbols = rules.production c.val) (t : Nested) :
    (t.replace production).symbols = rules.round t.symbols := by
  induction t with
  | nil => rfl
  | symbol c rest ih =>
    rw [Nested.replace, Nested.symbols_append, hproduction, ih]
    rfl
  | branch side rest ihs ihr =>
    -- The brackets of the branch stand for themselves.
    have hopen := production_of_none h.opens
    have hclose := production_of_none h.closes
    rw [Nested.replace, Nested.symbols, Nested.symbols, ihs, ihr]
    simp [round, hopen, hclose]

/-! ## Rounds -/

/-- A round keeps a text nested and adds at most the depth of the deepest replacement. -/
theorem Bracketed.round (h : rules.Bracketed) (t : Nested) :
    ∃ grown : Nested, grown.symbols = rules.round t.symbols ∧
      grown.depth ≤ t.depth + rules.deepest := by
  choose production hproduction hdepth using h.exists_production
  exact ⟨t.replace production, h.symbols_replace hproduction t, Nested.depth_replace_le hdepth t⟩

/-- And so do many rounds. -/
theorem Bracketed.expand (h : rules.Bracketed) (rounds : Nat) (t : Nested) :
    ∃ grown : Nested, grown.symbols = rules.expand rounds t.symbols ∧
      grown.depth ≤ t.depth + rounds * rules.deepest := by
  induction rounds generalizing t with
  | zero => exact ⟨t, rfl, Nat.le_add_right ..⟩
  | succ rounds ih =>
    -- The first round is done first, so the others begin with another text.
    obtain ⟨once, honce, hround⟩ := h.round t
    obtain ⟨grown, hgrown, hrest⟩ := ih once
    refine ⟨grown, ?_, ?_⟩
    · rw [hgrown, honce, expand_succ]
    · rw [Nat.succ_mul]
      omega

end Rules

/-- The word of a grammar is a nested text if the start word and the replacements are, and
no deeper than the start word and one replacement for each round. -/
theorem Grammar.exists_nested (g : Grammar) (hstart : Bracket.WellBracketed g.start.toList)
    (hrules : g.rules.Bracketed) :
    ∃ t : Nested, g.expand.value = t.text ∧
      t.depth ≤ Bracket.deepest (Command.ofText g.start) + g.rounds.toNat * g.rules.deepest := by
  obtain ⟨start, hsymbols⟩ := hstart
  obtain ⟨t, ht, hdepth⟩ := hrules.expand g.rounds.toNat start
  refine ⟨t, ?_, ?_⟩
  · rw [Grammar.value_expand, Grammar.word, ← hsymbols, ← ht, Nested.text]
  · have hcommands : Command.ofText g.start = start.commands := by
      rw [Command.ofText, ← hsymbols, Nested.commands]
    rwa [hcommands, start.deepest_commands]

/-! ## Walks -/

namespace Nested

theorem wellBracketed_text (t : Nested) : Bracket.WellBracketed t.text.toList :=
  ⟨t, String.toList_ofList.symm⟩

/-- A walk over a nested text gives no warning where there is room for its depth. -/
theorem level_of_mem_events (t : Nested) {shape : Shape} (h : t.depth ≤ shape.stackLimit) :
    ∀ event ∈ (shape.interpret t.text).events, event.level ≠ .warn := by
  have hwarnings : Bracket.warnings shape.stackLimit 0 0 t.commands = [] := by
    rw [Bracket.warnings_eq_nil_iff (Nat.zero_le _), t.peak_commands, t.count_flags, Nat.zero_add]
    exact ⟨h, rfl⟩
  intro event hevent
  rw [shape.events_interpret, t.ofText_text, hwarnings, List.nil_append,
    List.mem_singleton] at hevent
  rw [hevent]
  exact Level.noConfusion

/-- Up to any place of a nested text nothing is stray. -/
theorem strays_of_prefix (t : Nested) (shape : Shape) {cs : List Command} (h : cs <+: t.commands) :
    (Walk.start.run shape cs).strays = 0 := by
  obtain ⟨rest, hrest⟩ := h
  have hcount := t.count_flags 0
  rw [← hrest, Bracket.flags_append, List.count_append, Nat.add_eq_zero_iff] at hcount
  rw [(Walk.atDepth_start shape.stackLimit).strays_run, hcount.1]
  rfl

end Nested

/-- A grammar whose words are all well bracketed and that leaves brackets alone makes a
well bracketed word, after any number of rounds.  The word is no deeper than the start
word and, for each round, the deepest replacement.  Every tree grown from it is balanced,
and where the stack has room for that depth nothing is dropped on the way, nothing is
stray and nothing gives a warning. -/
theorem bracketed_expand (g : Grammar) (hstart : Bracket.WellBracketed g.start.toList)
    (hrules : g.rules.Bracketed) :
    let commands := g.expand.value
    let bound := Bracket.deepest (Command.ofText g.start) + g.rounds.toNat * g.rules.deepest
    Bracket.WellBracketed commands.toList ∧
      Bracket.deepest (Command.ofText commands) ≤ bound ∧
      ∀ shape : Shape,
        (shape.interpret commands).value.isBalanced = true ∧
          (bound ≤ shape.stackLimit →
            (∀ event ∈ (shape.interpret commands).events, event.level ≠ .warn) ∧
            ∀ cs, cs <+: Command.ofText commands →
              (Walk.start.run shape cs).dropped = 0 ∧ (Walk.start.run shape cs).strays = 0) := by
  intro commands bound
  obtain ⟨t, htext, hdepth⟩ := g.exists_nested hstart hrules
  have hcommands : commands = t.text := htext
  have hdeepest : Bracket.deepest (Command.ofText t.text) = t.depth := by
    rw [t.ofText_text, t.deepest_commands]
  rw [hcommands, hdeepest]
  refine ⟨t.wellBracketed_text, hdepth, fun shape => ⟨?_, fun hbound => ?_⟩⟩
  · exact (shape.isBalanced_skeleton t.text.toList).mpr t.wellBracketed_text
  · have hroom := Nat.le_trans hdepth hbound
    refine ⟨t.level_of_mem_events hroom, fun cs hcs => ⟨?_, ?_⟩⟩
    · rw [← hdeepest] at hroom
      exact Walk.dropped_of_deepest hroom hcs
    · rw [t.ofText_text] at hcs
      exact t.strays_of_prefix shape hcs

/-- The rules of the bushy grammar keep brackets in pairs. -/
theorem Rules.bracketed_bushy : Grammar.bushy.rules.Bracketed where
  replacements := by
    intro c replacement hrule
    have hall : ∀ rule ∈ Grammar.bushy.rules.toList, Bracket.WellBracketed rule.2.toList := by
      decide
    exact hall _ (Std.ExtTreeMap.mem_toList_iff_getElem?_eq_some.mpr hrule)
  opens := by decide
  closes := by decide

/-- The bushy grammar adds one branch with each of its seven rounds, so there is room for
its tree on a stack of seven. -/
theorem bracketed_expand_bushy :
    Bracket.WellBracketed Grammar.bushy.start.toList ∧ Grammar.bushy.rules.Bracketed ∧
      Bracket.WellBracketed Grammar.bushy.expand.value.toList ∧
      ∀ event ∈ (({ Shape.slender with stackLimit := 7 } : Shape).interpret
        Grammar.bushy.expand.value).events, event.level ≠ .warn := by
  have hstart : Bracket.WellBracketed Grammar.bushy.start.toList := by decide
  obtain ⟨hword, -, hshapes⟩ := bracketed_expand Grammar.bushy hstart Rules.bracketed_bushy
  have hbound : Bracket.deepest (Command.ofText Grammar.bushy.start) +
      Grammar.bushy.rounds.toNat * Grammar.bushy.rules.deepest ≤ 7 := by decide
  exact ⟨hstart, Rules.bracketed_bushy, hword,
    ((hshapes { Shape.slender with stackLimit := 7 }).2 hbound).1⟩

end Arbor
