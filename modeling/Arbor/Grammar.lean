import Arbor.Event
import Std.Data.ExtTreeMap

/-!
# Grammars

A grammar describes a command string by growth: a start word, a rule for some
symbols, and a number of rounds.  In a round every symbol of the word is
replaced at once, by its rule's word if it has a rule and by itself if not.

`Rules.expand_append` says that expansion runs over the parts of a word
separately, which is what makes a grammar context free.
-/

namespace Arbor

/-- The replacements of the symbols that have one.  Two rule tables are equal
when they give every symbol the same replacement. -/
abbrev Rules := Std.ExtTreeMap Char String

namespace Rules

/-- What one symbol becomes in one round. -/
def production (rules : Rules) (c : Char) : List Char :=
  match rules[c]? with
  | some replacement => replacement.toList
  | none => [c]

/-- One round: every symbol of the word is replaced at once. -/
def round (rules : Rules) (word : List Char) : List Char :=
  word.flatMap rules.production

/-- The word after some rounds. -/
def expand (rules : Rules) : Nat → List Char → List Char
  | 0, word => word
  | rounds + 1, word => rules.expand rounds (rules.round word)

/-- The rules of both tables.  The second one decides about a symbol of both. -/
def merge (rules new : Rules) : Rules :=
  new.toList.foldl (fun rules (c, replacement) => rules.insert c replacement) rules

/-! ## Rounds and words -/

@[simp] theorem expand_zero (rules : Rules) (word : List Char) :
    rules.expand 0 word = word := rfl

theorem expand_succ (rules : Rules) (n : Nat) (word : List Char) :
    rules.expand (n + 1) word = rules.expand n (rules.round word) := rfl

@[simp] theorem round_nil (rules : Rules) : rules.round [] = [] := rfl

theorem round_append (rules : Rules) (u v : List Char) :
    rules.round (u ++ v) = rules.round u ++ rules.round v := by
  simp [round]

theorem expand_append (rules : Rules) (n : Nat) (u v : List Char) :
    rules.expand n (u ++ v) = rules.expand n u ++ rules.expand n v := by
  induction n generalizing u v with
  | zero => rfl
  | succ n ih => rw [expand_succ, round_append, ih, ← expand_succ, ← expand_succ]

end Rules

/-- A start word, the rules and how many rounds they are applied for. -/
structure Grammar where
  /-- The word before the first round. -/
  start : String
  /-- The replacements. -/
  rules : Rules
  /-- The number of rounds. -/
  rounds : UInt32
  deriving DecidableEq

namespace Grammar

/-- A grammar without rules. -/
def ofStart (start : String) (rounds : UInt32) : Grammar := ⟨start, ∅, rounds⟩

/-- Gives a symbol a replacement, in place of the one it may have. -/
def setRule (g : Grammar) (c : Char) (replacement : String) : Grammar :=
  { g with rules := g.rules.insert c replacement }

/-- Takes a symbol's replacement away and gives it back, if there was one. -/
def removeRule (g : Grammar) (c : Char) : Option String × Grammar :=
  (g.rules[c]?, { g with rules := g.rules.erase c })

/-- Takes over every rule of a table. -/
def mergeRules (g : Grammar) (new : Rules) : Grammar :=
  { g with rules := g.rules.merge new }

/-- The word after all rounds. -/
def word (g : Grammar) : List Char := g.rules.expand g.rounds.toNat g.start.toList

/-- The word after all rounds as a command string, with a report of its size. -/
def expand (g : Grammar) : Logged String :=
  let commands := String.ofList g.word
  ⟨commands, [.expanded g.start g.rounds commands.utf8ByteSize]⟩

@[simp] theorem value_expand (g : Grammar) : g.expand.value = String.ofList g.word := rfl

/-- A bushy tree whose branches fork sideways and forwards in turn. -/
def bushy : Grammar :=
  ofStart "FA" 7
    |>.setRule 'A' "F[^S]F[&S]FS"
    |>.setRule 'S' "F[*A]F[/A]FA"
    |>.setRule 'F' "JF"

instance : Inhabited Grammar := ⟨bushy⟩

end Grammar

end Arbor
