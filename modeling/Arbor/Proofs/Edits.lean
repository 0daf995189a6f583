import Arbor.Grammar
import Mathlib.Data.List.Perm.Subperm

/-!
# Edits of a grammar

Setting a rule, removing one and merging a table each change the replacements of the
symbols they *mention* and of no other symbol.  Setting and removing mention one symbol,
merging mentions the symbols of its table.

*One edit.*  Afterwards a mentioned symbol has the replacement the edit leaves it,
whatever it was before (`Grammar.getElem?_edit`).  A merge sets the rules of its table one
by one.  No two of them are of one symbol, so it does not matter in which order
(`Rules.getElem?_insertAll`).

*Many edits.*  By induction on the edits, a symbol is *ruled* by the last one that
mentions it, and by the original rules if none does (`Grammar.getElem?_edited`).

*Comparison.*  Two tables are compared by their sizes and by looking up every entry of the
first in the second.  As no table has a symbol twice, that is enough to tell whether they
give every symbol the same replacement (`Rules.same_iff`).
-/

namespace Arbor

namespace Rules

variable {rules new : Rules}

/-! ## Inserting entries in any order -/

/-- Inserts entries one by one. -/
def insertAll (rules : Rules) (entries : List (Char × String)) : Rules :=
  entries.foldl (fun rules (c, replacement) => rules.insert c replacement) rules

theorem merge_eq_insertAll : rules.merge new = rules.insertAll new.toList := rfl

theorem distinct_of_perm {entries : List (Char × String)} (hperm : entries.Perm new.toList) :
    entries.Pairwise fun a b => ¬compare a.1 b.1 = .eq :=
  hperm.symm.pairwise new.distinct_keys_toList fun h hba => h (Std.OrientedCmp.eq_symm hba)

/-- Entries of one table do not overwrite each other, so their order does not show. -/
theorem getElem?_insertAll {entries : List (Char × String)} (hperm : entries.Perm new.toList)
    (c : Char) : (rules.insertAll entries)[c]? = new[c]?.or rules[c]? := by
  have hfold : rules.insertAll entries = rules.insertMany entries :=
    Std.ExtTreeMap.insertMany_list_eq_foldl.symm
  rw [hfold]
  cases hc : new[c]? with
  | some replacement =>
    have hmem : (c, replacement) ∈ entries :=
      hperm.mem_iff.mpr (Std.ExtTreeMap.mem_toList_iff_getElem?_eq_some.mpr hc)
    rw [Std.ExtTreeMap.getElem?_insertMany_list_of_mem Std.ReflCmp.compare_self
      (distinct_of_perm hperm) hmem, Option.some_or]
  | none =>
    have hout : (entries.map Prod.fst).contains c = false := by
      simp [hperm.mem_iff, Std.ExtTreeMap.mem_toList_iff_getElem?_eq_some, hc]
    rw [Std.ExtTreeMap.getElem?_insertMany_list_of_contains_eq_false hout, Option.none_or]

theorem getElem?_merge (c : Char) : (rules.merge new)[c]? = new[c]?.or rules[c]? :=
  merge_eq_insertAll ▸ getElem?_insertAll (List.Perm.refl _) c

/-! ## Comparison -/

/-- Whether two tables have the same size and the second one has every entry of the
first. -/
def same (rules new : Rules) : Bool :=
  rules.size == new.size && rules.toList.all fun (c, replacement) => new[c]? == some replacement

theorem nodup_toList (rules : Rules) : rules.toList.Nodup :=
  rules.distinct_keys_toList.imp fun hne heq => hne (by simp [heq])

/-- Tables of the same size do not differ if one has every entry of the other, as there is
no room for a further entry. -/
theorem same_iff : rules.same new ↔ rules = new := by
  constructor
  · intro h
    obtain ⟨hsize, hall⟩ : rules.size = new.size ∧ ∀ (c : Char) (replacement : String),
        rules[c]? = some replacement → new[c]? = some replacement := by
      simpa [same, Std.ExtTreeMap.mem_toList_iff_getElem?_eq_some] using h
    have hsub : rules.toList ⊆ new.toList := by
      rintro ⟨c, replacement⟩ hmem
      rw [Std.ExtTreeMap.mem_toList_iff_getElem?_eq_some] at hmem ⊢
      exact hall c replacement hmem
    have hlength : new.toList.length ≤ rules.toList.length := by simp [hsize]
    exact Std.ExtTreeMap.ext_toList
      ((List.subperm_of_subset rules.nodup_toList hsub).perm_of_length_le hlength)
  · rintro rfl
    simp [same, Std.ExtTreeMap.mem_toList_iff_getElem?_eq_some]

end Rules

namespace Grammar

/-- One change of the rules of a grammar. -/
inductive Edit where
  /-- Gives a symbol a replacement. -/
  | set (c : Char) (replacement : String)
  /-- Takes a symbol's replacement away. -/
  | remove (c : Char)
  /-- Takes over every rule of a table. -/
  | merge (new : Rules)

namespace Edit

/-- The symbols that the edit mentions. -/
def symbols : Edit → List Char
  | set c _ => [c]
  | remove c => [c]
  | merge new => new.keys

/-- The replacement that a symbol which the edit mentions has afterwards. -/
def leaves : Edit → Char → Option String
  | set _ replacement, _ => some replacement
  | remove _, _ => none
  | merge new, c => new[c]?

/-- The last edit that mentions a symbol. -/
def last (edits : List Edit) (c : Char) : Option Edit := edits.findRev? (c ∈ ·.symbols)

/-- Whether the last edits that mention a symbol leave it the same replacement, for every
symbol. -/
def Agree (edits others : List Edit) : Prop :=
  ∀ c, (last edits c).map (·.leaves c) = (last others c).map (·.leaves c)

end Edit

/-- The grammar after an edit. -/
def edit (g : Grammar) : Edit → Grammar
  | .set c replacement => g.setRule c replacement
  | .remove c => (g.removeRule c).2
  | .merge new => g.mergeRules new

/-- The grammar after some edits, the first one made first. -/
def edited (g : Grammar) (edits : List Edit) : Grammar := edits.foldl edit g

/-- The replacement that the last edit which mentions the symbol leaves it, the original one
if none does. -/
def ruling (g : Grammar) (edits : List Edit) (c : Char) : Option String :=
  ((Edit.last edits c).map (·.leaves c)).getD g.rules[c]?

/-- Whether two grammars compare equal, field by field. -/
def same (g h : Grammar) : Bool :=
  g.start == h.start && g.rules.same h.rules && g.rounds == h.rounds

variable {g h : Grammar}

/-! ## One edit -/

@[simp] theorem start_edit (g : Grammar) (e : Edit) : (g.edit e).start = g.start := by
  cases e <;> rfl

@[simp] theorem rounds_edit (g : Grammar) (e : Edit) : (g.edit e).rounds = g.rounds := by
  cases e <;> rfl

/-- What an edit does to every symbol. -/
theorem getElem?_edit (g : Grammar) (e : Edit) (c : Char) :
    (g.edit e).rules[c]? = if c ∈ e.symbols then e.leaves c else g.rules[c]? := by
  cases e with
  | set d replacement =>
    simp [edit, setRule, Edit.symbols, Edit.leaves, Std.ExtTreeMap.getElem?_insert,
      @eq_comm _ c]
  | remove d =>
    simp [edit, removeRule, Edit.symbols, Edit.leaves, Std.ExtTreeMap.getElem?_erase,
      @eq_comm _ c]
  | merge new =>
    simp only [edit, mergeRules, Rules.getElem?_merge, Edit.symbols, Edit.leaves,
      Std.ExtTreeMap.mem_keys, Std.ExtTreeMap.mem_iff_isSome_getElem?]
    cases new[c]? <;> simp

/-! ## Many edits -/

theorem edited_cons (g : Grammar) (e : Edit) (edits : List Edit) :
    g.edited (e :: edits) = (g.edit e).edited edits := rfl

@[simp] theorem start_edited (g : Grammar) (edits : List Edit) :
    (g.edited edits).start = g.start := by
  induction edits generalizing g with
  | nil => rfl
  | cons e edits ih => rw [edited_cons, ih, start_edit]

@[simp] theorem rounds_edited (g : Grammar) (edits : List Edit) :
    (g.edited edits).rounds = g.rounds := by
  induction edits generalizing g with
  | nil => rfl
  | cons e edits ih => rw [edited_cons, ih, rounds_edit]

theorem Edit.last_cons (e : Edit) (edits : List Edit) (c : Char) :
    Edit.last (e :: edits) c =
      (Edit.last edits c).or (if c ∈ e.symbols then some e else none) := by
  simp only [Edit.last, List.findRev?, decide_eq_true_eq]
  cases edits.findRev? (c ∈ ·.symbols) <;> rfl

theorem ruling_cons (g : Grammar) (e : Edit) (edits : List Edit) (c : Char) :
    g.ruling (e :: edits) c = (g.edit e).ruling edits c := by
  rw [ruling, ruling, Edit.last_cons, getElem?_edit]
  cases Edit.last edits c with
  | some _ => rfl
  | none => by_cases hc : c ∈ e.symbols <;> simp [hc]

/-- What some edits do to every symbol. -/
theorem getElem?_edited (g : Grammar) (edits : List Edit) (c : Char) :
    (g.edited edits).rules[c]? = g.ruling edits c := by
  induction edits generalizing g with
  | nil => rfl
  | cons e edits ih => rw [edited_cons, ih, ruling_cons]

theorem ruling_congr {edits others : List Edit} (hagree : Edit.Agree edits others) (c : Char) :
    g.ruling edits c = g.ruling others c := by
  rw [ruling, ruling, hagree c]

theorem Edit.last_eq_none {edits : List Edit} {c : Char} (hc : c ∉ edits.flatMap Edit.symbols) :
    Edit.last edits c = none := by
  simpa [Edit.last] using hc

/-- No other symbols need a look than those that some edit mentions. -/
theorem Edit.agree_iff_all {edits others : List Edit} :
    ((edits ++ others).flatMap Edit.symbols).all (fun c =>
      (Edit.last edits c).map (·.leaves c) = (Edit.last others c).map (·.leaves c)) ↔
    Edit.Agree edits others := by
  rw [List.all_eq_true]
  constructor
  · intro h c
    by_cases hc : c ∈ (edits ++ others).flatMap Edit.symbols
    · exact of_decide_eq_true (h c hc)
    · rw [List.flatMap_append, List.mem_append, not_or] at hc
      rw [Edit.last_eq_none hc.1, Edit.last_eq_none hc.2]
  · intro h c _
    exact decide_eq_true (h c)

instance (edits others : List Edit) : Decidable (Edit.Agree edits others) :=
  decidable_of_iff _ Edit.agree_iff_all

/-! ## Merging in any order -/

/-- A table is merged by setting its rules, so a merge touches nothing but the rules. -/
theorem foldl_setRule (g : Grammar) (entries : List (Char × String)) :
    entries.foldl (fun g (c, replacement) => g.setRule c replacement) g =
      { g with rules := g.rules.insertAll entries } := by
  induction entries generalizing g with
  | nil => rfl
  | cons entry entries ih => exact ih (g.setRule entry.1 entry.2)

theorem foldl_setRule_of_perm (g : Grammar) {new : Rules} {entries : List (Char × String)}
    (hperm : entries.Perm new.toList) :
    entries.foldl (fun g (c, replacement) => g.setRule c replacement) g = g.mergeRules new := by
  have hrules : g.rules.insertAll entries = g.rules.merge new :=
    Std.ExtTreeMap.ext_getElem? fun c => by
      rw [Rules.getElem?_insertAll hperm, Rules.getElem?_merge]
  rw [foldl_setRule, hrules, mergeRules]

/-! ## Comparison -/

theorem ext_getElem? (hstart : g.start = h.start) (hrounds : g.rounds = h.rounds)
    (hrules : ∀ c : Char, g.rules[c]? = h.rules[c]?) : g = h := by
  cases g
  cases h
  congr
  exact Std.ExtTreeMap.ext_getElem? hrules

theorem same_iff : g.same h ↔ g = h := by
  cases g
  cases h
  simp [same, Rules.same_iff, and_assoc]

theorem same_iff_forall :
    g.same h ↔
      g.start = h.start ∧ g.rounds = h.rounds ∧ ∀ c : Char, g.rules[c]? = h.rules[c]? := by
  rw [same_iff]
  constructor
  · rintro rfl
    exact ⟨rfl, rfl, fun _ => rfl⟩
  · rintro ⟨hstart, hrounds, hrules⟩
    exact ext_getElem? hstart hrounds hrules

theorem edited_same_of_agree {edits others : List Edit} (hagree : Edit.Agree edits others) :
    (g.edited edits).same (g.edited others) := by
  rw [same_iff_forall]
  refine ⟨by simp, by simp, fun c => ?_⟩
  rw [getElem?_edited, getElem?_edited, ruling_congr hagree]

end Grammar

/-- After any edits each symbol has the replacement that the last edit which mentions it
leaves, and a removal gives back the one in force when it is made.  The rules of a table may
be merged in any order.  Edits that agree about every symbol give grammars that compare
equal.  Grammars compare equal if and only if their rules give every symbol the same
replacement and the start words and the numbers of rounds are equal, and then they grow the
same command string. -/
theorem last_edit_decides (g : Grammar) :
    (∀ edits c, (g.edited edits).rules[c]? = g.ruling edits c ∧
      ((g.edited edits).removeRule c).1 = g.ruling edits c) ∧
    (∀ (new : Rules) (entries : List (Char × String)), entries.Perm new.toList →
      entries.foldl (fun g (c, replacement) => g.setRule c replacement) g =
        g.mergeRules new) ∧
    (∀ edits others, Grammar.Edit.Agree edits others →
      (g.edited edits).same (g.edited others)) ∧
    (∀ h : Grammar, g.same h ↔
      g.start = h.start ∧ g.rounds = h.rounds ∧ ∀ c : Char, g.rules[c]? = h.rules[c]?) ∧
    ∀ h : Grammar, g.same h → g.expand.value = h.expand.value := by
  refine ⟨fun edits c => ?_, fun new entries hperm => g.foldl_setRule_of_perm hperm,
    fun edits others hagree => Grammar.edited_same_of_agree hagree,
    fun h => Grammar.same_iff_forall, fun h hsame => ?_⟩
  · have hc := g.getElem?_edited edits c
    exact ⟨hc, hc⟩
  · rw [Grammar.same_iff.mp hsame]

/-- Rules for two symbols. -/
def Rules.twin : Rules := .ofList [('A', "FA"), ('F', "FF")]

/-- Edits that give a rule to `S` and take it away again, and set `F` twice. -/
def Grammar.detour : List Grammar.Edit :=
  [.set 'S' "A", .merge .twin, .remove 'S', .set 'F' "J"]

/-- Edits that come to the same as `Grammar.detour`. -/
def Grammar.shortcut : List Grammar.Edit := [.set 'F' "J", .remove 'S', .set 'A' "FA"]

/-- The two ways to edit a grammar that has a rule for each of the three symbols. -/
theorem last_edit_decides_bushy :
    [('F', "FF"), ('A', "FA")].Perm Rules.twin.toList ∧
    Grammar.Edit.Agree Grammar.detour Grammar.shortcut ∧
    (Grammar.bushy.edited Grammar.detour).rules['A']? = some "FA" ∧
    ((Grammar.bushy.edited Grammar.detour).removeRule 'S').1 = none ∧
    (Grammar.bushy.setRule 'F' "FF").setRule 'A' "FA" = Grammar.bushy.mergeRules .twin ∧
    (Grammar.bushy.edited Grammar.detour).same (Grammar.bushy.edited Grammar.shortcut) ∧
    (Grammar.bushy.edited Grammar.detour).expand.value =
      (Grammar.bushy.edited Grammar.shortcut).expand.value := by
  have hperm : [('F', "FF"), ('A', "FA")].Perm Rules.twin.toList := by decide
  have hagree : Grammar.Edit.Agree Grammar.detour Grammar.shortcut := by decide
  obtain ⟨hrules, hmerge, hsame, -, -⟩ := last_edit_decides Grammar.bushy
  obtain ⟨-, -, -, -, hgrow⟩ := last_edit_decides (Grammar.bushy.edited Grammar.detour)
  have hA : Grammar.bushy.ruling Grammar.detour 'A' = some "FA" := by decide
  have hS : Grammar.bushy.ruling Grammar.detour 'S' = none := by decide
  exact ⟨hperm, hagree, (hrules _ 'A').1.trans hA, (hrules _ 'S').2.trans hS,
    hmerge _ _ hperm, hsame _ _ hagree, hgrow _ (hsame _ _ hagree)⟩

end Arbor
