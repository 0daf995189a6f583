import Arbor.Proofs.Depth

/-!
# Nested texts

A text in which every bracket has its partner is a tree.  `Nested` is that tree,
and `Nested.symbols` writes it down.

*Ragged texts.*  Stray `]` and `[` that are never closed cut a text into nested
pieces, first the stray ones and then the open ones.  Every text is made this way
(`Ragged.symbols_ofSymbols`), and there are as many pieces of each kind as a
reading of the text counts (`Ragged.count_flags`, `Ragged.level_commands`).

*Partners.*  A `]` closes a `[` if the text between them is well bracketed.  Then
one more branch is open before the `]` than before the `[`
(`Bracket.Closes.openBefore_eq`), and every `]` that is not stray closes some `[`
(`Bracket.exists_closes`).
-/

namespace Arbor

/-! ## Brackets and capitals among the symbols -/

namespace Command

theorem ofSymbol_eq_draw_iff {c : Char} : ofSymbol c = .draw ↔ c.isUpper = true := by
  have hupper : c.isUpper = true ↔ 'A' ≤ c ∧ c ≤ 'Z' := decide_eq_true_iff
  rw [hupper]
  unfold ofSymbol
  grind

theorem ofSymbol_eq_push_iff {c : Char} : ofSymbol c = .push ↔ c = '[' := by
  constructor
  · intro h
    unfold ofSymbol at h
    grind
  · rintro rfl
    decide

theorem ofSymbol_eq_pop_iff {c : Char} : ofSymbol c = .pop ↔ c = ']' := by
  constructor
  · intro h
    unfold ofSymbol at h
    grind
  · rintro rfl
    decide

@[simp] theorem ofSymbol_open : ofSymbol '[' = .push := ofSymbol_eq_push_iff.mpr rfl

@[simp] theorem ofSymbol_close : ofSymbol ']' = .pop := ofSymbol_eq_pop_iff.mpr rfl

theorem ofText_append (s t : String) : ofText (s ++ t) = ofText s ++ ofText t := by
  simp [ofText]

theorem ofText_ofList (symbols : List Char) :
    ofText (String.ofList symbols) = symbols.map ofSymbol := by
  simp [ofText]

theorem count_map_ofSymbol {c : Command} {p : Char → Bool}
    (h : ∀ a, ofSymbol a = c ↔ p a = true) (symbols : List Char) :
    (symbols.map ofSymbol).count c = symbols.countP p := by
  rw [List.count, List.countP_map]
  apply List.countP_congr
  intro a _
  simp [h]

theorem count_draw_ofText (text : String) :
    (ofText text).count .draw = text.toList.countP Char.isUpper :=
  count_map_ofSymbol (fun _ => ofSymbol_eq_draw_iff) text.toList

theorem count_push_ofText (text : String) : (ofText text).count .push = text.toList.count '[' :=
  count_map_ofSymbol (by simp [ofSymbol_eq_push_iff]) text.toList

theorem count_pop_ofText (text : String) : (ofText text).count .pop = text.toList.count ']' :=
  count_map_ofSymbol (by simp [ofSymbol_eq_pop_iff]) text.toList

end Command

/-! ## Nested texts -/

/-- A symbol that is no bracket. -/
abbrev Plain := { c : Char // c ≠ '[' ∧ c ≠ ']' }

namespace Plain

/-- The meaning of the symbol. -/
def command (c : Plain) : Command := .ofSymbol c.val

theorem command_plain (c : Plain) : c.command ≠ .push ∧ c.command ≠ .pop :=
  ⟨fun h => c.property.1 (Command.ofSymbol_eq_push_iff.mp h),
    fun h => c.property.2 (Command.ofSymbol_eq_pop_iff.mp h)⟩

end Plain

/-- A list of symbols and branches, where a branch is such a list again. -/
inductive Nested
  /-- Nothing. -/
  | nil
  /-- A symbol and what follows it. -/
  | symbol (c : Plain) (rest : Nested)
  /-- A branch and what follows it. -/
  | branch (side rest : Nested)
  deriving DecidableEq

namespace Nested

/-- A nested text as it is written, a branch in brackets. -/
def symbols : Nested → List Char
  | nil => []
  | symbol c rest => c.val :: rest.symbols
  | branch side rest => '[' :: (side.symbols ++ ']' :: rest.symbols)

/-- The nested list as a text. -/
def text (t : Nested) : String := String.ofList t.symbols

/-- How deep branches stand within branches. -/
def depth : Nested → Nat
  | nil => 0
  | symbol _ rest => rest.depth
  | branch side rest => max (side.depth + 1) rest.depth

/-- The meanings of the symbols. -/
def commands (t : Nested) : List Command := t.symbols.map .ofSymbol

@[simp] theorem ofText_text (t : Nested) : Command.ofText t.text = t.commands :=
  Command.ofText_ofList t.symbols

@[simp] theorem commands_nil : nil.commands = [] := rfl

@[simp] theorem commands_symbol (c : Plain) (rest : Nested) :
    (symbol c rest).commands = c.command :: rest.commands := rfl

@[simp] theorem commands_branch (side rest : Nested) :
    (branch side rest).commands = .push :: (side.commands ++ .pop :: rest.commands) := by
  simp [commands, symbols]

/-- A nested text closes all that it opens. -/
@[simp] theorem level_commands (t : Nested) (n : Nat) :
    t.commands.foldl Bracket.level n = n := by
  induction t generalizing n with
  | nil => rfl
  | symbol c rest ih => simp [Bracket.level_of_plain c.command_plain, ih]
  | branch side rest ihs ihr => simp [ihs, ihr]

/-- A nested text closes nothing else. -/
@[simp] theorem count_flags (t : Nested) (n : Nat) :
    (Bracket.flags n t.commands).count true = 0 := by
  induction t generalizing n with
  | nil => rfl
  | symbol c rest ih =>
    simp [Bracket.level_of_plain c.command_plain, Bracket.isStray_of_ne c.command_plain.2, ih]
  | branch side rest ihs ihr => simp [Bracket.flags_append, ihs, ihr]

theorem peak_commands (t : Nested) (n : Nat) : Bracket.peak n t.commands = n + t.depth := by
  induction t generalizing n with
  | nil => rfl
  | symbol c rest ih => simp [Bracket.level_of_plain c.command_plain, ih, depth]
  | branch side rest ihs ihr =>
    simp only [commands_branch, Bracket.peak_cons, Bracket.peak_append, Bracket.level_push,
      Bracket.level_pop, level_commands, Nat.add_sub_cancel, ihs, ihr, depth]
    omega

/-- A text is as deep as its branches stand within each other. -/
theorem deepest_commands (t : Nested) : Bracket.deepest t.commands = t.depth := by
  rw [Bracket.deepest, peak_commands, Nat.zero_add]

end Nested

/-! ## Ragged texts -/

/-- A text in pieces: one to begin with, the next ones each behind a stray `]`, and
the last ones each behind a `[` that is never closed. -/
structure Ragged where
  /-- The piece at the beginning. -/
  first : Nested
  /-- The pieces behind stray brackets. -/
  behindStrays : List Nested
  /-- The pieces behind brackets that stay open. -/
  behindOpen : List Nested

namespace Ragged

/-- The text that the pieces make. -/
def symbols (r : Ragged) : List Char :=
  r.first.symbols ++ r.behindStrays.flatMap (fun t => ']' :: t.symbols) ++
    r.behindOpen.flatMap (fun t => '[' :: t.symbols)

/-- The meanings of the symbols. -/
def commands (r : Ragged) : List Command := r.symbols.map .ofSymbol

/-- One more symbol at the front.  A `[` makes a branch of the first piece, if a
`]` stands behind it. -/
def cons (c : Char) (r : Ragged) : Ragged :=
  if hopen : c = '[' then
    match r.behindStrays with
    | [] => ⟨.nil, [], r.first :: r.behindOpen⟩
    | rest :: strays => ⟨.branch r.first rest, strays, r.behindOpen⟩
  else if hclose : c = ']' then ⟨.nil, r.first :: r.behindStrays, r.behindOpen⟩
  else ⟨.symbol ⟨c, hopen, hclose⟩ r.first, r.behindStrays, r.behindOpen⟩

/-- The pieces of a text. -/
def ofSymbols (symbols : List Char) : Ragged := symbols.foldr cons ⟨.nil, [], []⟩

@[simp] theorem ofSymbols_cons (c : Char) (symbols : List Char) :
    ofSymbols (c :: symbols) = (ofSymbols symbols).cons c := rfl

theorem symbols_cons (c : Char) (r : Ragged) : (r.cons c).symbols = c :: r.symbols := by
  unfold cons
  split
  next hopen =>
    subst hopen
    cases hs : r.behindStrays with
    | nil => simp [symbols, Nested.symbols, hs]
    | cons rest strays => simp [symbols, Nested.symbols, hs]
  next hopen =>
    split
    next hclose =>
      subst hclose
      simp [symbols, Nested.symbols]
    next hclose => simp [symbols, Nested.symbols]

/-- Every text is made of pieces. -/
@[simp] theorem symbols_ofSymbols (symbols : List Char) :
    (ofSymbols symbols).symbols = symbols := by
  induction symbols with
  | nil => rfl
  | cons c symbols ih => rw [ofSymbols_cons, symbols_cons, ih]

@[simp] theorem commands_ofSymbols (symbols : List Char) :
    (ofSymbols symbols).commands = symbols.map .ofSymbol := by
  rw [commands, symbols_ofSymbols]

theorem length_behindOpen_cons (c : Char) (r : Ragged) :
    (r.cons c).behindOpen.length =
      r.behindOpen.length + if c = '[' ∧ r.behindStrays = [] then 1 else 0 := by
  unfold cons
  split
  next hopen =>
    cases hs : r.behindStrays with
    | nil => simp [hopen]
    | cons rest strays => simp
  next hopen => split <;> simp [hopen]

theorem commands_eq (r : Ragged) :
    r.commands = r.first.commands ++ r.behindStrays.flatMap (fun t => .pop :: t.commands) ++
      r.behindOpen.flatMap (fun t => .push :: t.commands) := by
  simp [commands, symbols, Nested.commands, List.map_flatMap]

theorem level_strays (ts : List Nested) :
    (ts.flatMap fun t => .pop :: t.commands).foldl Bracket.level 0 = 0 := by
  induction ts with
  | nil => rfl
  | cons t ts ih => simpa using ih

theorem level_open (ts : List Nested) (n : Nat) :
    (ts.flatMap fun t => .push :: t.commands).foldl Bracket.level n = n + ts.length := by
  induction ts generalizing n with
  | nil => rfl
  | cons t ts ih =>
    rw [List.flatMap_cons, List.cons_append, List.foldl_cons, List.foldl_append,
      Bracket.level_push, Nested.level_commands, ih, List.length_cons]
    omega

theorem count_flags_strays (ts : List Nested) :
    (Bracket.flags 0 (ts.flatMap fun t => .pop :: t.commands)).count true = ts.length := by
  induction ts with
  | nil => rfl
  | cons t ts ih => simpa [Bracket.flags_append] using ih

theorem count_flags_open (ts : List Nested) (n : Nat) :
    (Bracket.flags n (ts.flatMap fun t => .push :: t.commands)).count true = 0 := by
  induction ts generalizing n with
  | nil => rfl
  | cons t ts ih => simp [Bracket.flags_append, ih]

/-- As many branches stay open as there are pieces behind open brackets. -/
theorem level_commands (r : Ragged) :
    r.commands.foldl Bracket.level 0 = r.behindOpen.length := by
  rw [commands_eq, List.foldl_append, List.foldl_append, Nested.level_commands, level_strays,
    level_open, Nat.zero_add]

/-- As many `]` are stray as there are pieces behind stray brackets. -/
theorem count_flags (r : Ragged) :
    (Bracket.flags 0 r.commands).count true = r.behindStrays.length := by
  rw [commands_eq, Bracket.flags_append, Bracket.flags_append, List.count_append,
    List.count_append, List.foldl_append, Nested.level_commands, level_strays,
    Nested.count_flags, count_flags_strays, count_flags_open]
  omega

end Ragged

/-! ## Partners -/

namespace Bracket

/-- Every bracket has its partner. -/
def WellBracketed (symbols : List Char) : Prop := ∃ t : Nested, t.symbols = symbols

/-- In a well bracketed text no `]` is stray and no branch stays open. -/
theorem wellBracketed_iff {symbols : List Char} :
    WellBracketed symbols ↔ (flags 0 (symbols.map .ofSymbol)).count true = 0 ∧
      (symbols.map .ofSymbol).foldl level 0 = 0 := by
  constructor
  · rintro ⟨t, rfl⟩
    exact ⟨t.count_flags 0, t.level_commands 0⟩
  · rw [← Ragged.commands_ofSymbols, Ragged.count_flags, Ragged.level_commands,
      List.length_eq_zero_iff, List.length_eq_zero_iff]
    rintro ⟨hstrays, hopen⟩
    refine ⟨(Ragged.ofSymbols symbols).first, ?_⟩
    have h := Ragged.symbols_ofSymbols symbols
    rw [Ragged.symbols, hstrays, hopen] at h
    simpa using h

instance : DecidablePred WellBracketed := fun _ => decidable_of_iff' _ wellBracketed_iff

/-- The `]` at the second position is the partner of the `[` at the first one. -/
structure Closes (symbols : List Char) (i j : Nat) : Prop where
  lt : i < j
  opens : symbols[i]? = some '['
  closes : symbols[j]? = some ']'
  between : WellBracketed ((symbols.take j).drop (i + 1))

theorem closes_iff_and {symbols : List Char} {i j : Nat} :
    Closes symbols i j ↔ i < j ∧ symbols[i]? = some '[' ∧ symbols[j]? = some ']' ∧
      WellBracketed ((symbols.take j).drop (i + 1)) :=
  ⟨fun ⟨hlt, hopen, hclose, hbetween⟩ => ⟨hlt, hopen, hclose, hbetween⟩,
    fun ⟨hlt, hopen, hclose, hbetween⟩ => ⟨hlt, hopen, hclose, hbetween⟩⟩

instance (symbols : List Char) (i j : Nat) : Decidable (Closes symbols i j) :=
  decidable_of_iff' _ closes_iff_and

/-- How many branches are open before a position. -/
def openBefore (symbols : List Char) (i : Nat) : Nat :=
  openAtEnd ((symbols.take i).map .ofSymbol)

theorem openBefore_append (us vs : List Char) :
    openBefore (us ++ vs) us.length = (us.map .ofSymbol).foldl level 0 := by
  simp [openBefore, openAtEnd_eq]

theorem take_cons_drop {symbols : List Char} {i : Nat} {c : Char} (h : symbols[i]? = some c) :
    symbols.take i ++ c :: symbols.drop (i + 1) = symbols := by
  obtain ⟨hi, rfl⟩ := List.getElem?_eq_some_iff.mp h
  rw [List.getElem_cons_drop, List.take_append_drop]

theorem take_branch (us vs : List Char) (t : Nested) :
    (us ++ '[' :: (t.symbols ++ vs)).take (us.length + 1 + t.symbols.length) =
      us ++ '[' :: t.symbols := by
  rw [Nat.add_assoc, List.take_length_add_append, Nat.add_comm, List.take_succ_cons, List.take_left]

theorem closes_append (us vs : List Char) (t : Nested) :
    Closes (us ++ '[' :: (t.symbols ++ ']' :: vs)) us.length
      (us.length + 1 + t.symbols.length) where
  lt := by omega
  opens := by simp
  closes := by simp [Nat.add_assoc, Nat.add_comm 1]
  between := ⟨t, by rw [take_branch]; simp [List.drop_append]⟩

/-- A bracket and its partner enclose a nested text. -/
theorem Closes.exists_append {symbols : List Char} {i j : Nat} (h : Closes symbols i j) :
    ∃ us t vs, symbols = us ++ '[' :: (Nested.symbols t ++ ']' :: vs) ∧ us.length = i ∧
      us.length + 1 + t.symbols.length = j := by
  obtain ⟨t, ht⟩ := h.between
  have hlt := h.lt
  have hj := (List.getElem?_eq_some_iff.mp h.closes).1
  have hopen : (symbols.take j)[i]? = some '[' := by
    rw [List.getElem?_take_of_lt h.lt, h.opens]
  refine ⟨(symbols.take j).take i, t, symbols.drop (j + 1), ?_, ?_, ?_⟩
  · rw [ht, ← List.cons_append, ← List.append_assoc, take_cons_drop hopen, take_cons_drop h.closes]
  · rw [List.length_take, List.length_take]
    omega
  · rw [ht, List.length_drop, List.length_take, List.length_take]
    omega

/-- Behind a `[` one more branch is open, up to its partner. -/
theorem Closes.openBefore_eq {symbols : List Char} {i j : Nat} (h : Closes symbols i j) :
    openBefore symbols j = openBefore symbols i + 1 := by
  obtain ⟨us, t, vs, rfl, rfl, rfl⟩ := h.exists_append
  have ht : t.symbols.map .ofSymbol = t.commands := rfl
  rw [openBefore, openBefore, openAtEnd_eq, openAtEnd_eq, take_branch, List.take_left]
  simp [ht]

/-- A `]` that is not stray has a partner. -/
theorem exists_closes {symbols : List Char} {j n : Nat} (hclose : symbols[j]? = some ']')
    (hopen : openBefore symbols j = n + 1) :
    ∃ i, Closes symbols i j ∧ openBefore symbols i = n := by
  obtain ⟨⟨first, strays, pieces⟩, htake⟩ : ∃ r : Ragged, r.symbols = symbols.take j :=
    ⟨_, Ragged.symbols_ofSymbols _⟩
  rw [openBefore, openAtEnd_eq, ← htake] at hopen
  have hlength := (Ragged.level_commands _).symm.trans hopen
  -- The partner stands before the last piece.
  rcases List.eq_nil_or_concat pieces with rfl | ⟨outer, t, rfl⟩
  · cases hlength
  generalize hus : (Ragged.mk first strays outer).symbols = us
  have hsplit : symbols.take j = us ++ '[' :: t.symbols := by
    rw [← htake, ← hus]
    simp [Ragged.symbols]
  have hj : us.length + 1 + t.symbols.length = j := by
    have hlt := (List.getElem?_eq_some_iff.mp hclose).1
    have hsize := congrArg List.length hsplit
    rw [List.length_take, List.length_append, List.length_cons] at hsize
    omega
  have hcloses := closes_append us (symbols.drop (j + 1)) t
  rw [← List.cons_append, ← List.append_assoc, ← hsplit, take_cons_drop hclose, hj] at hcloses
  have hbefore := hcloses.openBefore_eq
  rw [openBefore, openAtEnd_eq, ← htake] at hbefore
  exact ⟨us.length, hcloses, by omega⟩

end Bracket

end Arbor
