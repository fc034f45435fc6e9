import EffectTree.Proofs.ConditionExpressions
import EffectTree.Proofs.ConditionTokens

/-!
# Reading conditions

Each level of precedence reads the signs of its part of a condition, whatever comes after them that
cannot belong to the part, and gives the expression of the part or, if there is none, fails. Levels
that have no operators among the signs read what the next level reads.
-/
namespace EffectTree.Condition

open Expression Expression.Parser

abbrev tokens (signs : List Sign) : List Token := signs.map Sign.token

/-- The symbols that are signs. -/
def signSymbols : List String := ["==", "!=", "(", ")"]

/-- The words that are signs other than names and constants. -/
def signWords : List String := ["not", "and", "or"]

theorem Sign.token_ne_symbol {t : String} (ht : t ∉ signSymbols) (s : Sign) :
    s.token ≠ .symbol t := by
  rintro h
  cases s <;> cases h <;> simp [signSymbols] at ht

theorem Sign.token_ne_word {w : String} (hw : w ∈ reserved ∧ w ∉ signWords) (s : Sign) :
    s.token ≠ .word w := by
  rintro h
  cases s with
  | word free =>
    cases h
    exact free.notReserved hw.1
  | bang | both | either =>
    cases h
    simp [signWords] at hw
  | equal | unequal | opening | closing => cases h

theorem run_next {α β : Type} {p : Parser α} {f : α → Parser β} {ts rest : List Token} {a : α}
    (h : p.run ts = some (a, rest)) : (p >>= f).run ts = (f a).run rest := by
  rw [StateT.run_bind, h]
  rfl

theorem mem_signSymbols {t : String} {signs : List Sign} (h : Token.symbol t ∈ tokens signs) :
    t ∈ signSymbols := by
  obtain ⟨s, -, hs⟩ := List.mem_map.mp h
  by_contra ht
  exact s.token_ne_symbol ht hs

theorem find?_of_foreign {α : Type} {operators : List (String × α)}
    (h : ∀ t ∈ operators.map (·.1), t ∉ signSymbols) {t : String} (ht : t ∈ signSymbols) :
    operators.find? (·.1 = t) = none := by
  refine List.find?_eq_none.mpr fun entry hentry heq => h entry.1 (List.mem_map_of_mem hentry) ?_
  rwa [of_decide_eq_true heq]

section Next

variable {t w : String} {signs : List Sign}

theorem run_atSymbol (h : ∀ s ∈ signs.head?, s.token ≠ .symbol t) :
    (atSymbol t).run (tokens signs) = some (false, tokens signs) := by
  cases signs with
  | nil => rfl
  | cons s rest =>
    have hs : s.token ≠ .symbol t := h s rfl
    simp only [atSymbol, StateT.run_bind, StateT.run_get, tokens, List.map_cons]
    cases htoken : s.token with
    | symbol u =>
      have hne : t ≠ u := fun heq => hs (htoken ▸ heq ▸ rfl)
      simp [hne]
    | word | number | text | newline => rfl

theorem run_atWord (h : ∀ s ∈ signs.head?, s.token ≠ .word w) :
    (atWord w).run (tokens signs) = some (false, tokens signs) := by
  cases signs with
  | nil => rfl
  | cons s rest =>
    have hs : s.token ≠ .word w := h s rfl
    simp only [atWord, StateT.run_bind, StateT.run_get, tokens, List.map_cons]
    cases htoken : s.token with
    | word u =>
      have hne : w ≠ u := fun heq => hs (htoken ▸ heq ▸ rfl)
      simp [hne]
    | symbol | number | text | newline => rfl

theorem run_symbol? (h : ∀ s ∈ signs.head?, s.token ≠ .symbol t) :
    (symbol? t).run (tokens signs) = some (false, tokens signs) := by
  rw [symbol?, run_next (run_atSymbol h)]
  rfl

theorem run_word? (h : ∀ s ∈ signs.head?, s.token ≠ .word w) :
    (word? w).run (tokens signs) = some (false, tokens signs) := by
  rw [word?, run_next (run_atWord h)]
  rfl

theorem run_nameBefore? (ht : t ∉ signSymbols) (signs : List Sign) :
    (nameBefore? t).run (tokens signs) = some (none, tokens signs) := by
  simp only [nameBefore?, StateT.run_bind, StateT.run_get, Option.pure_def, Option.bind_eq_bind,
    Option.bind_some]
  split
  · rename_i v u rest hsigns
    have hmem : Token.symbol u ∈ tokens signs := by simp [hsigns]
    have hne : t ≠ u := fun heq => ht (heq ▸ mem_signSymbols hmem)
    simp [hne]
  · rfl

theorem run_word?_self (w : String) (ts : List Token) :
    (word? w).run (.word w :: ts) = some (true, ts) := by
  have hat : (atWord w).run (.word w :: ts) = some (true, .word w :: ts) := by
    simp [atWord]
  rw [word?, run_next hat]
  rfl

theorem run_foreign_symbol? (ht : t ∉ signSymbols) (signs : List Sign) :
    (symbol? t).run (tokens signs) = some (false, tokens signs) :=
  run_symbol? fun s _ => s.token_ne_symbol ht

theorem run_foreign_atSymbol (ht : t ∉ signSymbols) (signs : List Sign) :
    (atSymbol t).run (tokens signs) = some (false, tokens signs) :=
  run_atSymbol fun s _ => s.token_ne_symbol ht

theorem run_foreign_word? (hw : w ∈ reserved ∧ w ∉ signWords) (signs : List Sign) :
    (word? w).run (tokens signs) = some (false, tokens signs) :=
  run_word? fun s _ => s.token_ne_word hw

theorem run_foreign_atWord (hw : w ∈ reserved ∧ w ∉ signWords) (signs : List Sign) :
    (atWord w).run (tokens signs) = some (false, tokens signs) :=
  run_atWord fun s _ => s.token_ne_word hw

theorem run_atClause (signs : List Sign) :
    Grammar.atClause.run (tokens signs) = some (false, tokens signs) := by
  rw [Grammar.atClause, run_next (run_foreign_atWord (by decide) signs),
    run_next (run_foreign_atWord (by decide) signs)]
  rfl

end Next

/-- The precedence of a sign. What is read at a level ends before signs of that level and lower
ones. -/
def Sign.level : Sign → Nat
  | .closing => 0
  | .either => 1
  | .both => 2
  | .equal => 3
  | .unequal => 3
  | _ => 4

/-- A parser takes some signs, whatever signs of a level at most come after them, and gives an
outcome. -/
def Reads {α : Type} (p : Parser α) (signs : List Sign) (level : Nat) (outcome : Option α) : Prop :=
  ∀ after : List Sign, (∀ s ∈ after.head?, s.level ≤ level) →
    p.run (tokens (signs ++ after)) = outcome.map (·, tokens after)

/-- Repetition reads some signs with enough fuel. Each item begins with a sign of the next level. -/
structure Repeats {α : Type} (p : Parser (Option α)) (signs : List Sign) (level : Nat)
    (outcome : Option (List α)) :
    Prop where
  starts : ∀ s ∈ signs.head?, s.level = level + 1
  reads : ∀ fuel, signs.length < fuel → Reads (manyFrom p fuel) signs level outcome

theorem Repeats.many {α : Type} {p : Parser (Option α)} {level : Nat} {items : Option (List α)}
    (h : Repeats p signs level items) : Reads (many p) signs level items := by
  intro after hafter
  exact h.reads _ (by rw [List.length_map, List.length_append]; omega) after hafter

theorem Repeats.nil {α : Type} {p : Parser (Option α)} {level : Nat}
    (h : Reads p [] level (some none)) :
    Repeats p [] level (some []) where
  starts := by simp
  reads fuel hfuel after hafter := by
    obtain ⟨k, rfl⟩ : ∃ k, fuel = k + 1 := ⟨fuel - 1, by simp at hfuel; omega⟩
    have hstop := h after hafter
    rw [manyFrom, StateT.run_bind, hstop]
    rfl

theorem head?_append_level {signs after : List Sign} {level : Nat}
    (hsigns : ∀ s ∈ signs.head?, s.level = level + 1)
    (hafter : ∀ s ∈ after.head?, s.level ≤ level) :
    ∀ s ∈ (signs ++ after).head?, s.level ≤ level + 1 := by
  intro s hs
  cases signs with
  | nil => exact Nat.le_succ_of_le (hafter s hs)
  | cons t signs => exact (hsigns s hs).le

theorem Repeats.cons {α : Type} {p : Parser (Option α)} {level : Nat} {s : Sign}
    {others : List Sign} {item : Option α} {items : Option (List α)} (hs : s.level = level + 1)
    (h : Reads p (s :: signs) (level + 1) (item.map some)) (hrest : Repeats p others level items) :
    Repeats p (s :: (signs ++ others)) level (item.bind fun a => items.map (a :: ·)) where
  starts := by simpa using hs
  reads fuel hfuel after hafter := by
    simp only [List.length_cons, List.length_append] at hfuel
    obtain ⟨k, rfl⟩ : ∃ k, fuel = k + 1 := ⟨fuel - 1, by omega⟩
    have hitem := h (others ++ after) (head?_append_level hrest.starts hafter)
    have hitems := hrest.reads k (by omega) after hafter
    have hall : s :: (signs ++ others) ++ after = s :: signs ++ (others ++ after) := by simp
    rw [hall, manyFrom, StateT.run_bind, hitem]
    cases item with
    | none => rfl
    | some a =>
      simp only [Option.map_some, Option.bind_eq_bind, Option.bind_some, StateT.run_bind, hitems]
      cases items <;> rfl

theorem Reads.bind {α β : Type} {p : Parser α} {f : α → Parser β} {signs others : List Sign}
    {level m : Nat}
    {first : Option α} {next : α → Option β} (h : Reads p signs m first)
    (hstart : ∀ after : List Sign, (∀ s ∈ after.head?, s.level ≤ level) →
      ∀ s ∈ (others ++ after).head?, s.level ≤ m)
    (hf : ∀ a, Reads (f a) others level (next a)) :
    Reads (p >>= f) (signs ++ others) level (first.bind next) := by
  intro after hafter
  rw [List.append_assoc, StateT.run_bind, h (others ++ after) (hstart after hafter)]
  cases first with
  | none => rfl
  | some a => exact hf a after hafter

theorem Reads.map {α β : Type} {p : Parser α} {signs : List Sign} {level : Nat} {result : Option α}
    (h : Reads p signs level result) (f : α → β) :
    Reads (do let a ← p; return f a) signs level (result.map f) := by
  intro after hafter
  rw [StateT.run_bind, h after hafter]
  cases result <;> rfl

/-- An item and what is repeated after it. -/
theorem Reads.followed {α β γ : Type} {p : Parser α} {q : Parser (Option β)}
    {signs others : List Sign} {level : Nat} {first : Option α} {items : Option (List β)}
    (h : Reads p signs (level + 1) first) (hrest : Repeats q others level items)
    (f : α → List β → γ) :
    Reads (do let a ← p; let bs ← many q; return f a bs) (signs ++ others) level
      (first.bind fun a => items.map (f a)) :=
  h.bind (fun _ hafter => head?_append_level hrest.starts hafter) fun a => hrest.many.map (f a)

variable {g : Grammar} {signs : List Sign} {outcome : Option Expr}

theorem run_trailers (fuel : Nat) (e : Expr) (h : ∀ s ∈ signs.head?, s.level ≤ 3) :
    (g.trailers (fuel + 1) e).run (tokens signs) = some (e, tokens signs) := by
  have hopening : ∀ s ∈ signs.head?, s.token ≠ .symbol "(" := by
    intro s hs htoken
    have hlevel := h s hs
    cases s <;> simp [Sign.token, Sign.level] at hlevel htoken
  rw [Grammar.trailers, run_next (run_foreign_symbol? (by decide) signs), if_neg Bool.false_ne_true,
    run_next (run_symbol? hopening), if_neg Bool.false_ne_true,
    run_next (run_foreign_symbol? (by decide) signs)]
  rfl

theorem Reads.primary (h : Reads g.atom signs 3 outcome) : Reads g.primary signs 3 outcome := by
  intro after hafter
  rw [Grammar.primary, StateT.run_bind, h after hafter]
  cases outcome with
  | none => rfl
  | some e => exact run_trailers _ e hafter

theorem Reads.power (h : Reads g.atom signs 3 outcome) : Reads g.power signs 3 outcome := by
  intro after hafter
  have hprimary := h.primary after hafter
  simp only [Grammar.power, StateT.run_bind, run_foreign_word? (w := "await") (by decide),
    Option.bind_eq_bind,
    Option.bind_some, Bool.false_eq_true, if_false, hprimary]
  cases outcome with
  | none => rfl
  | some e =>
    simp only [Option.map_some, Option.bind_some, run_foreign_symbol? (t := "**") (by decide)]
    rfl

theorem Reads.signed (h : Reads g.atom signs 3 outcome) : Reads g.signed signs 3 outcome := by
  intro after hafter
  have hpower := h.power after hafter
  simp only [Grammar.signed, StateT.run_bind, StateT.run_get, Option.pure_def, Option.bind_eq_bind,
    Option.bind_some]
  split
  · rename_i u rest hsigns
    have hmem : Token.symbol u ∈ tokens (signs ++ after) := by simp [hsigns]
    have hnone : Grammar.signs.find? (·.1 = u) = none :=
      find?_of_foreign (by decide) (mem_signSymbols hmem)
    simp only [hnone]
    exact hpower
  · exact hpower

/-- One operator with its right operand, or nothing. -/
def operation (operators : List (String × BinaryOp)) (operand : Parser Expr) :
    Parser (Option (BinaryOp × Expr)) := do
  match ← get with
  | .symbol s :: more =>
      match operators.find? (·.1 = s) with
      | some (_, op) => set more; return some (op, ← operand)
      | none => return none
  | _ => return none

section Operators

variable {operators : List (String × BinaryOp)}
    (hforeign : ∀ t ∈ operators.map (·.1), t ∉ signSymbols)
include hforeign

theorem run_operation (operand : Parser Expr) (signs : List Sign) :
    (operation operators operand).run (tokens signs) = some (none, tokens signs) := by
  simp only [operation, StateT.run_bind, StateT.run_get, Option.pure_def, Option.bind_eq_bind,
    Option.bind_some]
  split
  · rename_i u rest hsigns
    have hmem : Token.symbol u ∈ tokens signs := by simp [hsigns]
    simp only [find?_of_foreign hforeign (mem_signSymbols hmem)]
    rfl
  · rfl

theorem Reads.leftAssociative {p : Parser Expr} (h : Reads p signs 3 outcome) :
    Reads (Grammar.leftAssociative operators p) signs 3 outcome := by
  have hstop : Repeats (operation operators p) [] 3 (some []) :=
    .nil fun after _ => run_operation hforeign p after
  have hall : Reads (Grammar.leftAssociative operators p) (signs ++ []) 3 (outcome.bind fun first =>
      (some []).map fun rest => rest.foldl (fun left (op, right) => .binary op left right) first) :=
    h.bind (fun _ hafter => hafter) fun first => hstop.many.map _
  cases outcome <;> simpa using hall

end Operators

theorem Reads.binary (h : Reads g.atom signs 3 outcome) : Reads g.binary signs 3 outcome := by
  have hlevels : ∀ operators ∈ Grammar.binaryLevels, ∀ t ∈ operators.map (·.1),
    t ∉ signSymbols := by decide
  rw [Grammar.binary, Grammar.binaryFrom]
  generalize Grammar.binaryLevels = levels at hlevels
  induction levels with
  | nil => exact h.signed
  | cons operators levels ih =>
    simp only [List.mem_cons, forall_eq_or_imp] at hlevels
    exact (ih hlevels.2).leftAssociative hlevels.1

theorem Reads.conditional (h : Reads g.alternatives signs 0 outcome) :
    Reads g.conditional signs 0 outcome := by
  intro after hafter
  rw [Grammar.conditional, run_next (run_foreign_word? (by decide) _), if_neg Bool.false_ne_true,
    StateT.run_bind,
    h after hafter]
  cases outcome with
  | none => rfl
  | some e =>
    simp only [Option.map_some, Option.bind_eq_bind, Option.bind_some]
    rw [run_next (run_foreign_word? (by decide) _)]
    rfl

theorem Reads.starNamed {level : Nat} (h : Reads g.expression signs level outcome) :
    Reads g.starNamed signs level outcome := by
  intro after hafter
  rw [Grammar.starNamed, run_next (run_foreign_symbol? (by decide) _), if_neg Bool.false_ne_true,
    Grammar.named,
    run_next (run_nameBefore? (by decide) _), StateT.run_bind, h after hafter]
  cases outcome with
  | none => rfl
  | some e =>
    simp only [Option.map_some, Option.bind_eq_bind, Option.bind_some]
    rw [run_next (run_foreign_atSymbol (by decide) _)]
    rfl

theorem reads_word (w : FreeWord) (level : Nat) :
    Reads g.atom [.word w] level (some (.name w.text)) := by
  intro after _
  have hfree : reserved.contains w.text = false := by simpa using w.notReserved
  have hne {v : String} (hv : v ∈ reserved) : w.text ≠ v := fun heq => w.notReserved (heq ▸ hv)
  simp only [Grammar.atom, StateT.run_bind, StateT.run_get, tokens, List.map_append, List.map_cons,
    Sign.token]
  simp only [List.map_nil, Option.pure_def, Option.bind_eq_bind, Option.bind_some, List.cons_append]
  split
  case h_1 heq | h_2 heq | h_3 heq =>
    simp only [List.cons.injEq, Token.word.injEq] at heq
    exact absurd heq.1 (hne (by decide))
  case h_4 v rest _ _ _ heq =>
    simp only [List.cons.injEq, Token.word.injEq] at heq
    obtain ⟨rfl, rfl⟩ := heq
    simp only [hfree, Bool.false_eq_true, if_false]
    rfl
  case h_11 _ _ _ _ hword _ _ _ _ _ _ => exact absurd rfl (hword _ _)
  all_goals simp_all

theorem reads_bang (signs : List Sign) (level : Nat) : Reads g.atom (.bang :: signs) level none :=
  fun _ _ => rfl

theorem Reads.group (h : Reads g.expression signs 0 outcome)
    (hstart : ∀ s ∈ signs.head?, s ≠ .closing) (hne : signs ≠ [])
    (hbare : ∀ e ∈ outcome, isStarred e = false) (level : Nat) :
    Reads g.atom (.opening :: (signs ++ [.closing])) level outcome := by
  intro after _
  have hinner := h.starNamed (.closing :: after) (by simp [Sign.level])
  have hatom : g.atom.run (tokens (.opening :: (signs ++ [.closing]) ++ after)) =
      g.parenthesized.run (tokens (signs ++ .closing :: after)) := by
    simp [Grammar.atom, StateT.run_bind, StateT.run_get, Sign.token]
  have hclosing : ∀ s ∈ (signs ++ .closing :: after).head?, s.token ≠ .symbol ")" := by
    obtain ⟨first, others, rfl⟩ := List.exists_cons_of_ne_nil hne
    have hfirst : first ≠ .closing := hstart first rfl
    cases first <;> simp [Sign.token] at hfirst ⊢
  rw [hatom, Grammar.parenthesized, run_next (run_symbol? hclosing), if_neg Bool.false_ne_true,
    run_next (run_foreign_word? (by decide) _), if_neg Bool.false_ne_true, StateT.run_bind, hinner]
  cases outcome with
  | none => rfl
  | some e =>
    have he : isStarred e = false := hbare e rfl
    simp only [Option.map_some, Option.bind_eq_bind, Option.bind_some]
    rw [run_next (run_atClause _), if_neg Bool.false_ne_true,
      run_next (run_foreign_symbol? (by decide) _)]
    simp only [Bool.false_eq_true, if_false, he]
    rfl

/-- One operator of a comparison with its right operand, or nothing. -/
def comparing (g : Grammar) : Parser (Option (CompareOp × Expr)) := do
  match ← Grammar.compareOp? with
  | some op => return some (op, ← g.binary)
  | none => return none

/-- One operand with a word before it, or nothing. -/
def joining (w : String) (operand : Parser Expr) : Parser (Option Expr) := do
  if ← word? w then return some (← operand) else return none

theorem Repeats.comparing_nil : Repeats (comparing g) [] 2 (some []) := by
  refine .nil fun after hafter => ?_
  have hstop : Grammar.compareOp?.run (tokens after) = some (none, tokens after) := by
    cases after with
    | nil => rfl
    | cons s after =>
      have hs := hafter s rfl
      cases s <;> first | rfl | simp [Sign.level] at hs
  exact run_next hstop

theorem Repeats.comparing_cons {isEqual : Bool} {others : List Sign}
    {items : Option (List (CompareOp × Expr))} (h : Reads g.binary signs 3 outcome)
    (hrest : Repeats (comparing g) others 2 items) :
    Repeats (comparing g) ((if isEqual then .equal else .unequal) :: (signs ++ others)) 2
      (outcome.bind fun e => items.map ((equality isEqual, e) :: ·)) := by
  have hitem : Reads (comparing g) ((if isEqual then .equal else .unequal) :: signs) 3
      ((outcome.map fun e => (equality isEqual, e)).map some) := by
    intro after hafter
    have hop : Grammar.compareOp?.run
        (tokens ((if isEqual then .equal else .unequal) :: signs ++ after)) =
        some (some (equality isEqual), tokens (signs ++ after)) := by
      cases isEqual <;> rfl
    rw [comparing, run_next hop]
    have hright := (h.map fun e => some (equality isEqual, e)) after hafter
    simp only [Option.map_map, Function.comp_def] at hright ⊢
    exact hright
  have hcons := Repeats.cons (by cases isEqual <;> rfl) hitem hrest
  cases outcome <;> exact hcons

theorem Repeats.joining_nil {w : String} {p : Parser Expr} {level : Nat}
    (h : ∀ s : Sign, s.level ≤ level → s.token ≠ .word w) :
    Repeats (joining w p) [] level (some []) :=
  .nil fun _ hafter => run_next (run_word? fun s hs => h s (hafter s hs))

theorem Repeats.joining_cons {w : String} {p : Parser Expr} {level : Nat} {s : Sign}
    {others : List Sign} {items : Option (List Expr)} (hs : s.token = .word w ∧ s.level = level + 1)
    (h : Reads p signs (level + 1) outcome) (hrest : Repeats (joining w p) others level items) :
    Repeats (joining w p) (s :: (signs ++ others)) level
      (outcome.bind fun e => items.map (e :: ·)) := by
  refine Repeats.cons hs.2 ?_ hrest
  intro after hafter
  have hword : (word? w).run (tokens (s :: signs ++ after)) =
      some (true, tokens (signs ++ after)) := by
    simp only [tokens, List.cons_append, List.map_cons, hs.1]
    exact run_word?_self w _
  rw [joining, run_next hword]
  exact h.map some after hafter

theorem Reads.comparison {others : List Sign} {items : Option (List (CompareOp × Expr))}
    (h : Reads g.binary signs 3 outcome) (hrest : Repeats (comparing g) others 2 items) :
    Reads g.comparison (signs ++ others) 2 (outcome.bind fun e => items.map (compared e)) :=
  h.followed hrest compared

theorem Reads.joinedBy {w : String} {isAnd : Bool} {p : Parser Expr} {level : Nat}
    {others : List Sign} {items : Option (List Expr)} (h : Reads p signs (level + 1) outcome)
    (hrest : Repeats (joining w p) others level items) :
    Reads (Grammar.joinedBy w isAnd p) (signs ++ others) level
      (outcome.bind fun e => items.map (joined isAnd e)) :=
  h.followed hrest (joined isAnd)

theorem Reads.negation (h : Reads g.comparison signs 2 outcome)
    (hstart : ∀ s ∈ signs.head?, s ≠ .bang) (hne : signs ≠ []) :
    Reads g.negation signs 2 outcome := by
  intro after hafter
  have hnot : ∀ s ∈ (signs ++ after).head?, s.token ≠ .word "not" := by
    obtain ⟨first, others, rfl⟩ := List.exists_cons_of_ne_nil hne
    have hfirst : first ≠ .bang := hstart first rfl
    have htoken : first.token ≠ .word "not" := by
      cases first with
      | word w =>
        intro heq
        have htext : w.text = "not" := Token.word.inj heq
        exact w.notReserved (by simp [htext, reserved])
      | bang => exact absurd rfl hfirst
      | equal | unequal | both | either | opening | closing => simp [Sign.token]
    simpa using htoken
  rw [Grammar.negation, run_next (run_word? hnot), if_neg Bool.false_ne_true]
  exact h after hafter

theorem Reads.bang (h : Reads g.inversion signs 2 outcome) :
    Reads g.negation (.bang :: signs) 2 (outcome.map (Expr.unary .not)) := by
  intro after hafter
  have hnot := run_word?_self "not" (tokens (signs ++ after))
  have hrun : g.negation.run (tokens (.bang :: signs ++ after)) = _ := run_next hnot
  rw [hrun]
  exact h.map (Expr.unary .not) after hafter

theorem Operand.exists_cons (o : Operand) :
    ∃ s rest, o.signs = s :: rest ∧ s ≠ .closing ∧ (s = .bang → o.isNegation) := by
  cases o <;> simp [Operand.isNegation]

theorem Disjunction.exists_cons (d : Disjunction) :
    ∃ s rest, d.signs = s :: rest ∧ s ≠ .closing := by
  obtain ⟨⟨⟨first, others⟩, more⟩, rest⟩ := d
  obtain ⟨s, signs, hsigns, hs, -⟩ := first.exists_cons
  simp [hsigns, hs]

theorem Disjunction.signs_ne_nil (d : Disjunction) : d.signs ≠ [] := by
  obtain ⟨s, rest, hsigns, -⟩ := d.exists_cons
  simp [hsigns]

theorem isStarred_of_clean {e : Expr} (h : violations 0 e = []) : isStarred e = false := by
  cases e with
  | unsupported form => simp [violations] at h
  | _ => rfl

theorem Disjunction.reads_group (d : Disjunction) {k : Nat}
    (h : Reads (grammar k).conditional d.signs 0 d.expr?) :
    Reads (grammar (k + 1)).binary (Operand.group d).signs 3 d.expr? := by
  obtain ⟨s, rest, hsigns, hs⟩ := d.exists_cons
  have hexpression : Reads (grammar (k + 1)).expression d.signs 0 d.expr? := h
  refine (hexpression.group ?_ d.signs_ne_nil ?_ 3).binary
  · simpa [hsigns] using hs
  · intro e he
    exact isStarred_of_clean ((d.expresses_expr? (fun _ => false) he).clean 0)

mutual

theorem Operand.reads_binary (o : Operand) {k : Nat} (h : o.signs.length ≤ k) :
    Reads (grammar k).binary o.signs 3 o.atom? := by
  cases o with
  | constant b => exact (reads_word _ 3).binary
  | name n => exact (reads_word _ 3).binary
  | negation o => exact (reads_bang _ 3).binary
  | group d =>
    obtain ⟨k, rfl⟩ : ∃ j, k = j + 1 := ⟨k - 1, by simp at h; omega⟩
    exact d.reads_group (Disjunction.reads_conditional d (by simp at h; omega))

/-- A comparison from its first operand on. Each negation at its start takes the rest of the
comparison as what it negates, and is a level of nesting. -/
theorem Operand.reads_negation (o : Operand) {others : List Sign}
    {items : Option (List (CompareOp × Expr))}
    (hrest : ∀ k, others.length ≤ k → Repeats (comparing (grammar k)) others 2 items) {k : Nat}
    (h : o.signs.length + others.length ≤ k) :
    Reads (grammar k).negation (o.signs ++ others) 2 (o.leading? items) := by
  cases o with
  | constant b =>
    exact ((reads_word _ 3).binary.comparison (hrest k (by omega))).negation (by simp) (by simp)
  | name n =>
    exact ((reads_word _ 3).binary.comparison (hrest k (by omega))).negation (by simp) (by simp)
  | negation o =>
    simp only [Operand.signs, List.length_cons] at h
    obtain ⟨k, rfl⟩ : ∃ j, k = j + 1 := ⟨k - 1, by omega⟩
    have hinner : Reads (grammar (k + 1)).inversion (o.signs ++ others) 2 (o.leading? items) :=
      Operand.reads_negation o hrest (by omega)
    exact hinner.bang
  | group d =>
    simp only [Operand.signs, List.length_cons, List.length_append, List.length_nil] at h
    obtain ⟨k, rfl⟩ : ∃ j, k = j + 1 := ⟨k - 1, by omega⟩
    have hfirst := d.reads_group (Disjunction.reads_conditional d (k := k) (by omega))
    exact (hfirst.comparison (hrest _ (by omega))).negation (by simp) (by simp)

theorem Comparison.reads_negation (c : Comparison) {k : Nat} (h : c.signs.length ≤ k) :
    Reads (grammar k).negation c.signs 2 c.expr? := by
  obtain ⟨first, rest⟩ := c
  simp only [Comparison.signs, List.length_append] at h
  exact Operand.reads_negation first (fun _ hk => repeats_compared rest hk) h

theorem repeats_compared (rest : List (Bool × Operand)) {k : Nat}
    (h : (comparedSigns rest).length ≤ k) :
    Repeats (comparing (grammar k)) (comparedSigns rest) 2 (comparedExprs? rest) := by
  match rest with
  | [] => exact .comparing_nil
  | (isEqual, o) :: rest =>
    simp only [comparedSigns, List.length_cons, List.length_append] at h
    exact .comparing_cons (Operand.reads_binary o (by omega)) (repeats_compared rest (by omega))

theorem Conjunction.reads_conjunction (c : Conjunction) {k : Nat} (h : c.signs.length ≤ k) :
    Reads (grammar k).conjunction c.signs 1 c.expr? := by
  obtain ⟨first, rest⟩ := c
  simp only [Conjunction.signs, List.length_append] at h
  exact (Comparison.reads_negation first (by omega)).joinedBy (repeats_conjoined rest (by omega))

theorem repeats_conjoined (rest : List Comparison) {k : Nat}
    (h : (conjoinedSigns rest).length ≤ k) :
    Repeats (joining "and" (grammar k).negation) (conjoinedSigns rest) 1
      (conjoinedExprs? rest) := by
  match rest with
  | [] => exact .joining_nil fun s hs => by cases s <;> simp [Sign.level, Sign.token] at hs ⊢
  | c :: rest =>
    simp only [conjoinedSigns, List.length_cons, List.length_append] at h
    exact .joining_cons ⟨rfl, rfl⟩ (Comparison.reads_negation c (by omega))
      (repeats_conjoined rest (by omega))

theorem Disjunction.reads_conditional (d : Disjunction) {k : Nat} (h : d.signs.length ≤ k) :
    Reads (grammar k).conditional d.signs 0 d.expr? := by
  obtain ⟨first, rest⟩ := d
  simp only [Disjunction.signs, List.length_append] at h
  exact ((Conjunction.reads_conjunction first (by omega)).joinedBy
    (repeats_disjoined rest (by omega))).conditional

theorem repeats_disjoined (rest : List Conjunction) {k : Nat}
    (h : (disjoinedSigns rest).length ≤ k) :
    Repeats (joining "or" (grammar k).conjunction) (disjoinedSigns rest) 0
      (disjoinedExprs? rest) := by
  match rest with
  | [] => exact .joining_nil fun s hs => by cases s <;> simp [Sign.level, Sign.token] at hs ⊢
  | c :: rest =>
    simp only [disjoinedSigns, List.length_cons, List.length_append] at h
    exact .joining_cons ⟨rfl, rfl⟩ (Conjunction.reads_conjunction c (by omega))
      (repeats_disjoined rest (by omega))

end

/-- A comma with what comes after it, or nothing. -/
def further (g : Grammar) : Parser (Option (Option Expr)) := do
  if ← symbol? "," then
    match ← get with
    | [] => return some none
    | .newline :: _ => return some none
    | _ => return some (some (← g.expression))
  else return none

theorem Reads.expressions (h : Reads g.expression signs 0 outcome) :
    Reads (Expression.expressions g) signs 0 outcome := by
  have hstop : Repeats (further g) [] 0 (some []) :=
    .nil fun after _ => run_next (run_foreign_symbol? (by decide) after)
  have hall : Reads (Expression.expressions g) (signs ++ []) 0
      (outcome.bind fun first => (some []).map fun rest =>
        if rest.isEmpty then first else .tuple (first :: rest.filterMap id)) :=
    h.bind (fun _ hafter => hafter) fun first => hstop.many.map _
  cases outcome <;> simpa using hall

theorem Spells.length_le {spelling : Spelling} (hsolid : spelling.IsSolid) {cs : List Char}
    (h : Spells spelling signs cs) : signs.length ≤ cs.length := by
  induction h with
  | done => simp
  | @sign blanks s signs cs hblanks hparts hrest ih =>
    have := List.length_pos_iff.mpr (hsolid s).1
    simp only [List.length_append, List.length_cons]
    omega

/-- A condition is read as its expression, unless its parentheses nest too deeply. -/
theorem Disjunction.parse?_of_spells (d : Disjunction) {text : String}
    (h : Spells respelled d.signs text.toList) (hstart : text.toList.head?.all (!isGap ·) = true) :
    parse? text = if d.nesting ≤ maxBrackets then d.expr? else none := by
  have hlength := h.length_le respelled_isSolid
  have hreads : Reads (grammar (text.toList.length + 1)).expression d.signs 0 d.expr? :=
    d.reads_conditional hlength
  have hall := hreads.expressions [] (by simp)
  rw [List.append_nil] at hall
  rw [parse?, d.tokens?_of_spells h hstart]
  by_cases hnesting : d.nesting ≤ maxBrackets
  · simp only [if_pos hnesting, hall]
    cases d.expr? <;> rfl
  · simp only [if_neg hnesting]

end EffectTree.Condition
