import EffectTree.Proofs.ConditionParsing

/-!
# Conditions as expressions

A condition is accepted as a body unless an operand after the first of a comparison is negated
without parentheses or parentheses nest too deeply. Where its names are bound to truth values it
then has the value of the condition with neighbours compared, which is its value if no comparison
goes on after its second operand.
-/
namespace EffectTree.Condition

open Expression

/-- Names are bound to truth values, and the constants are not bound. -/
structure Assigns (env : String → Bool) (signs : List Sign) (bindings : Table Value) : Prop where
  names : ∀ n : Name, .word n.toFreeWord ∈ signs → bindings.get? n.text = some (.bool (env n.text))
  constants : ∀ b, bindings.get? (constantWord b).text = none

theorem get?_foldl_track (key : String) (table acc : Table Value) (n : Nat) :
    ∃ m, Table.get? (table.foldl (fun (acc, n) (name, v) =>
      let (v, next) := Value.track v n
      ((name, v) :: acc, next)) (acc, n)).1.reverse key =
        (Table.get? acc.reverse key).or ((table.get? key).map fun v => (Value.track v m).1) := by
  induction table generalizing acc n with
  | nil => exact ⟨0, by simp⟩
  | cons entry table ih =>
    obtain ⟨name, v⟩ := entry
    obtain ⟨m, hm⟩ := ih ((name, (Value.track v n).1) :: acc) (Value.track v n).2
    rw [List.reverse_cons, Table.get?_append, Table.get?_cons, Table.get?_nil] at hm
    rw [Table.get?_cons]
    by_cases hname : name = key
    · exact ⟨n, by simpa [hname] using hm⟩
    · exact ⟨m, by simpa [hname] using hm⟩

/-- Numbering the values of a table keeps what its keys stand for. -/
theorem get?_trackTable (table : Table Value) (n : Nat) (key : String) :
    ∃ m, (Value.trackTable table n).1.get? key = (table.get? key).map fun v =>
      (Value.track v m).1 := by
  obtain ⟨m, hm⟩ := get?_foldl_track key table [] n
  exact ⟨m, by simp [Value.trackTable, hm]⟩

theorem Assigns.binds {env : String → Bool} {signs : List Sign} {bindings : Table Value}
    (h : Assigns env signs bindings) (n : Nat) :
    Binds env signs [(Value.trackTable bindings n).1] where
  names name hname := by
    obtain ⟨m, hm⟩ := get?_trackTable bindings n name.text
    rw [h.names name hname] at hm
    simp only [List.findSome?_cons, hm]
    rfl
  constants b := by
    obtain ⟨m, hm⟩ := get?_trackTable bindings n (constantWord b).text
    rw [h.constants b] at hm
    simp only [List.findSome?_cons, hm]
    rfl

theorem Expresses.evaluate {env : String → Bool} {e : Expr} {value : Bool} {signs : List Sign}
    {bindings : Table Value} (h : Expresses env e value signs)
    (hassigns : Assigns env signs bindings) (hlimit : signs.length ≤ maxNodes) :
    Expression.evaluate e bindings = .ok (.bool value) := by
  obtain ⟨nodes, -, hrun⟩ := h.evaluates
    { scopes := [(Value.trackTable bindings 0).1], things := (Value.trackTable bindings 0).2 }
      (hassigns.binds 0)
    (by simpa using hlimit)
  simp only [Expression.evaluate, prepared, h.unlabelled, hrun]
  rfl

theorem violation?_of_clean {e : Expr} (h : ∀ depth, violations depth e = []) :
    violation? e = none := by
  rw [violation?, h]
  rfl

section Compile

variable (d : Disjunction) {source : String} (h : Spells scripted d.signs source.toList)
include h

theorem Disjunction.compile_of_expr {e : Expr} (hexpr : d.expr? = some e)
    (hnesting : d.nesting ≤ maxBrackets) :
    compile source = .ok ⟨defaultParams, e⟩ := by
  obtain ⟨text, htext, hstart, -, hcompile⟩ := compile_of_spells d.signs_ne_nil h
  refine hcompile e ?_ (violation?_of_clean (d.expresses_expr? (fun _ => false) hexpr).clean)
  rw [d.parse?_of_spells htext hstart, if_pos hnesting, hexpr]

theorem Disjunction.compile_of_no_expr (hnone : d.expr? = none ∨ ¬ d.nesting ≤ maxBrackets) :
    compile source =
      .error (.expression ("Invalid expression " ++ Text.quoted (Text.strip source) ++
        ": invalid syntax")) := by
  obtain ⟨text, htext, hstart, hcompile, -⟩ := compile_of_spells d.signs_ne_nil h
  refine hcompile ?_
  rw [d.parse?_of_spells htext hstart]
  rcases hnone with hexpr | hnesting
  · rw [hexpr, ite_self]
  · rw [if_neg hnesting]

end Compile

def spaced : List Sign → List Char
  | [] => []
  | s :: signs => ' ' :: (scripted.chars s ++ spaced signs)

/-- Every condition can be written. -/
theorem spells_spaced (signs : List Sign) : Spells scripted signs (spaced signs) := by
  induction signs with
  | nil => exact .done rfl
  | cons s signs ih =>
    have hblank : [' '].all isGap = true := rfl
    have hparts : (spaced signs).head?.all (scripted.parts s) = true := by
      cases signs <;> cases s <;> rfl
    exact .sign hblank hparts ih

theorem assigns_of_truths {signs : List Sign} {truths : Table Bool}
    (hnames : ∀ n : Name, .word n.toFreeWord ∈ signs → n.text ∈ truths.keys)
    (hconstants : ∀ b, (constantWord b).text ∉ truths.keys) :
    Assigns (fun name => (truths.get? name).getD false) signs
      (truths.map fun entry => (entry.1, .bool entry.2)) where
  names n hn := by
    obtain ⟨b, hb⟩ := Option.isSome_iff_exists.mp (Table.get?_isSome.mpr (hnames n hn))
    rw [Table.get?_map Value.bool, hb]
    rfl
  constants b := by
    have hnone : truths.get? (constantWord b).text = none :=
      Option.not_isSome_iff_eq_none.mp fun hsome => hconstants b (Table.get?_isSome.mp hsome)
    rw [Table.get?_map Value.bool, hnone]
    rfl

/-- A condition is accepted as a body exactly if no operand after the first of a comparison is a
negation and its parentheses do not nest too deeply. Its value is then that of the condition with
neighbours compared, the value of the condition itself where every comparison has two operands at
most. -/
theorem compiled_condition_value (d : Disjunction) {source : String}
    (h : Spells scripted d.signs source.toList) :
    (¬ (d.isReadable = true ∧ d.nesting ≤ maxBrackets) → compile source =
      .error (.expression ("Invalid expression " ++ Text.quoted (Text.strip source) ++
        ": invalid syntax"))) ∧
    (d.isReadable = true ∧ d.nesting ≤ maxBrackets →
      ∃ body, compile source = .ok ⟨defaultParams, body⟩ ∧
      ∀ env bindings, Assigns env d.signs bindings → d.signs.length ≤ maxNodes →
        evaluate body bindings = .ok (.bool (d.value chained env)) ∧
        (d.isUnchained = true →
          evaluate body bindings = .ok (.bool (d.value leftToRight env)))) := by
  have hreadable : d.expr?.isSome = d.isReadable := d.isSome_expr?
  refine ⟨fun hrefused => d.compile_of_no_expr h ?_, fun ⟨hread, hnesting⟩ => ?_⟩
  · rw [← hreadable, not_and_or, Option.not_isSome_iff_eq_none] at hrefused
    exact hrefused
  · obtain ⟨e, he⟩ := Option.isSome_iff_exists.mp (hreadable.trans hread)
    refine ⟨e, d.compile_of_expr h he hnesting, fun env bindings hassigns hlimit => ?_⟩
    have hvalue := (d.expresses_expr? env he).evaluate hassigns hlimit
    exact ⟨hvalue, fun hunchained => by rw [hvalue, d.value_of_unchained env hunchained]⟩

def nameA : Name := ⟨⟨⟨"a", by decide, by simp⟩, by decide⟩, by simp, by decide⟩

def nameB : Name := ⟨⟨⟨"b", by decide, by simp⟩, by decide⟩, by simp, by decide⟩

def nameC : Name := ⟨⟨⟨"c", by decide, by simp⟩, by decide⟩, by simp, by decide⟩

/-- The condition `!a && (b !== true || a)`. -/
def guarded : Disjunction :=
  .mk (.mk (.mk (.negation (.name nameA)) [])
    [.mk (.group (.mk (.mk (.mk (.name nameB) [(false, .constant true)]) [])
      [.mk (.mk (.name nameA) []) []])) []]) []

theorem guarded_condition_value :
    Spells scripted guarded.signs (String.ofList (spaced guarded.signs)).toList ∧
      (guarded.isReadable = true ∧ guarded.nesting ≤ maxBrackets) ∧ guarded.isUnchained = true ∧
      ∃ body, compile (String.ofList (spaced guarded.signs)) = .ok ⟨defaultParams, body⟩ ∧
        evaluate body [("a", .bool false), ("b", .bool false)] = .ok (.bool true) := by
  have hspells : Spells scripted guarded.signs (String.ofList (spaced guarded.signs)).toList := by
    rw [String.toList_ofList]
    exact spells_spaced _
  have hread : guarded.isReadable = true ∧ guarded.nesting ≤ maxBrackets := by decide
  have hnames (n : Name) (hn : .word n.toFreeWord ∈ guarded.signs) :
      n.text ∈ Table.keys [("a", false), ("b", false)] := by
    simp [guarded] at hn
    rcases hn with h | h | h | h
    · simp [h, nameA, Table.keys]
    · simp [h, nameB, Table.keys]
    · exact absurd (congrArg (·.text) h) n.notConstant.1
    · simp [h, nameA, Table.keys]
  have hassigns := assigns_of_truths hnames (by decide)
  obtain ⟨body, hcompile, hvalue⟩ := (compiled_condition_value guarded hspells).2 hread
  exact ⟨hspells, hread, by decide, body, hcompile, (hvalue _ _ hassigns (by decide)).2 (by decide)⟩

/-- The condition `a === !b`. -/
def negatedOperand : Disjunction :=
  .mk (.mk (.mk (.name nameA) [(true, .negation (.name nameB))]) []) []

/-- The condition `a === b === c`. -/
def chain : Disjunction :=
  .mk (.mk (.mk (.name nameA) [(true, .name nameB), (true, .name nameC)]) []) []

theorem spells_negatedOperand : Spells scripted negatedOperand.signs "a === !b".toList := by
  have htext : "a === !b".toList = [] ++ (scripted.chars (.word nameA.toFreeWord) ++
      ([' '] ++ (scripted.chars .equal ++ ([' '] ++ (scripted.chars .bang ++
        ([] ++ (scripted.chars (.word nameB.toFreeWord) ++ []))))))) := by
    decide
  rw [htext]
  exact .sign rfl rfl (.sign rfl rfl (.sign rfl rfl (.sign rfl rfl (.done rfl))))

theorem spells_chain : Spells scripted chain.signs "a === b === c".toList := by
  have htext : "a === b === c".toList = [] ++ (scripted.chars (.word nameA.toFreeWord) ++
      ([' '] ++ (scripted.chars .equal ++ ([' '] ++ (scripted.chars (.word nameB.toFreeWord) ++
        ([' '] ++ (scripted.chars .equal ++
          ([' '] ++ (scripted.chars (.word nameC.toFreeWord) ++ []))))))))) := by
    decide
  rw [htext]
  exact .sign rfl rfl (.sign rfl rfl (.sign rfl rfl (.sign rfl rfl (.sign rfl rfl (.done rfl)))))

/-- A negated operand is refused, and a chain of comparisons gets another value than it has. -/
theorem negation_and_chain_misread :
    (Spells scripted negatedOperand.signs "a === !b".toList ∧
      ∃ fault, compile "a === !b" = .error fault) ∧
      Spells scripted chain.signs "a === b === c".toList ∧
      chain.value leftToRight (fun name =>
        (Table.get? [("a", false), ("b", false), ("c", true)] name).getD false) =
        true ∧
      ∃ body, compile "a === b === c" = .ok ⟨defaultParams, body⟩ ∧
        evaluate body [("a", .bool false), ("b", .bool false), ("c", .bool true)] =
          .ok (.bool false) := by
  have hnames (n : Name) (hn : .word n.toFreeWord ∈ chain.signs) :
      n.text ∈ Table.keys [("a", false), ("b", false), ("c", true)] := by
    simp [chain] at hn
    rcases hn with h | h | h <;> simp [h, nameA, nameB, nameC, Table.keys]
  have hassigns := assigns_of_truths hnames (by decide)
  have hvalue := (chain.expresses_expr? _ rfl).evaluate hassigns (by decide)
  exact ⟨⟨spells_negatedOperand, _, negatedOperand.compile_of_no_expr spells_negatedOperand
    (.inl rfl)⟩, spells_chain,
    by decide, _, chain.compile_of_expr spells_chain rfl (by decide), hvalue⟩

end EffectTree.Condition
