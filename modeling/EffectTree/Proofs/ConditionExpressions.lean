import EffectTree.Proofs.Conditions
import EffectTree.Proofs.RelatedEvaluations

/-!
# Expressions of conditions

The expression that a condition is read as, if it is read as any: a negation is no operand of a
comparison, except that what starts with one is the negation of a comparison. Such an expression
passes the check, and where the names of the condition are bound to truth values it has the value of
the condition with neighbours compared.
-/
namespace EffectTree.Condition

open Expression

/-- Operands that are compared with their neighbours, or the only operand. -/
def compared (first : Expr) (rest : List (CompareOp × Expr)) : Expr :=
  if rest.isEmpty then first else .compare first rest

/-- Operands with a word between them, or the only operand. -/
def joined (isAnd : Bool) (first : Expr) (rest : List Expr) : Expr :=
  if rest.isEmpty then first else .logical isAnd (first :: rest)

def equality (isEqual : Bool) : CompareOp := if isEqual then .eq else .ne

mutual

def Operand.atom? : Operand → Option Expr
  | .constant b => some (.name (constantWord b).text)
  | .name n => some (.name n.text)
  | .negation _ => none
  | .group d => d.expr?

def Operand.leading? : Operand → Option (List (CompareOp × Expr)) → Option Expr
  | .constant b, rest => rest.map (compared (.name (constantWord b).text))
  | .name n, rest => rest.map (compared (.name n.text))
  | .negation o, rest => (o.leading? rest).map (.unary .not)
  | .group d, rest => d.expr?.bind fun e => rest.map (compared e)

def Comparison.expr? : Comparison → Option Expr
  | .mk first rest => first.leading? (comparedExprs? rest)

def comparedExprs? : List (Bool × Operand) → Option (List (CompareOp × Expr))
  | [] => some []
  | (isEqual, o) :: rest =>
    o.atom?.bind fun e => (comparedExprs? rest).map ((equality isEqual, e) :: ·)

def Conjunction.expr? : Conjunction → Option Expr
  | .mk first rest => first.expr?.bind fun e => (conjoinedExprs? rest).map (joined true e)

def conjoinedExprs? : List Comparison → Option (List Expr)
  | [] => some []
  | c :: rest => c.expr?.bind fun e => (conjoinedExprs? rest).map (e :: ·)

def Disjunction.expr? : Disjunction → Option Expr
  | .mk first rest => first.expr?.bind fun e => (disjoinedExprs? rest).map (joined false e)

def disjoinedExprs? : List Conjunction → Option (List Expr)
  | [] => some []
  | c :: rest => c.expr?.bind fun e => (disjoinedExprs? rest).map (e :: ·)

end

theorem isSome_bind_map {α β γ : Type} (a : Option α) (b : Option β) (f : α → β → γ) :
    (a.bind fun x => b.map (f x)).isSome = (a.isSome && b.isSome) := by
  cases a <;> simp

mutual

theorem Operand.isSome_atom? (o : Operand) :
    o.atom?.isSome = (!o.isNegation && o.every areBare) := by
  cases o with
  | constant | name | negation => rfl
  | group d =>
    simpa [Operand.atom?, Operand.isNegation, Operand.every] using Disjunction.isSome_expr? d

theorem Operand.isSome_leading? (o : Operand) (rest : Option (List (CompareOp × Expr))) :
    (o.leading? rest).isSome = (o.every areBare && rest.isSome) := by
  cases o with
  | constant | name => simp [Operand.leading?, Operand.every]
  | negation o => simpa [Operand.leading?, Operand.every] using Operand.isSome_leading? o rest
  | group d => rw [Operand.leading?, isSome_bind_map, Operand.every, Disjunction.isSome_expr? d]

theorem Comparison.isSome_expr? (c : Comparison) : c.expr?.isSome = c.every areBare := by
  obtain ⟨first, rest⟩ := c
  rw [Comparison.expr?, Operand.isSome_leading? first, isSome_comparedExprs? rest, Comparison.every,
    Bool.and_left_comm]

theorem isSome_comparedExprs? (rest : List (Bool × Operand)) :
    (comparedExprs? rest).isSome = (areBare rest && comparedEvery areBare rest) := by
  match rest with
  | [] => rfl
  | (isEqual, o) :: rest =>
    rw [comparedExprs?, isSome_bind_map, Operand.isSome_atom? o, isSome_comparedExprs? rest,
      comparedEvery]
    simp only [areBare, List.all_cons]
    ac_rfl

theorem Conjunction.isSome_expr? (c : Conjunction) : c.expr?.isSome = c.every areBare := by
  obtain ⟨first, rest⟩ := c
  rw [Conjunction.expr?, isSome_bind_map, Comparison.isSome_expr? first,
    isSome_conjoinedExprs? rest,
    Conjunction.every]

theorem isSome_conjoinedExprs? (rest : List Comparison) :
    (conjoinedExprs? rest).isSome = conjoinedEvery areBare rest := by
  match rest with
  | [] => rfl
  | c :: rest =>
    rw [conjoinedExprs?, isSome_bind_map, Comparison.isSome_expr? c, isSome_conjoinedExprs? rest,
      conjoinedEvery]

theorem Disjunction.isSome_expr? (d : Disjunction) : d.expr?.isSome = d.every areBare := by
  obtain ⟨first, rest⟩ := d
  rw [Disjunction.expr?, isSome_bind_map, Conjunction.isSome_expr? first,
    isSome_disjoinedExprs? rest,
    Disjunction.every]

theorem isSome_disjoinedExprs? (rest : List Conjunction) :
    (disjoinedExprs? rest).isSome = disjoinedEvery areBare rest := by
  match rest with
  | [] => rfl
  | c :: rest =>
    rw [disjoinedExprs?, isSome_bind_map, Conjunction.isSome_expr? c, isSome_disjoinedExprs? rest,
      disjoinedEvery]

end

/-- An action gives a truth value and visits a limited number of nodes. -/
def Gives (action : Eval Value) (frame : Frame) (value : Bool) (size : Nat) : Prop :=
  ∃ nodes, nodes ≤ frame.nodes + size ∧ action frame = (.ok (.bool value), { frame with nodes })

section Gives

variable {action : Eval Value} {frame : Frame} {value : Bool} {size : Nat}

theorem gives_pure (value : Bool) (frame : Frame) : Gives (pure (.bool value)) frame value 0 :=
  ⟨frame.nodes, Nat.le_refl _, rfl⟩

theorem Gives.mono {more : Nat} (h : Gives action frame value size) (hle : size ≤ more) :
    Gives action frame value more := by
  obtain ⟨nodes, hnodes, hrun⟩ := h
  exact ⟨nodes, by omega, hrun⟩

theorem Gives.bind {f : Value → Eval Value} {result : Bool} {n : Nat}
    (h : Gives action frame value size)
    (hnext : ∀ nodes ≤ frame.nodes + size, Gives (f (.bool value)) { frame with nodes } result n) :
    Gives (action >>= f) frame result (size + n) := by
  obtain ⟨nodes, hnodes, hrun⟩ := h
  obtain ⟨nodes', hnodes', hrun'⟩ := hnext nodes hnodes
  refine ⟨nodes', by simp only at hnodes'; omega, ?_⟩
  rw [bind_run, hrun]
  exact hrun'

theorem Gives.counted (hlimit : frame.nodes < maxNodes) (node : Expr)
    (h : Gives action { frame with nodes := frame.nodes + 1 } value size) :
    Gives (Expression.counted node action) frame value (size + 1) := by
  obtain ⟨nodes, hnodes, hrun⟩ := h
  refine ⟨nodes, by simp only at hnodes; omega, ?_⟩
  rw [counted_run node action hlimit, hrun]
  rfl

end Gives

section Meaning

variable (env : String → Bool)

/-- The names of a condition are bound to truth values, and the constants are not shadowed. -/
structure Binds (signs : List Sign) (scopes : List (Table Value)) : Prop where
  names : ∀ n : Name, .word n.toFreeWord ∈ signs →
    scopes.findSome? (fun scope => scope.get? n.text) = some (.bool (env n.text))
  constants : ∀ b, scopes.findSome? (fun scope => scope.get? (constantWord b).text) = none

/-- An expression passes the check, has no constants to number and evaluates to a truth value, with
a node for each sign at most. -/
structure Expresses (e : Expr) (value : Bool) (signs : List Sign) : Prop where
  clean : ∀ depth, violations depth e = []
  unlabelled : ∀ n, e.track n = (e, n)
  evaluates : ∀ frame : Frame, Binds env signs frame.scopes →
    frame.nodes + signs.length ≤ maxNodes →
    Gives (counted e (eval e)) frame value signs.length

/-- The same of operands after the first of a comparison: each is compared with the one before it.
There is a sign before each that is no node. -/
structure Compares (rest : List (CompareOp × Expr)) (values : List (Bool × Bool))
    (signs : List Sign) : Prop where
  spare : rest.length ≤ signs.length
  sameLength : rest.length = values.length
  clean : ∀ depth, violationsCompared depth rest = []
  unlabelled : ∀ n, Expr.trackCompared rest n = (rest, n)
  evaluates : ∀ (left : Bool) (frame : Frame), Binds env signs frame.scopes →
    frame.nodes + signs.length ≤ maxNodes + rest.length →
    Gives (evalCompared (.bool left) rest) frame (neighbours left values)
      (signs.length - rest.length)

/-- The same of operands with a word before each of them, after one that decides nothing. -/
structure Joins (isAnd : Bool) (rest : List Expr) (value : Bool) (signs : List Sign) : Prop where
  spare : rest.length ≤ signs.length
  neutral : rest = [] → value = isAnd
  clean : ∀ depth, violationsAll depth rest = []
  unlabelled : ∀ n, Expr.trackAll rest n = (rest, n)
  evaluates : ∀ frame : Frame, Binds env signs frame.scopes →
    frame.nodes + signs.length ≤ maxNodes + rest.length →
    Gives (evalLogical isAnd (.bool isAnd) rest) frame value (signs.length - rest.length)

variable {env}

theorem Binds.mono {few signs : List Sign} {scopes : List (Table Value)}
    (h : Binds env signs scopes) (hsub : few ⊆ signs) : Binds env few scopes :=
  ⟨fun n hn => h.names n (hsub hn), h.constants⟩

/-- The other operands matter where the first one does not decide. -/
def decided (isAnd value rest : Bool) : Bool := if isAnd then value && rest else value || rest

theorem violations_of_public {id : String} (h : id.startsWith "__" = false) (depth : Nat) :
    violations depth (.name id) = [] := by
  change (if id.startsWith "__" then _ else []) = _
  rw [h]
  rfl

theorem expresses_name (n : Name) :
    Expresses env (.name n.text) (env n.text) [.word n.toFreeWord] where
  clean := violations_of_public n.notPrivate
  unlabelled _ := rfl
  evaluates frame hbinds hlimit := by
    have hbound := hbinds.names n List.mem_cons_self
    have hlookup : Gives (Operation.run (.lookup n.text)) { frame with nodes := frame.nodes + 1 }
        (env n.text) 0 := by
      refine ⟨_, Nat.le_refl _, ?_⟩
      simp [Operation.run, lookup, hbound]
    exact hlookup.counted hlimit _

theorem expresses_constant (b : Bool) :
    Expresses env (.name (constantWord b).text) b [.word (constantWord b)] where
  clean := violations_of_public (by cases b <;> simp [constantWord])
  unlabelled _ := rfl
  evaluates frame hbinds hlimit := by
    have hunbound := hbinds.constants b
    have hconstant : constant? (constantWord b).text = some (.bool b) := by cases b <;> rfl
    have hlookup :
        Gives (Operation.run (.lookup (constantWord b).text))
          { frame with nodes := frame.nodes + 1 } b 0 := by
      refine ⟨_, Nat.le_refl _, ?_⟩
      simp [Operation.run, lookup, hunbound, hconstant]
    exact hlookup.counted hlimit _

theorem Expresses.mono {e : Expr} {value : Bool} {signs more : List Sign}
    (h : Expresses env e value signs) (hsub : List.Sublist signs more) :
    Expresses env e value more where
  clean := h.clean
  unlabelled := h.unlabelled
  evaluates frame hbinds hlimit := by
    have hlength := hsub.length_le
    exact (h.evaluates frame (hbinds.mono hsub.subset) (by omega)).mono hlength

theorem Expresses.not {e : Expr} {value : Bool} {signs : List Sign}
    (h : Expresses env e value signs) :
    Expresses env (.unary .not e) (!value) (.bang :: signs) where
  clean depth := h.clean (depth + 1)
  unlabelled n := by
    change (Expr.unary .not (e.track n).1, (e.track n).2) = _
    rw [h.unlabelled]
  evaluates frame hbinds hlimit := by
    rw [List.length_cons] at hlimit ⊢
    refine Gives.counted (by omega) _ ?_
    change Gives (do Operation.run (.unary .not (← counted (m := Eval) e (eval e)))) _ _ _
    have hoperand := h.evaluates { frame with nodes := frame.nodes + 1 }
      (hbinds.mono (List.subset_cons_self _ _)) (by simp only; omega)
    exact hoperand.bind (n := 0) fun nodes _ => gives_pure (!value) _

theorem Compares.nil : Compares env [] [] [] where
  spare := Nat.le_refl _
  sameLength := rfl
  clean _ := rfl
  unlabelled _ := rfl
  evaluates _ frame _ _ := gives_pure true frame

theorem compareOp_equality (isEqual left right : Bool) :
    compareOp (equality isEqual) (.bool left) (.bool right) = .ok ((left == right) == isEqual) := by
  have heqv : Value.eqv (.bool left) (.bool right) = (left == right) := by
    rw [Value.eqv]
    · cases left <;> cases right <;> rfl
    all_goals simp
  cases isEqual <;> simp [compareOp, equality, heqv]

theorem Compares.cons {e : Expr} {value isEqual : Bool} {s : Sign} {signs others : List Sign}
    {rest : List (CompareOp × Expr)} {values : List (Bool × Bool)} (h : Expresses env e value signs)
    (hrest : Compares env rest values others) :
    Compares env ((equality isEqual, e) :: rest) ((isEqual, value) :: values)
      (s :: (signs ++ others)) where
  spare := by
    have := hrest.spare
    simp only [List.length_cons, List.length_append]
    omega
  sameLength := by simp [hrest.sameLength]
  clean depth := List.append_eq_nil_iff.mpr ⟨h.clean depth, hrest.clean depth⟩
  unlabelled n := by
    change ((equality isEqual, (e.track n).1) :: (Expr.trackCompared rest (e.track n).2).1, _) = _
    rw [h.unlabelled, hrest.unlabelled]
  evaluates left frame hbinds hlimit := by
    have hspare := hrest.spare
    simp only [List.length_cons, List.length_append] at hlimit ⊢
    have hsize : signs.length + (others.length - rest.length) =
        signs.length + others.length + 1 - (rest.length + 1) := by omega
    have hright := h.evaluates frame (hbinds.mono (by intro t ht; simp [ht])) (by omega)
    rw [← hsize]
    change Gives (do
      let b ← counted (m := Eval) e (eval e)
      let holds : Bool ← Operation.run (.compare (equality isEqual) (.bool left) b)
      if holds then evalCompared b rest else return .bool false) _ _ _
    refine hright.bind fun nodes hnodes => ?_
    simp only [Operation.run, compareOp_equality, neighbours]
    cases (left == value) == isEqual with
    | false => exact (gives_pure false _).mono (Nat.zero_le _)
    | true =>
      exact hrest.evaluates value _ (hbinds.mono (by intro t ht; simp [ht])) (by simp only; omega)

theorem Expresses.compared {e : Expr} {value : Bool} {signs others : List Sign}
    {rest : List (CompareOp × Expr)} {values : List (Bool × Bool)} (h : Expresses env e value signs)
    (hrest : Compares env rest values others) :
    Expresses env (Condition.compared e rest) (chained false value values) (signs ++ others) := by
  cases rest with
  | nil =>
    obtain rfl : values = [] := List.length_eq_zero_iff.mp hrest.sameLength.symm
    have hvalue : chained false value [] = value := by cases value <;> rfl
    rw [hvalue]
    exact h.mono (List.sublist_append_left _ _)
  | cons next rest =>
    have hvalue : chained false value values = neighbours value values := by
      have hne : values ≠ [] := fun hnil => by simpa [hnil] using hrest.sameLength
      simp [chained, hne]
    rw [hvalue]
    refine ⟨fun depth => ?_, fun n => ?_, fun frame hbinds hlimit => ?_⟩
    · exact List.append_eq_nil_iff.mpr ⟨h.clean (depth + 1), hrest.clean (depth + 1)⟩
    · change (Expr.compare (e.track n).1 (Expr.trackCompared (next :: rest) (e.track n).2).1,
        (Expr.trackCompared (next :: rest) (e.track n).2).2) = _
      rw [h.unlabelled, hrest.unlabelled]
      rfl
    · have hspare := hrest.spare
      simp only [List.length_append, List.length_cons] at hlimit hspare ⊢
      have hfirst := h.evaluates { frame with nodes := frame.nodes + 1 }
        (hbinds.mono (List.subset_append_left _ _)) (by simp only; omega)
      have hall : Gives (eval (.compare e (next :: rest))) { frame with nodes := frame.nodes + 1 }
          (neighbours value values) (signs.length + (others.length - (rest.length + 1))) := by
        change Gives
          (do let a ← counted (m := Eval) e (eval e); evalCompared a (next :: rest)) _ _ _
        refine hfirst.bind fun nodes hnodes => ?_
        exact hrest.evaluates value _ (hbinds.mono (List.subset_append_right _ _))
          (by simp only [List.length_cons] at hnodes ⊢; omega)
      exact (hall.counted (by omega) _).mono (by omega)

theorem Joins.nil (isAnd : Bool) : Joins env isAnd [] isAnd [] where
  spare := Nat.le_refl _
  neutral _ := rfl
  clean _ := rfl
  unlabelled _ := rfl
  evaluates frame _ _ := gives_pure isAnd frame

section Operands

variable {isAnd value others : Bool} {e : Expr} {rest : List Expr} {signs more : List Sign}

/-- The operands after the first one are looked at where it does not decide. -/
theorem Joins.gives_evalLogical (h : Expresses env e value signs)
    (hrest : Joins env isAnd rest others more) (last : Value) {frame : Frame}
    (hbinds : Binds env (signs ++ more) frame.scopes)
    (hlimit : frame.nodes + signs.length + more.length ≤ maxNodes + rest.length) :
    Gives (evalLogical isAnd last (e :: rest)) frame (decided isAnd value others)
      (signs.length + (more.length - rest.length)) := by
  have hspare := hrest.spare
  have hfirst := h.evaluates frame (hbinds.mono (List.subset_append_left _ _)) (by omega)
  have hmore := hbinds.mono (List.subset_append_right signs more)
  change Gives (do
    let v ← counted (m := Eval) e (eval e)
    if v.truthy ≠ isAnd then return v else evalLogical isAnd v rest) _ _ _
  refine hfirst.bind fun nodes hnodes => ?_
  have hothers := hrest.evaluates { frame with nodes } hmore (by simp only; omega)
  have hvalue := gives_pure value { frame with nodes }
  cases isAnd <;> cases value
  case true.true => simpa [decided, Value.truthy] using hothers
  case false.false => simpa [decided, Value.truthy] using hothers
  all_goals simpa [decided, Value.truthy] using hvalue.mono (Nat.zero_le _)

theorem Joins.cons {s : Sign} (h : Expresses env e value signs)
    (hrest : Joins env isAnd rest others more) :
    Joins env isAnd (e :: rest) (decided isAnd value others) (s :: (signs ++ more)) where
  spare := by
    have := hrest.spare
    simp only [List.length_cons, List.length_append]
    omega
  neutral := by simp
  clean depth := List.append_eq_nil_iff.mpr ⟨h.clean depth, hrest.clean depth⟩
  unlabelled n := by
    change ((e.track n).1 :: (Expr.trackAll rest (e.track n).2).1, _) = _
    rw [h.unlabelled, hrest.unlabelled]
  evaluates frame hbinds hlimit := by
    have hspare := hrest.spare
    simp only [List.length_cons, List.length_append] at hlimit ⊢
    exact (hrest.gives_evalLogical h _ (hbinds.mono (List.subset_cons_self _ _)) (by omega)).mono
      (by omega)

theorem Expresses.joined (h : Expresses env e value signs)
    (hrest : Joins env isAnd rest others more) :
    Expresses env (Condition.joined isAnd e rest) (decided isAnd value others) (signs ++ more) := by
  cases rest with
  | nil =>
    obtain rfl := hrest.neutral rfl
    have hvalue : decided others value others = value := by cases others <;> cases value <;> rfl
    rw [hvalue]
    exact h.mono (List.sublist_append_left _ _)
  | cons next rest =>
    refine ⟨fun depth => ?_, fun n => ?_, fun frame hbinds hlimit => ?_⟩
    · exact List.append_eq_nil_iff.mpr ⟨h.clean (depth + 1), hrest.clean (depth + 1)⟩
    · change (Expr.logical isAnd ((e.track n).1 :: (Expr.trackAll (next :: rest) (e.track n).2).1),
        (Expr.trackAll (next :: rest) (e.track n).2).2) = _
      rw [h.unlabelled, hrest.unlabelled]
      rfl
    · have hspare := hrest.spare
      simp only [List.length_append, List.length_cons] at hlimit hspare ⊢
      have hall : Gives (eval (.logical isAnd (e :: next :: rest)))
          { frame with nodes := frame.nodes + 1 } _ _ :=
        hrest.gives_evalLogical h .null hbinds (by simp only [List.length_cons]; omega)
      exact (hall.counted (by omega) _).mono (by simp only [List.length_cons]; omega)

end Operands

theorem Disjunction.sublist_group (d : Disjunction) : d.signs.Sublist (Operand.group d).signs :=
  (List.sublist_append_left _ [Sign.closing]).cons Sign.opening

variable (env)

mutual

theorem Operand.expresses_atom? (o : Operand) {e : Expr} (h : o.atom? = some e) :
    Expresses env e ((o.parts chained env).1 != (o.parts chained env).2) o.signs := by
  cases o with
  | constant b =>
    cases h
    simpa [Operand.parts] using expresses_constant b
  | name n =>
    cases h
    simpa [Operand.parts] using expresses_name n
  | negation o => cases h
  | group d =>
    simpa [Operand.parts] using (Disjunction.expresses_expr? d h).mono d.sublist_group

theorem Operand.expresses_leading? (o : Operand) {rest : Option (List (CompareOp × Expr))}
    {values : List (Bool × Bool)} {others : List Sign}
    (hrest : ∀ es, rest = some es → Compares env es values others) {e : Expr}
    (h : o.leading? rest = some e) :
    Expresses env e (chained (o.parts chained env).1 (o.parts chained env).2 values)
      (o.signs ++ others) := by
  cases o with
  | constant b =>
    obtain ⟨es, hes, rfl⟩ := Option.map_eq_some_iff.mp h
    exact (expresses_constant b).compared (hrest es hes)
  | name n =>
    obtain ⟨es, hes, rfl⟩ := Option.map_eq_some_iff.mp h
    exact (expresses_name n).compared (hrest es hes)
  | negation o =>
    obtain ⟨e, he, rfl⟩ := Option.map_eq_some_iff.mp h
    have hoperand := (Operand.expresses_leading? o hrest he).not
    simpa [Operand.parts, chained] using hoperand
  | group d =>
    obtain ⟨e, he, hcompared⟩ := Option.bind_eq_some_iff.mp h
    obtain ⟨es, hes, rfl⟩ := Option.map_eq_some_iff.mp hcompared
    exact ((Disjunction.expresses_expr? d he).mono d.sublist_group).compared (hrest es hes)

theorem Comparison.expresses_expr? (c : Comparison) {e : Expr} (h : c.expr? = some e) :
    Expresses env e (c.value chained env) c.signs := by
  obtain ⟨first, rest⟩ := c
  exact Operand.expresses_leading? first (fun es hes => compares_comparedExprs? rest hes) h

theorem compares_comparedExprs? (rest : List (Bool × Operand)) {es : List (CompareOp × Expr)}
    (h : comparedExprs? rest = some es) :
    Compares env es (comparedValues chained env rest) (comparedSigns rest) := by
  match rest with
  | [] =>
    cases h
    exact Compares.nil
  | (isEqual, o) :: rest =>
    obtain ⟨e, he, hmore⟩ := Option.bind_eq_some_iff.mp h
    obtain ⟨es, hes, rfl⟩ := Option.map_eq_some_iff.mp hmore
    exact (compares_comparedExprs? rest hes).cons (Operand.expresses_atom? o he)

theorem Conjunction.expresses_expr? (c : Conjunction) {e : Expr} (h : c.expr? = some e) :
    Expresses env e (c.value chained env) c.signs := by
  obtain ⟨first, rest⟩ := c
  obtain ⟨e, he, hmore⟩ := Option.bind_eq_some_iff.mp h
  obtain ⟨es, hes, rfl⟩ := Option.map_eq_some_iff.mp hmore
  exact (Comparison.expresses_expr? first he).joined (joins_conjoinedExprs? rest hes)

theorem joins_conjoinedExprs? (rest : List Comparison) {es : List Expr}
    (h : conjoinedExprs? rest = some es) :
    Joins env true es (allValues chained env rest) (conjoinedSigns rest) := by
  match rest with
  | [] =>
    cases h
    exact Joins.nil true
  | c :: rest =>
    obtain ⟨e, he, hmore⟩ := Option.bind_eq_some_iff.mp h
    obtain ⟨es, hes, rfl⟩ := Option.map_eq_some_iff.mp hmore
    exact Joins.cons (Comparison.expresses_expr? c he) (joins_conjoinedExprs? rest hes)

/-- The expression of a condition has its value with neighbours compared. -/
theorem Disjunction.expresses_expr? (d : Disjunction) {e : Expr} (h : d.expr? = some e) :
    Expresses env e (d.value chained env) d.signs := by
  obtain ⟨first, rest⟩ := d
  obtain ⟨e, he, hmore⟩ := Option.bind_eq_some_iff.mp h
  obtain ⟨es, hes, rfl⟩ := Option.map_eq_some_iff.mp hmore
  exact (Conjunction.expresses_expr? first he).joined (joins_disjoinedExprs? rest hes)

theorem joins_disjoinedExprs? (rest : List Conjunction) {es : List Expr}
    (h : disjoinedExprs? rest = some es) :
    Joins env false es (anyValue chained env rest) (disjoinedSigns rest) := by
  match rest with
  | [] =>
    cases h
    exact Joins.nil false
  | c :: rest =>
    obtain ⟨e, he, hmore⟩ := Option.bind_eq_some_iff.mp h
    obtain ⟨es, hes, rfl⟩ := Option.map_eq_some_iff.mp hmore
    exact Joins.cons (Conjunction.expresses_expr? c he) (joins_disjoinedExprs? rest hes)

end

end Meaning

end EffectTree.Condition
