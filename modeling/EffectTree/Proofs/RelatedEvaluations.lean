import EffectTree.Expression.Evaluation

/-!
# Related evaluations

Evaluation is one recursion for all evaluators, and it uses of them no more than sequencing,
operations and scopes. So two evaluators whose steps are related give related evaluations of every
expression. Relations may depend on the names that can be looked up, and may ask less inside a scope
of its own, where alone names are bound.
-/
namespace EffectTree

namespace Expr

mutual

/-- The names that a target binds. -/
def targetNames : Expr → List String
  | .name id => [id]
  | .tuple targets => targetNamesAll targets
  | _ => []

def targetNamesAll : List Expr → List String
  | [] => []
  | t :: ts => t.targetNames ++ targetNamesAll ts

end

mutual

/-- The names that an evaluation may look up without having bound them. The name of a called
function is not looked up in scopes. -/
def free : Expr → List String
  | .constant _ | .unsupported _ => []
  | .name id => [id]
  | .binary _ left right => left.free ++ right.free
  | .unary _ operand => operand.free
  | .logical _ operands => freeAll operands
  | .compare first rest => first.free ++ freeCompared rest
  | .conditional test yes no => test.free ++ (yes.free ++ no.free)
  | .item target key => target.free ++ key.free
  | .slice lower upper step => freeOption lower ++ (freeOption upper ++ freeOption step)
  | .field target _ => target.free
  | .call function args keywords => freeAll args ++ (freeKeywords keywords ++ freeCalled function)
  | .list items | .tuple items | .set items => freeAll items
  | .dict entries => freeEntries entries
  | .text parts => freeAll parts
  | .formatted value _ spec => value.free ++ freeOption spec
  | .comprehension _ element generators => freeGenerators element.free generators

def freeCalled : Expr → List String
  | .field target _ => target.free
  | _ => []

def freeOption : Option Expr → List String
  | none => []
  | some e => e.free

def freeAll : List Expr → List String
  | [] => []
  | e :: es => e.free ++ freeAll es

def freeCompared : List (CompareOp × Expr) → List String
  | [] => []
  | (_, e) :: rest => e.free ++ freeCompared rest

def freeKeywords : List (Option String × Expr) → List String
  | [] => []
  | (_, e) :: rest => e.free ++ freeKeywords rest

def freeEntries : List Entry → List String
  | [] => []
  | .pair key value :: rest => key.free ++ (value.free ++ freeEntries rest)
  | .spread _ :: rest => freeEntries rest

/-- The free names of generators around an element with free names of its own. The names of a
generator are bound in its conditions and in what follows. -/
def freeGenerators (element : List String) : List Generator → List String
  | [] => element
  | .clause target source conditions _ :: rest =>
      source.free ++ (freeAll conditions ++ freeGenerators element rest).filter
        (· ∉ target.targetNames)

end

end Expr

namespace Expression

open Evaluator

/-- Relations between two evaluators that sequencing, operations and scopes keep: one for
evaluations of expressions and one for what happens inside a scope of its own, both for names that
can be looked up. -/
structure Respects {m n : Type → Type} [Evaluator m] [Evaluator n]
    (R S : List String → ∀ {α : Type}, m α → n α → Prop) : Prop where
  pure : ∀ (names : List String) {α : Type} (a : α), R names (Pure.pure a) (Pure.pure a)
  bind : ∀ {names : List String} {α β : Type} {x : m α} {y : n α} {f : α → m β} {g : α → n β},
    R names x y → (∀ a, R names (f a) (g a)) → R names (x >>= f) (y >>= g)
  /-- Operations that bind nothing, and look up no other names. -/
  perform : ∀ {names : List String} (o : Operation), (∀ name, o = .lookup name → name ∈ names) →
    (∀ target v, o ≠ .bind target v) → R names (Evaluator.perform o) (Evaluator.perform o)
  /-- An action in a scope of its own. -/
  inScope : ∀ {names : List String} {α : Type} {x : m α} {y : n α},
    S names x y → R names (Evaluator.inScope x) (Evaluator.inScope y)
  within : ∀ {names : List String} {α : Type} {x : m α} {y : n α}, R names x y → S names x y
  follow : ∀ {names : List String} {α β : Type} {x : m α} {y : n α} {f : α → m β} {g : α → n β},
    S names x y → (∀ a, S names (f a) (g a)) → S names (x >>= f) (y >>= g)
  /-- Names that are bound can be looked up in what follows. -/
  binding : ∀ {names : List String} {α : Type} {x : m α} {y : n α} (target : Expr) (v : Value),
    S (target.targetNames ++ names) x y →
    S names (Evaluator.perform (.bind target v) >>= fun _ => x)
      (Evaluator.perform (.bind target v) >>= fun _ => y)

namespace Respects

variable {m n : Type → Type} [Evaluator m] [Evaluator n]

/-- One relation for all, whatever can be looked up. -/
theorem of_all {R : ∀ {α : Type}, m α → n α → Prop}
    (hpure : ∀ {α : Type} (a : α), R (Pure.pure a) (Pure.pure a))
    (hbind : ∀ {α β : Type} {x : m α} {y : n α} {f : α → m β} {g : α → n β},
      R x y → (∀ a, R (f a) (g a)) → R (x >>= f) (y >>= g))
    (hperform : ∀ o : Operation, R (Evaluator.perform o) (Evaluator.perform o))
    (hinScope : ∀ {α : Type} {x : m α} {y : n α}, R x y →
      R (Evaluator.inScope x) (Evaluator.inScope y)) :
    Respects (m := m) (n := n) (fun _ => R) (fun _ => R) where
  pure _ := hpure
  bind := hbind
  perform o _ _ := hperform o
  inScope := hinScope
  within := id
  follow := hbind
  binding _ _ h := hbind (hperform _) fun _ => h

section Nodes

variable {R S : List String → ∀ {α : Type}, m α → n α → Prop} (h : Respects R S)
include h

theorem refuse {names : List String} {α : Type} (text : String) :
    R names (Expression.refuse text : m α) (Expression.refuse text : n α) :=
  h.bind (h.perform _ nofun nofun) fun never => never.elim

theorem refuseCall {names : List String} {α : Type} (function : Expr) :
    R names (Expression.refuseCall function : m α) (Expression.refuseCall function : n α) :=
  h.bind (h.perform _ nofun nofun) fun never => never.elim

theorem apply {names : List String} (o : Operation) (hlookup : ∀ name, o ≠ .lookup name)
    (hbind : ∀ target v, o ≠ .bind target v) :
    R names (Evaluator.perform o) (Evaluator.perform o) :=
  h.perform o (fun name heq => absurd heq (hlookup name)) hbind

theorem counted {names : List String} {x : m Value} {y : n Value} (node : Expr)
    (hxy : R names x y) :
    R names (Expression.counted node x) (Expression.counted node y) :=
  h.bind (h.apply _ nofun nofun) fun _ => h.bind hxy fun _ => h.apply _ nofun nofun

omit [Evaluator m] [Evaluator n] h in
theorem ite {names : List String} {α : Type} {c : Prop} [Decidable c] {x x' : m α} {y y' : n α}
    (hx : R names x y) (hx' : R names x' y') :
    R names (if c then x else x') (if c then y else y') := by
  split
  · exact hx
  · exact hx'

theorem foldlM {names : List String} {α β : Type} {f : β → α → m β} {g : β → α → n β}
    (hfg : ∀ b a, S names (f b a) (g b a)) (as : List α) (b : β) :
    S names (as.foldlM f b) (as.foldlM g b) := by
  induction as generalizing b with
  | nil => exact h.within (h.pure names b)
  | cons a as ih => exact h.follow (hfg b a) ih

mutual

/-- Related evaluators give related evaluations of an expression. -/
theorem eval {names : List String} : (e : Expr) → e.free ⊆ names →
    R names (Expression.eval e) (Expression.eval e)
  | .constant v, _ => h.pure names v
  | .name id, hfree =>
    h.perform _ (fun name heq => by cases heq; exact hfree (List.mem_singleton_self _)) nofun
  | .binary op left right, hfree => by
      obtain ⟨hleft, hright⟩ := List.append_subset.mp hfree
      exact h.bind (h.counted left (eval left hleft)) fun a =>
        h.bind (h.counted right (eval right hright)) fun b => h.apply _ nofun nofun
  | .unary op operand, hfree =>
    h.bind (h.counted operand (eval operand hfree)) fun v => h.apply _ nofun nofun
  | .logical isAnd operands, hfree => evalLogical isAnd .null operands hfree
  | .compare first rest, hfree => by
      obtain ⟨hfirst, hrest⟩ := List.append_subset.mp hfree
      exact h.bind (h.counted first (eval first hfirst)) fun a => evalCompared a rest hrest
  | .conditional test yes no, hfree => by
      obtain ⟨htest, hbranches⟩ := List.append_subset.mp hfree
      obtain ⟨hyes, hno⟩ := List.append_subset.mp hbranches
      exact h.bind (h.counted test (eval test htest)) fun v =>
        ite (h.counted yes (eval yes hyes)) (h.counted no (eval no hno))
  | .item target key, hfree => by
      obtain ⟨htarget, hkey⟩ := List.append_subset.mp hfree
      simp only [Expression.eval]
      refine h.bind (h.counted target (eval target htarget)) fun t => ?_
      cases key with
      | slice lower upper step =>
        obtain ⟨hlower, hrest⟩ := List.append_subset.mp hkey
        obtain ⟨hupper, hstep⟩ := List.append_subset.mp hrest
        exact h.bind (evalOption lower hlower) fun l => h.bind (evalOption upper hupper) fun u =>
          h.bind (evalOption step hstep) fun s => h.apply _ nofun nofun
      | _ => exact h.bind (h.counted _ (eval _ hkey)) fun k => h.apply _ nofun nofun
  | .slice .., _ => h.refuse _
  | .field target name, hfree =>
    h.bind (h.counted target (eval target hfree)) fun v => h.apply _ nofun nofun
  | .call function args keywords, hfree => by
      obtain ⟨hargs, hrest⟩ := List.append_subset.mp hfree
      obtain ⟨hkeywords, hfunction⟩ := List.append_subset.mp hrest
      simp only [Expression.eval]
      refine h.bind (evalAll args hargs) fun positional =>
        h.bind (evalKeywords keywords [] hkeywords) fun named => ?_
      refine ite (h.refuse _) ?_
      cases function with
      | field target name =>
        exact h.bind (h.counted target (eval target hfunction)) fun t => h.apply _ nofun nofun
      | name id =>
        dsimp only
        split
        · exact h.apply _ nofun nofun
        · exact h.refuseCall _
      | _ => exact h.refuseCall _
  | .list items, hfree | .tuple items, hfree => h.bind (evalAll items hfree) fun vs => h.pure ..
  | .set items, hfree => h.bind (evalMembers items hfree) fun vs => h.pure ..
  | .dict entries, hfree => by
      simp only [Expression.eval]
      exact ite (h.refuse _) (h.bind (evalEntries entries [] hfree) fun es => h.pure ..)
  | .text parts, hfree => h.bind (evalParts parts hfree) fun vs => h.apply _ nofun nofun
  | .formatted .., _ => h.refuse _
  | .comprehension _ element generators, hfree =>
      h.bind (h.inScope (generate (fun hnames => h.counted element (eval element hnames)) generators
        {} hfree))
        fun c => h.pure ..
  | .unsupported _, _ => h.refuse _

theorem evalOption {names : List String} : (e? : Option Expr) → Expr.freeOption e? ⊆ names →
    R names (Expression.evalOption e?) (Expression.evalOption e?)
  | none, _ => h.pure ..
  | some e, hfree => h.counted e (eval e hfree)

theorem evalAll {names : List String} : (es : List Expr) → Expr.freeAll es ⊆ names →
    R names (Expression.evalAll es) (Expression.evalAll es)
  | [], _ => h.pure ..
  | e :: es, hfree => by
      obtain ⟨he, hes⟩ := List.append_subset.mp hfree
      exact h.bind (h.counted e (eval e he)) fun v => h.bind (evalAll es hes) fun vs => h.pure ..

theorem evalLogical {names : List String} (isAnd : Bool) (last : Value) : (es : List Expr) →
    Expr.freeAll es ⊆ names → R names (Expression.evalLogical isAnd last es)
      (Expression.evalLogical isAnd last es)
  | [], _ => h.pure ..
  | e :: es, hfree => by
      obtain ⟨he, hes⟩ := List.append_subset.mp hfree
      exact h.bind (h.counted e (eval e he)) fun v => ite (h.pure ..) (evalLogical isAnd v es hes)

theorem evalCompared {names : List String} (a : Value) : (rest : List (CompareOp × Expr)) →
    Expr.freeCompared rest ⊆ names →
      R names (Expression.evalCompared a rest) (Expression.evalCompared a rest)
  | [], _ => h.pure ..
  | (op, right) :: rest, hfree => by
      obtain ⟨hright, hrest⟩ := List.append_subset.mp hfree
      exact h.bind (h.counted right (eval right hright)) fun b => h.bind (h.apply _ nofun nofun)
        fun holds =>
        ite (evalCompared b rest hrest) (h.pure ..)

theorem evalKeywords {names : List String} :
    (keywords : List (Option String × Expr)) → (acc : Table Value) →
    Expr.freeKeywords keywords ⊆ names →
    R names (Expression.evalKeywords keywords acc) (Expression.evalKeywords keywords acc)
  | [], acc, _ => h.pure names acc
  | (none, _) :: rest, acc, hfree => evalKeywords rest acc (List.append_subset.mp hfree).2
  | (some _, e) :: rest, _, hfree => by
      obtain ⟨he, hrest⟩ := List.append_subset.mp hfree
      exact h.bind (h.counted e (eval e he)) fun v => evalKeywords rest _ hrest

theorem evalMembers {names : List String} : (es : List Expr) → Expr.freeAll es ⊆ names →
    R names (Expression.evalMembers es) (Expression.evalMembers es)
  | [], _ => h.pure ..
  | e :: es, hfree => by
      obtain ⟨he, hes⟩ := List.append_subset.mp hfree
      exact h.bind (h.counted e (eval e he)) fun v => h.bind (h.apply _ nofun nofun) fun _ =>
        h.bind (evalMembers es hes) fun vs => h.pure ..

theorem evalEntries {names : List String} : (entries : List Entry) → (acc : List (Value × Value)) →
    Expr.freeEntries entries ⊆ names →
    R names (Expression.evalEntries entries acc) (Expression.evalEntries entries acc)
  | [], acc, _ => h.pure names acc
  | .pair key value :: rest, _, hfree => by
      obtain ⟨hkey, hothers⟩ := List.append_subset.mp hfree
      obtain ⟨hvalue, hrest⟩ := List.append_subset.mp hothers
      exact h.bind (h.counted key (eval key hkey)) fun k =>
        h.bind (h.counted value (eval value hvalue)) fun v =>
        h.bind (h.apply _ nofun nofun) fun _ => evalEntries rest _ hrest
  | .spread _ :: rest, acc, hfree => evalEntries rest acc hfree

theorem evalFormat {names : List String} : (spec : Option Expr) → Expr.freeOption spec ⊆ names →
    R names (Expression.evalFormat spec) (Expression.evalFormat spec)
  | none, _ => h.pure ..
  | some e, hfree => h.counted e (eval e hfree)

theorem evalParts {names : List String} : (parts : List Expr) → Expr.freeAll parts ⊆ names →
    R names (Expression.evalParts parts) (Expression.evalParts parts)
  | [], _ => h.pure ..
  | e :: rest, hfree => by
      obtain ⟨he, hrest⟩ := List.append_subset.mp hfree
      cases e with
      | constant v => exact h.bind (evalParts rest hrest) fun vs => h.pure ..
      | formatted value conversion spec =>
        obtain ⟨hvalue, hspec⟩ := List.append_subset.mp he
        exact h.bind (h.counted value (eval value hvalue)) fun v =>
          h.bind (evalFormat spec hspec) fun s =>
          h.bind (h.apply _ nofun nofun) fun text => h.bind (evalParts rest hrest) fun vs =>
            h.pure ..
      | _ => exact h.refuse _

theorem evalConditions {names : List String} : (es : List Expr) → Expr.freeAll es ⊆ names →
    R names (Expression.evalConditions es) (Expression.evalConditions es)
  | [], _ => h.pure ..
  | e :: es, hfree => by
      obtain ⟨he, hes⟩ := List.append_subset.mp hfree
      exact h.bind (h.counted e (eval e he)) fun v => ite (evalConditions es hes) (h.pure ..)

theorem generate {element : m Value} {element' : n Value} {free : List String}
    (helement : ∀ {names}, free ⊆ names → R names element element') {names : List String} :
    (generators : List Generator) → (c : Collected) → Expr.freeGenerators free generators ⊆ names →
    S names (Expression.generate element generators c) (Expression.generate element' generators c)
  | [], c, hfree => h.within (h.bind (helement hfree) fun v => h.apply _ nofun nofun)
  | .clause target source conditions isAsync :: rest, c, hfree => by
      obtain ⟨hsource, hinner⟩ := List.append_subset.mp hfree
      have hbound : Expr.freeAll conditions ++ Expr.freeGenerators free rest ⊆
          target.targetNames ++ names := by
        intro name hname
        by_cases htarget : name ∈ target.targetNames
        · exact List.mem_append_left _ htarget
        · exact List.mem_append_right _
            (hinner (List.mem_filter.mpr ⟨hname, by simpa using htarget⟩))
      obtain ⟨hconditions, hrest⟩ := List.append_subset.mp hbound
      simp only [Expression.generate]
      refine ite (h.within (h.refuse _))
        (h.follow (h.within (h.counted source (eval source hsource))) fun v => ?_)
      refine h.follow (h.within (h.apply (.iterate v) nofun nofun)) fun items =>
        h.foldlM (fun c item => ?_) items c
      refine h.binding target item
        (h.follow (h.within (evalConditions conditions hconditions)) fun holds => ?_)
      exact ite (generate helement rest c hrest) (h.within (h.pure ..))

end

/-- Related evaluators give related evaluations of a whole expression. -/
theorem evaluation (e : Expr) :
    R e.free (Expression.counted e (Expression.eval e))
      (Expression.counted e (Expression.eval e)) :=
  h.counted e (h.eval e (List.Subset.refl _))

end Nodes

/-- What sequencing, operations and scopes keep holds of every evaluation. -/
theorem closed {P : ∀ {α : Type}, m α → Prop} (hpure : ∀ {α : Type} (a : α), P (Pure.pure a))
    (hbind : ∀ {α β : Type} {x : m α} {f : α → m β}, P x → (∀ a, P (f a)) → P (x >>= f))
    (hperform : ∀ o : Operation, P (Evaluator.perform o))
    (hinScope : ∀ {α : Type} {x : m α}, P x → P (Evaluator.inScope x)) (e : Expr) :
    P (Expression.counted e (Expression.eval e)) :=
  have h : Respects (m := m) (n := m) (fun _ _ x _ => P x) (fun _ _ x _ => P x) :=
    .of_all hpure hbind hperform hinScope
  h.evaluation e

end Respects

theorem bind_run {α β : Type} (x : Eval α) (f : α → Eval β) (frame : Frame) :
    (x >>= f) frame = match x frame with
      | (.ok a, after) => f a after
      | (.error e, after) => (.error e, after) := by
  simp only [Bind.bind, ExceptT.bind, ExceptT.mk, StateT.bind, ExceptT.bindCont]
  rcases x frame with ⟨_ | _, _⟩ <;> rfl

theorem bind_run_eq_ok {α β : Type} {x : Eval α} {f : α → Eval β} {frame after : Frame} {b : β} :
    (x >>= f) frame = (.ok b, after) ↔
    ∃ a mid, x frame = (.ok a, mid) ∧ f a mid = (.ok b, after) := by
  rw [bind_run]
  rcases x frame with ⟨_ | a, mid⟩
  · exact ⟨nofun, fun ⟨_, _, h, _⟩ => nomatch h⟩
  · constructor
    · exact fun h => ⟨a, mid, rfl, h⟩
    · rintro ⟨_, _, ⟨⟩, h⟩
      exact h

/-- A node within the limit is counted, and its value is numbered. -/
theorem counted_run (node : Expr) (x : Eval Value) {frame : Frame} (h : frame.nodes < maxNodes) :
    counted node x frame = match x { frame with nodes := frame.nodes + 1 } with
      | (.ok v, after) =>
        (.ok (v.track after.things).1, { after with things := (v.track after.things).2 })
      | (.error e, after) => (.error e, after) := by
  have hvisited : Operation.visited frame = (.ok (), { frame with nodes := frame.nodes + 1 }) :=
    if_neg (Nat.not_le_of_lt h)
  change (Operation.visited >>= fun _ => x >>= Operation.tracked) frame = _
  rw [bind_run, hvisited]
  dsimp only
  rw [bind_run]
  rcases x { frame with nodes := frame.nodes + 1 } with ⟨_ | v, after⟩ <;> rfl

end Expression

end EffectTree
