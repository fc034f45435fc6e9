import EffectTree.Expression.Numbering
import EffectTree.Expression.Operation

/-!
# Evaluation of expressions

Evaluation by recursion on the expression, in any monad that performs operations and runs actions in
scopes of their own. Each node is counted before its parts are evaluated, and its value is numbered
after that.
-/

namespace EffectTree.Expression

open Value

class Evaluator (m : Type → Type) extends Monad m where
  perform : (o : Operation) → m o.Result
  /-- Runs an action in a scope of its own, which is left however the action ends. -/
  inScope : {α : Type} → m α → m α

instance : Evaluator Eval where
  perform o := o.run
  inScope action := fun frame =>
    let (r, after) := action { frame with scopes := [] :: frame.scopes }
    (r, { after with scopes := after.scopes.drop 1 })

def hasSpread : List Entry → Bool
  | [] => false
  | .spread _ :: _ => true
  | .pair .. :: rest => hasSpread rest

section Nodes

variable {m : Type → Type} [Evaluator m]

open Evaluator

def refuse {α : Type} (text : String) : m α := do
  let never ← perform (.refuse text)
  Empty.elim never

def refuseCall {α : Type} (function : Expr) : m α := do
  let never ← perform (.refuseCall function)
  Empty.elim never

def counted (node : Expr) (value : m Value) : m Value := do
  perform (.visit node)
  perform (.track (← value))

mutual

def eval : Expr → m Value
  | .constant v => return v
  | .name id => perform (.lookup id)
  | .binary op left right => do
      let a ← counted left (eval left)
      let b ← counted right (eval right)
      perform (.binary op a b)
  | .unary op operand => do
      perform (.unary op (← counted operand (eval operand)))
  | .logical isAnd operands => evalLogical isAnd .null operands
  | .compare first rest => do
      let a ← counted first (eval first)
      evalCompared a rest
  | .conditional test yes no => do
      if (← counted test (eval test)).truthy then counted yes (eval yes) else counted no (eval no)
  | .item target key => do
      let t ← counted target (eval target)
      match key with
      | .slice lower upper step => do
          let l ← evalOption lower
          let u ← evalOption upper
          let s ← evalOption step
          perform (.slice t l u s)
      | key => do perform (.item t (← counted key (eval key)))
  | .slice .. => refuse "Unsupported syntax: Slice"
  | .field target name => do perform (.field (← counted target (eval target)) name)
  | .call function args keywords => do
      let positional ← evalAll args
      let named ← evalKeywords keywords []
      if named.length ≠ keywords.length then refuse "Keyword unpacking is not supported"
      else match function with
      | .field target name => do
          let t ← counted target (eval target)
          perform (.method t name ⟨positional, named⟩)
      | .name id => match builtinOf? id with
          | some f => perform (.call f ⟨positional, named⟩)
          | none => refuseCall (.name id)
      | function => refuseCall function
  | .list items => do return ofList (← evalAll items)
  | .tuple items => do return ofTuple (← evalAll items)
  | .set items => do return mkSet (← evalMembers items)
  | .dict entries => do
      if hasSpread entries then refuse "Dict unpacking is not supported"
      else return ofDict (← evalEntries entries [])
  | .text parts => do perform (.join (← evalParts parts))
  | .formatted .. => refuse "Unsupported syntax: FormattedValue"
  | .comprehension _ element generators => do
      let c ← inScope (generate (counted element (eval element)) generators {})
      return ofList c.items.reverse
  | .unsupported form => refuse ("Unsupported syntax: " ++ form.label)

def evalOption : Option Expr → m Value
  | none => return .null
  | some e => counted e (eval e)

def evalAll : List Expr → m (List Value)
  | [] => return []
  | e :: es => do
      let v ← counted e (eval e)
      return v :: (← evalAll es)

/-- Operands up to the first that decides; the value is that of the last one looked at. -/
def evalLogical (isAnd : Bool) (last : Value) : List Expr → m Value
  | [] => return last
  | e :: es => do
      let v ← counted e (eval e)
      if v.truthy ≠ isAnd then return v else evalLogical isAnd v es

def evalCompared (a : Value) : List (CompareOp × Expr) → m Value
  | [] => return .bool true
  | (op, right) :: rest => do
      let b ← counted right (eval right)
      let holds : Bool ← perform (.compare op a b)
      if holds then evalCompared b rest else return .bool false

/-- The keywords with names; the last value of a name stands. -/
def evalKeywords : List (Option String × Expr) → Table Value → m (Table Value)
  | [], acc => return acc
  | (none, _) :: rest, acc => evalKeywords rest acc
  | (some name, e) :: rest, acc => do
      let v ← counted e (eval e)
      evalKeywords rest (acc.put name v)

/-- The members of a set, each of which can be a key. -/
def evalMembers : List Expr → m (List Value)
  | [] => return []
  | e :: es => do
      let v ← counted e (eval e)
      perform (.hash v)
      return v :: (← evalMembers es)

def evalEntries : List Entry → List (Value × Value) → m (List (Value × Value))
  | [], acc => return acc
  | .pair key value :: rest, acc => do
      let k ← counted key (eval key)
      let v ← counted value (eval value)
      perform (.hash k)
      evalEntries rest (insertEntry k v acc)
  | .spread _ :: rest, acc => evalEntries rest acc

/-- The format of a formatted value; without one it is empty. -/
def evalFormat : Option Expr → m Value
  | none => return ofStr ""
  | some e => counted e (eval e)

def evalParts : List Expr → m (List Value)
  | [] => return []
  | .constant v :: rest => do return v.text :: (← evalParts rest)
  | .formatted value conversion spec :: rest => do
      let v ← counted value (eval value)
      let s ← evalFormat spec
      let text ← perform (.format v conversion s.display)
      return text :: (← evalParts rest)
  | e :: _ => refuse ("Unsupported f-string part: " ++ e.label)

/-- Whether all conditions hold; those after the first that fails are not looked at. -/
def evalConditions : List Expr → m Bool
  | [] => return true
  | e :: es => do
      if (← counted e (eval e)).truthy then evalConditions es else return false

/-- Runs the generators from the outermost in, adding an element for each way to satisfy them. -/
def generate (element : m Value) : List Generator → Collected → m Collected
  | [], c => do perform (.collect c (← element))
  | .clause target source conditions isAsync :: rest, c => do
      if isAsync then refuse "Async comprehensions are not supported"
      else
        let items : List Value ← perform (.iterate (← counted source (eval source)))
        items.foldlM (fun c item => do
          perform (.bind target item)
          if ← evalConditions conditions then generate element rest c else return c) c

end

end Nodes

/-- An expression and the state in which its evaluation begins. The constants of the expression and
the values bound are told apart by numbers first. -/
def prepared (e : Expr) (bindings : Table Value) : Expr × Frame :=
  let (e, things) := e.track 0
  let (scope, things) := trackTable bindings things
  (e, { scopes := [scope], things })

def evaluate (e : Expr) (bindings : Table Value) : Except Fault Value :=
  let (e, frame) := prepared e bindings
  (counted (m := Eval) e (eval e) frame).1.map release

end EffectTree.Expression
