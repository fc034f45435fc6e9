import EffectTree.Expression.Builtin
import EffectTree.Expression.Method
import EffectTree.Expression.Printer
import EffectTree.Value.Format
import EffectTree.Value.Numbering
import EffectTree.Value.Percent

/-!
# Operations of expressions

What the nodes of an expression do with the values of their parts. An operation changes the state of
the evaluation, gives a result or fails; faults of some kinds are reported as faults of the
expression. The number of nodes, the length of lists built by comprehensions, repetitions of
sequences and exponents are limited. Whatever is made anew gets a number, so that it can be
recognised when it comes back by another way; the numbers do not leave the evaluation.
-/

namespace EffectTree.Expression

open Value

/-- The most nodes that one evaluation visits. -/
def maxNodes : Nat := 100000

/-- The most items of a repeated sequence. -/
def maxSequence : Nat := 1000000

def maxExponent : Int := 1000

/-- The state of an evaluation: the nodes visited, the scopes, the innermost first, and the numbers
given to things. -/
structure Frame where
  nodes : Nat := 0
  scopes : List (Table Value) := []
  things : Nat := 0

/-- An evaluation leaves a state behind whether it ends with a value or with a fault. -/
abbrev Eval := ExceptT Fault (StateM Frame)

def reporting {α : Type} (kinds : FaultKind → Bool) (r : Except Fault α) : Except Fault α :=
  match r with
  | .ok a => .ok a
  | .error e => .error (if kinds e.kind then .expression e.message else e)

/-- The names of constants that a scope may shadow. -/
def constant? : String → Option Value
  | "true" => some (.bool true)
  | "false" => some (.bool false)
  | "null" => some .null
  | "undefined" => some .null
  | "True" => some (.bool true)
  | "False" => some (.bool false)
  | "None" => some .null
  | _ => none

/-- What a name stands for: the innermost scope that has it decides. -/
def lookup (name : String) (scopes : List (Table Value)) : Except Fault Value :=
  match scopes.findSome? fun scope => scope.get? name with
  | some v => .ok v
  | none => match constant? name with
      | some v => .ok v
      | none => match builtinOf? name with
          | some f => .ok (.builtin f)
          | none => .error (.expression ("Name " ++ Text.quoted name ++ " is not defined"))

def joinedText : Value → Value
  | .bool b => ofName (if b then "true" else "false")
  | .null => ofName "null"
  | .float x m =>
      if Number.Binary64.isInteger x then
        newStr (Number.intText ((Number.Binary64.truncate? x).getD 0))
      else (Value.float x m).text
  | v => v.text

def join (a b : Value) : Except Fault Value :=
  if a.isStr ≠ b.isStr then Value.add (joinedText a) (joinedText b) else Value.add a b

/-- The number of items of a sequence that a repetition would have, if it is one. -/
def repetition? (seq count : Value) : Option Int :=
  match seq with
  | .str .. | .list .. | .tuple .. => do
      let n ← seq.size?
      let k ← count.integer?
      return n * k
  | _ => none

def multiply (a b : Value) : Except Fault Value :=
  let tooLarge (n : Option Int) : Bool := n.any fun n => decide ((maxSequence : Int) < n)
  if tooLarge (repetition? a b) || tooLarge (repetition? b a) then
    .error (.expression "Sequence repetition too large")
  else Value.mul a b

def exponentTooLarge (v : Value) : Bool :=
  match v.real? with
  | some (.int i) => maxExponent < i.natAbs
  | some (.float x) => x.abs > 1000
  | none => false

def raise (a b : Value) : Except Fault Value :=
  if exponentTooLarge b then .error (.expression "Exponent too large") else Value.power a b

def binaryOp (op : BinaryOp) (a b : Value) : Except Fault Value :=
  match op with
  | .add => join a b
  | .mul => multiply a b
  | .pow => raise a b
  | .sub => Value.sub a b
  | .div => Value.divide a b
  | .floorDiv => Value.floorDiv a b
  | .mod => Value.mod a b
  | .bitAnd => Value.bitwise .and a b
  | .bitOr => Value.bitwise .or a b
  | .bitXor => Value.bitwise .xor a b
  | .matMul => .error (.expression "Unsupported operator: MatMult")
  | .shiftLeft => .error (.expression "Unsupported operator: LShift")
  | .shiftRight => .error (.expression "Unsupported operator: RShift")

def unaryOp (op : UnaryOp) (v : Value) : Except Fault Value :=
  match op with
  | .not => .ok (.bool !v.truthy)
  | .negative => v.negate
  | .positive => v.plus
  | .invert => v.invert

def compareOp (op : CompareOp) (a b : Value) : Except Fault Bool :=
  match op with
  | .eq => .ok (eqv a b)
  | .ne => .ok !(eqv a b)
  | .less => related .less a b
  | .lessEq => related .lessEq a b
  | .greater => related .greater a b
  | .greaterEq => related .greaterEq a b
  | .same => .ok (identical a b)
  | .notSame => .ok !(identical a b)
  | .isIn => member a b
  | .notIn => (member a b).map (!·)

/-- An item, null where there is none. -/
def itemOf (target key : Value) : Except Fault Value :=
  (reporting FaultKind.isMismatch (itemAt target key)).map (·.getD .null)

def fieldOf (target : Value) (name : String) : Except Fault Value :=
  let refused : Except Fault Value :=
    .error (.expression ("Attribute access " ++ Text.quoted name ++ " is not allowed"))
  match target with
  | .str .. | .list .. | .tuple .. | .dict .. =>
      if name = "length" then .ok (ofInt ((target.size?).getD 0)) else refused
  | _ => refused

/-- Faults of a call that are reported as faults of the expression. -/
def isCallFault (k : FaultKind) : Bool := k.isMismatch || k.isInvalid || k.isArithmetic

/-- The outcome of a call: what can be iterated and is no collection is listed. -/
def listed (v : Value) : Except Fault Value :=
  match v with
  | .builtin _ | .generic .. => if offersItems v then v.items.map ofList else .ok v
  | v => .ok v

def finishCall (r : Except Fault Value) : Except Fault Value := do
  listed (← reporting isCallFault r)

def callMethod (target : Value) (name : String) (args : Arguments) : Except Fault Value :=
  match method? target name with
  | some method => finishCall (method args)
  | none => .error (.expression
      ("Method " ++ Text.quoted name ++ " is not allowed on " ++ target.className))

/-- A call of anything but a function or a method. The complaint has its source, if that can be
written. -/
def notCallable (function : Expr) : Fault :=
  match source? function with
  | some text => .expression ("Call to " ++ Text.quoted text ++ " is not allowed")
  | none => .invalid "Unable to avoid backslash in f-string expression part"

def converted (c : Conversion) (v : Value) : Value :=
  match c with
  | .literal => v.literalText
  | .display => v.text
  | .none | .ascii => v

/-- A value written by a format: without one as its text, and a text that needs no change as
itself. -/
def formatted (v : Value) (spec : String) : Except Fault Value := do
  let text ← format v spec
  if spec.isEmpty then return v.text
  return if v.isStr && text = v.display then v else ofStr text

/-- Texts one after another; a single one is itself. -/
def concatenated : List Value → Value
  | [text] => text
  | texts => newStr (String.join (texts.map display))

mutual

/-- The names of a target with the parts of a value that they are to stand for. -/
def bindTarget : Expr → Value → Except Fault (List (String × Value))
  | .name id, v => .ok [(id, v)]
  | .tuple targets, v => do
      let parts ← v.items
      if parts.length ≠ targets.length then
        throw (.expression "Cannot unpack value in comprehension")
      bindTargets targets parts
  | e, _ => .error (.expression ("Unsupported comprehension target: " ++ e.label))

def bindTargets : List Expr → List Value → Except Fault (List (String × Value))
  | [], _ => .ok []
  | _ :: _, [] => .ok []
  | t :: ts, v :: vs => do
      let first ← bindTarget t v
      return first ++ (← bindTargets ts vs)

end

/-- Puts values under names into a scope, numbering what is new in them. -/
def place : List (String × Value) → Table Value → Nat → Table Value × Nat
  | [], scope, things => (scope, things)
  | (name, v) :: rest, scope, things =>
      let (v, things) := v.track things
      place rest (scope.put name v) things

/-- The items of a comprehension so far, the last first, with their number, which stays within the
limit. -/
structure Collected where
  count : Nat := 0
  items : List Value := []
  length_eq : items.length = count := by rfl
  within : count ≤ maxRange := by decide

def Collected.add (c : Collected) (v : Value) : Except Fault Collected :=
  if h : c.count < maxRange then .ok ⟨c.count + 1, v :: c.items, congrArg (· + 1) c.length_eq, h⟩
  else .error (.expression ("Comprehension limited to " ++ toString maxRange ++ " items"))

/-- The items that a generator runs over. -/
def sourceItems (v : Value) : Except Fault (List Value) :=
  if offersItems v then v.items else .error (.expression (v.className ++ " is not iterable"))

/-- What a node does besides having its parts evaluated. -/
inductive Operation where
  /-- Counts a node. -/
  | visit (node : Expr)
  /-- Numbers what is new in a value. -/
  | track (v : Value)
  | lookup (name : String)
  | binary (op : BinaryOp) (a b : Value)
  | unary (op : UnaryOp) (v : Value)
  | compare (op : CompareOp) (a b : Value)
  | item (target key : Value)
  | slice (target lower upper step : Value)
  | field (target : Value) (name : String)
  | call (f : Builtin) (args : Arguments)
  | method (target : Value) (name : String) (args : Arguments)
  /-- Asks whether a value can be a key or a member. -/
  | hash (v : Value)
  /-- Writes a value into a formatted text. -/
  | format (v : Value) (conversion : Conversion) (spec : String)
  | join (texts : List Value)
  /-- Takes the items that a generator runs over. -/
  | iterate (v : Value)
  /-- Binds the names of a target in the innermost scope. -/
  | bind (target : Expr) (v : Value)
  | collect (c : Collected) (v : Value)
  /-- Refuses a form. -/
  | refuse (text : String)
  /-- Refuses a call of what cannot be called. -/
  | refuseCall (function : Expr)

namespace Operation

/-- What an operation gives. -/
abbrev Result : Operation → Type
  | visit _ | hash _ | bind .. => Unit
  | compare .. => Bool
  | iterate _ => List Value
  | collect .. => Collected
  | refuse _ | refuseCall _ => Empty
  | _ => Value

def pure {α : Type} (r : Except Fault α) : Eval α := fun frame => (r, frame)

def visited : Eval Unit := fun frame =>
  if maxNodes ≤ frame.nodes then
    (.error (.expression "Expression exceeded evaluation step limit"), frame)
  else (.ok (), { frame with nodes := frame.nodes + 1 })

def tracked (v : Value) : Eval Value := fun frame =>
  let (v, things) := v.track frame.things
  (.ok v, { frame with things })

def bound (target : Expr) (v : Value) : Eval Unit := fun frame =>
  match bindTarget target v with
  | .ok parts =>
      let (scope, things) := place parts (frame.scopes.headD []) frame.things
      (.ok (), { frame with scopes := scope :: frame.scopes.tail, things })
  | .error e => (.error e, frame)

def run : (o : Operation) → Eval o.Result
  | visit _ => visited
  | track v => tracked v
  | lookup name => fun frame => (Expression.lookup name frame.scopes, frame)
  | binary op a b => pure (reporting FaultKind.isOfOperands (binaryOp op a b))
  | unary op v => pure (unaryOp op v)
  | compare op a b => pure (compareOp op a b)
  | item target key => pure (itemOf target key)
  | slice target lower upper step =>
    pure (reporting FaultKind.isMismatch (sliceOf target lower upper step))
  | field target name => pure (fieldOf target name)
  | call f args => pure (finishCall (applyBuiltin f args))
  | method target name args => pure (callMethod target name args)
  | hash v => pure v.requireHashable
  | format v conversion spec => pure (formatted (converted conversion v) spec)
  | join texts => pure (.ok (concatenated texts))
  | iterate v => pure (sourceItems v)
  | bind target v => bound target v
  | collect c v => pure (c.add v)
  | refuse text => pure (.error (.expression text))
  | refuseCall function => pure (.error (notCallable function))

end Operation

end EffectTree.Expression
