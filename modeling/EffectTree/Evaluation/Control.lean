import EffectTree.Evaluation.Leaf

/-!
# Control effects

Effects that evaluate other effects. They are given the evaluation of the effects inside them.
-/

namespace EffectTree.Evaluation

open Machine

abbrev Evaluator := Descriptor → Machine (Option String)

/-- Intersects a continuation with an input, stores it, and evaluates what it returns. -/
def continueWith (eval : Evaluator) (continuation input : Descriptor) :
    Machine (Option String) := do
  let resolved ← resolve (·.specialize continuation [("input", input)])
  let _ ← store resolved
  match ← resolve (·.projectField resolved (.ofStr "return")) with
  | some next => eval next
  | none =>
      let text ← render resolved
      log .debug .interpreter ("Continuation has no return: " ++ text.display)
      return none

def referenceTo (key : String) : Machine Descriptor := do
  lift ((← get).results.project (.ofStr key))

def evaluateOptional (eval : Evaluator) : Option Descriptor → Machine (Option String)
  | some d => eval d
  | none => pure none

/-- What a continuation is given for a result: a reference to it, or null for none. -/
def inputFor : Option String → Machine Descriptor
  | some key => referenceTo key
  | none => pure (.literal .null)

/-- Evaluates the input and passes a reference to its result to the continuation. -/
def bind (eval : Evaluator) (input? continuation? : Option Descriptor) :
    Machine (Option String) := do
  let key? ← evaluateOptional eval input?
  match continuation? with
  | none => return none
  | some continuation => continueWith eval continuation (← inputFor key?)

/-- Evaluates the body; the message of a fault goes to the continuation. -/
def recover (eval : Evaluator) (body? continuation? : Option Descriptor) :
    Machine (Option String) :=
  let body : Machine (Option String) := match body? with
    | some d => eval d
    | none => fail (.refused "Try has no body")
  body.orElseFault fun e => do
    log .debug .handlers ("Try caught " ++ e.kind.name ++ ": " ++ e.message)
    match continuation? with
    | none => return none
    | some continuation => continueWith eval continuation (.literal (.ofStr e.message))

def evaluateAll (eval : Evaluator) : List Descriptor → Machine (List String)
  | [] => pure []
  | d :: rest => do
      let key? ← eval d
      let keys ← evaluateAll eval rest
      return key?.toList ++ keys

/-- The effects to evaluate: the elements of a tuple, or one effect alone. -/
def members (d? : Option Descriptor) : Machine (List Descriptor) := do
  match d? with
  | none => return []
  | some d => return (← resolve (·.elementsOf d)).getD [d]

def runControl (eval : Evaluator) (effect : Control) (args : List Descriptor) :
    Machine (Option String) := do
  match effect with
  | .bind => bind eval args[0]? args[1]?
  | .recover => recover eval args[0]? args[1]?
  | .gather =>
      let keys ← evaluateAll eval (← members args[0]?)
      yielding (.tuple (← keys.mapM referenceTo))
  | .block =>
      let keys ← evaluateAll eval (← members args[0]?)
      match keys.getLast? with
      | none => return none
      | some key => yielding (← referenceTo key)

end EffectTree.Evaluation
