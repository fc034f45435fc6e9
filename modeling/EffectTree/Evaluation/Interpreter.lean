import EffectTree.Evaluation.Control

/-!
# Evaluation

An effect is evaluated by its tag: built-in effects first, then custom ones. Effects that nobody
handles are faults in strict settings and otherwise a warning. The depth of nesting is limited by
the settings, which makes evaluation end.
-/

namespace EffectTree.Evaluation

open Machine

/-- The value of an argument of a custom effect; what is not literal is given as its text. -/
def customArgument (d : Descriptor) : Machine Value := do
  match ← literal d with
  | .null => match ← render d with
      | .str "null" _ => return .null
      | text => return text
  | v => return v

/-- Makes the changes that a handler asks for, also if it does not end well. -/
def follow (reply : Reply) : Machine Product := do
  reply.requests.forM fun request => modify (·.fulfil request)
  accept reply.answer

/-- Calls the handler of an effect. -/
def invoke (tag : Value) (arguments : List Value) : Machine Product := do
  let w ← get
  follow ((← lift (w.registry.find tag)).call arguments w.context)

/-- The result of what a handler gives; null is no result. -/
def produced : Product → Machine (Option String)
  | .value .null => return none
  | .value v => do yielding (← lift (Descriptor.describe v))
  | .descriptor d => yielding d

def runCustom (tag : Value) (args : List Descriptor) : Machine (Option String) := do
  produced (← invoke tag (← args.mapM customArgument))

def unhandled (node : Descriptor) (tag : Value) : Machine (Option String) := do
  let text ← render node
  if (← get).settings.strict.truthy then fail (.unhandled tag text.display)
  log .warning .interpreter (tag.display ++ " effect is not handled: " ++ text.display)
  return none

def dispatch (eval : Evaluator) (node : Descriptor) (tag : Value) (args : List Descriptor) :
    Machine (Option String) := do
  lift tag.requireHashable
  match Opcode.ofTag? tag with
  | some (.control effect) => runControl eval effect args
  | some (.leaf effect) => runLeaf effect args
  | none =>
      if ← lift ((← get).registry.has tag) then runCustom tag args else unhandled node tag

def enter (node : Descriptor) (inside : Value → List Descriptor → Machine (Option String)) :
    Machine (Option String) := do
  let w ← get
  if w.settings.exceeded w.depth then fail (.depthExceeded w.settings.maxDepth)
  let (tag, args) ← resolve (·.effectOf node)
  log .debug .interpreter ("effect: " ++ tag.display ++ " (" ++ toString args.length ++ " args)")
  nested (inside tag args)

/-- Evaluates with at most the given number of levels below. -/
def evaluateAt : Nat → Evaluator
  | 0, node => enter node fun _ _ => fail .recursion
  | levels + 1, node => enter node (dispatch (evaluateAt levels) node)

/-- Evaluates an effect and gives the key of its result, if it has one. -/
def evaluate (node : Descriptor) : Machine (Option String) := do
  let w ← get
  evaluateAt (w.settings.levels - w.depth) node

/-- How a run ends, or that it waits for ever. -/
inductive Outcome where
  | finished (key : Option String)
  | failed (cause : Fault)
  | exited (code : Int)
  | waiting

/-- The outcome of an evaluation; faults and exits are logged. -/
def conclude : EStateM.Result Stop World (Option String) → Outcome × World
  | .ok key w => (.finished key, w)
  | .error (.exit code) w =>
      (.exited code, w.log ⟨.debug, .interpreter,
        "Program exited with code " ++ Number.intText code⟩)
  | .error (.fault e) w => (.failed e, w.log ⟨.debug, .interpreter, "Uncaught fault"⟩)
  | .error .waiting w => (.waiting, w)

def run (node : Descriptor) (w : World) : Outcome × World := conclude (evaluate node w)

namespace Outcome

/-- The exit status: the code of an exit, one for a fault, zero for an evaluation that finished. -/
def status? : Outcome → Option Int
  | finished _ => some 0
  | failed _ => some 1
  | exited code => some code
  | waiting => none

def fault? : Outcome → Option Fault
  | failed cause => some cause
  | _ => none

def exitCode? : Outcome → Option Int
  | exited code => some code
  | _ => none

def key? : Outcome → Option String
  | finished key => key
  | _ => none

def output? (o : Outcome) (w : World) : Option Descriptor := o.key?.bind w.results.get?

/-- The value of the output, null if there is none or it is not literal. -/
def value (o : Outcome) (w : World) : Except Fault Value :=
  match o.output? w with
  | none => .ok .null
  | some d => w.resolver.literalValue d

end Outcome

end EffectTree.Evaluation
