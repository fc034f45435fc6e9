import EffectTree.Evaluation.Interpreter

/-!
# Evaluation one step at a time

An evaluation as a sequence of states. A state has a focus, which is a node to evaluate, an effect
to perform or an outcome to pass on, the frames of the effects around it, the innermost first, and
the world. Leaf effects and everything that a control effect does between two nodes are single
steps.
-/

namespace EffectTree.Evaluation

open Machine

inductive Focus where
  | evaluate (node : Descriptor)
  /-- Performs the effect that a node has been found to be. -/
  | perform (node : Descriptor) (tag : Value) (args : List Descriptor)
  /-- Passes on the key of a result, if there is one. -/
  | finish (key? : Option String)
  /-- Passes on why there is none. -/
  | stop (cause : Stop)

/-- What an effect around the focus goes on with. -/
inductive Frame where
  | leave
  /-- Passes the result to a continuation. -/
  | feed (continuation? : Option Descriptor)
  /-- Passes the message of a fault to a continuation. -/
  | rescue (continuation? : Option Descriptor)
  /-- Evaluates the rest and collects the results, those before included. -/
  | gather (rest : List Descriptor) (keys : List String)
  /-- Evaluates the rest and has the last of the results, those before included. -/
  | block (rest : List Descriptor) (keys : List String)

abbrev Move := Focus × List Frame

def arrive (node : Descriptor) : Machine Move := do
  let w ← get
  if w.settings.exceeded w.depth then fail (.depthExceeded w.settings.maxDepth)
  let (tag, args) ← resolve (·.effectOf node)
  log .debug .interpreter ("effect: " ++ tag.display ++ " (" ++ toString args.length ++ " args)")
  modify fun w => { w with depth := w.depth + 1 }
  return (.perform node tag args, [.leave])

def finishing (m : Machine (Option String)) : Machine Move := do return (.finish (← m), [])

/-- The node that a continuation returns for an input. -/
def handOver (continuation input : Descriptor) : Machine Move := do
  let resolved ← resolve (·.specialize continuation [("input", input)])
  let _ ← store resolved
  match ← resolve (·.projectField resolved (.ofStr "return")) with
  | some next => return (.evaluate next, [])
  | none =>
      let text ← render resolved
      log .debug .interpreter ("Continuation has no return: " ++ text.display)
      return (.finish none, [])

def gathered (keys : List String) : Machine (Option String) := do
  yielding (.tuple (← keys.mapM referenceTo))

def lastOf (keys : List String) : Machine (Option String) := do
  match keys.getLast? with
  | none => return none
  | some key => yielding (← referenceTo key)

/-- The next of several nodes; after the last of them their keys are made into one result. -/
def proceed (frame : List Descriptor → List String → Frame)
    (combine : List String → Machine (Option String)) :
    List Descriptor → List String → Machine Move
  | [], keys => finishing (combine keys)
  | d :: rest, keys => return (.evaluate d, [frame rest keys])

def begin (args : List Descriptor) : Control → Machine Move
  | .bind => return ((args[0]?).elim (.finish none) .evaluate, [.feed args[1]?])
  | .recover =>
    return ((args[0]?).elim (.stop (.fault (.refused "Try has no body"))) .evaluate,
      [.rescue args[1]?])
  | .gather => do proceed .gather gathered (← members args[0]?) []
  | .block => do proceed .block lastOf (← members args[0]?) []

/-- Performs a leaf effect or a custom one, or begins a control effect. -/
def act (node : Descriptor) (tag : Value) (args : List Descriptor) : Machine Move := do
  lift tag.requireHashable
  match Opcode.ofTag? tag with
  | some (.control effect) => begin args effect
  | some (.leaf effect) => finishing (runLeaf effect args)
  | none =>
      if ← lift ((← get).registry.has tag) then finishing (runCustom tag args)
        else finishing (unhandled node tag)

def ascend (focus : Focus) : Machine Move := do
  modify fun w => { w with depth := w.depth - 1 }
  return (focus, [])

def resume (key? : Option String) : Frame → Machine Move
  | .leave => ascend (.finish key?)
  | .feed none => return (.finish none, [])
  | .feed (some continuation) => do handOver continuation (← inputFor key?)
  | .rescue _ => return (.finish key?, [])
  | .gather rest keys => proceed .gather gathered rest (keys ++ key?.toList)
  | .block rest keys => proceed .block lastOf rest (keys ++ key?.toList)

def rescued (continuation? : Option Descriptor) (e : Fault) : Machine Move := do
  log .debug .handlers ("Try caught " ++ e.kind.name ++ ": " ++ e.message)
  match continuation? with
  | none => return (.finish none, [])
  | some continuation => handOver continuation (.literal (.ofStr e.message))

/-- Goes on where a node has stopped; only faults are recovered from. -/
def unwind (cause : Stop) : Frame → Machine Move
  | .leave => ascend (.stop cause)
  | .rescue continuation? => match cause with
      | .fault e => rescued continuation? e
      | cause => return (.stop cause, [])
  | _ => return (.stop cause, [])

structure State where
  focus : Focus
  frames : List Frame
  world : World

namespace State

/-- The state in which a node is about to be evaluated, with nothing around it. -/
def start (node : Descriptor) (w : World) : State := ⟨.evaluate node, [], w⟩

def after (frames : List Frame) : EStateM.Result Stop World Move → State
  | .ok (focus, inner) w => ⟨focus, inner ++ frames, w⟩
  | .error cause w => ⟨.stop cause, frames, w⟩

/-- The next state where nothing but the settings limits the nesting; an outcome with nothing around
it is the last. -/
def next : State → Option State
  | ⟨.evaluate node, frames, w⟩ => some (after frames (arrive node w))
  | ⟨.perform node tag args, frames, w⟩ => some (after frames (act node tag args w))
  | ⟨.finish key?, frame :: frames, w⟩ => some (after frames (resume key? frame w))
  | ⟨.stop cause, frame :: frames, w⟩ => some (after frames (unwind cause frame w))
  | ⟨.finish _, [], _⟩ => none
  | ⟨.stop _, [], _⟩ => none

/-- Whether an effect is to be performed further down than evaluation goes. -/
def tooDeep (s : State) : Bool :=
  match s.focus with
  | .perform .. => s.world.settings.levels < s.world.depth
  | _ => false

def step (s : State) : Option State :=
  if s.tooDeep then some { s with focus := .stop (.fault .recursion) } else s.next

/-- The state in which an evaluation inside of some frames has ended. -/
def ended (frames : List Frame) : EStateM.Result Stop World (Option String) → State
  | .ok key? w => ⟨.finish key?, frames, w⟩
  | .error cause w => ⟨.stop cause, frames, w⟩

end State

end EffectTree.Evaluation
