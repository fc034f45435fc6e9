import EffectTree.Evaluation.Interpreter

/-!
# Keys in lists

Evaluation can also be read as giving lists of keys, which effects hand on, join or make into one
result. Read so, it does the same to the world, and the list that it gives holds the one key of
evaluation or none.
-/
namespace EffectTree.Evaluation

open Machine

/-- How the effects inside an effect are evaluated, with the keys of all their results. -/
abbrev Collector := Descriptor → Machine (List String)

namespace Collector

section Control

variable (collect : Collector)

def continueWith (continuation input : Descriptor) : Machine (List String) := do
  let resolved ← resolve (·.specialize continuation [("input", input)])
  let _ ← store resolved
  match ← resolve (·.projectField resolved (.ofStr "return")) with
  | some next => collect next
  | none =>
      let text ← render resolved
      log .debug .interpreter ("Continuation has no return: " ++ text.display)
      return []

def inputFor : List String → Machine Descriptor
  | [] => pure (.literal .null)
  | key :: _ => referenceTo key

def bind (input? continuation? : Option Descriptor) : Machine (List String) := do
  let keys ← input?.elim (pure []) collect
  match continuation? with
  | none => return []
  | some continuation => continueWith collect continuation (← inputFor keys)

def recover (body? continuation? : Option Descriptor) : Machine (List String) :=
  (body?.elim (fail (.refused "Try has no body")) collect).orElseFault fun e => do
    log .debug .handlers ("Try caught " ++ e.kind.name ++ ": " ++ e.message)
    match continuation? with
    | none => return []
    | some continuation => continueWith collect continuation (.literal (.ofStr e.message))

def all : List Descriptor → Machine (List String)
  | [] => pure []
  | d :: rest => do return (← collect d) ++ (← all rest)

def runControl (effect : Control) (args : List Descriptor) : Machine (List String) := do
  match effect with
  | .bind => bind collect args[0]? args[1]?
  | .recover => recover collect args[0]? args[1]?
  | .gather =>
      let keys ← all collect (← members args[0]?)
      return [← store (.tuple (← keys.mapM referenceTo))]
  | .block =>
      let keys ← all collect (← members args[0]?)
      match keys.getLast? with
      | none => return []
      | some key => return [← store (← referenceTo key)]

def dispatch (node : Descriptor) (tag : Value) (args : List Descriptor) : Machine (List String) :=
  do
  lift tag.requireHashable
  match Opcode.ofTag? tag with
  | some (.control effect) => runControl collect effect args
  | some (.leaf effect) => Option.toList <$> runLeaf effect args
  | none =>
      if ← lift ((← get).registry.has tag) then Option.toList <$> runCustom tag args
      else Option.toList <$> unhandled node tag

end Control

def enter (node : Descriptor) (inside : Value → List Descriptor → Machine (List String)) :
    Machine (List String) := do
  let w ← get
  if w.settings.exceeded w.depth then fail (.depthExceeded w.settings.maxDepth)
  let (tag, args) ← resolve (·.effectOf node)
  log .debug .interpreter ("effect: " ++ tag.display ++ " (" ++ toString args.length ++ " args)")
  nested (inside tag args)

def collectAt : Nat → Collector
  | 0, node => enter node fun _ _ => fail .recursion
  | levels + 1, node => enter node (dispatch (collectAt levels) node)

end Collector

def collect (node : Descriptor) : Machine (List String) := do
  let w ← get
  Collector.collectAt (w.settings.levels - w.depth) node

theorem nested_map {α β : Type} (f : α → β) (m : Machine α) :
    nested (f <$> m) = f <$> nested m := by
  funext w
  change nested (EStateM.map f m) w = EStateM.map f (nested m) w
  simp only [nested, EStateM.map]
  cases m { w with depth := w.depth + 1 } <;> rfl

theorem orElseFault_map {α β : Type} (f : α → β) (m : Machine α) (handle : Fault → Machine α) :
    (f <$> m).orElseFault (fun e => f <$> handle e) = f <$> m.orElseFault handle := by
  funext w
  change Machine.orElseFault (EStateM.map f m) (fun e => EStateM.map f (handle e)) w =
    EStateM.map f (m.orElseFault handle) w
  simp only [Machine.orElseFault, EStateM.map]
  cases m w with
  | ok a w' => rfl
  | error stop w' => cases stop <;> rfl

namespace Collector

section Control

variable {collect : Collector} {eval : Evaluator} (h : ∀ d, collect d = Option.toList <$> eval d)
include h

theorem continueWith_eq (continuation input : Descriptor) :
    continueWith collect continuation input =
      Option.toList <$> Evaluation.continueWith eval continuation input := by
  simp only [continueWith, Evaluation.continueWith, map_bind]
  refine bind_congr fun resolved => bind_congr fun _ => bind_congr fun next? => ?_
  cases next? with
  | some next => exact h next
  | none => simp

omit h in
theorem inputFor_eq (key? : Option String) : inputFor key?.toList = Evaluation.inputFor key? := by
  cases key? <;> rfl

theorem bind_eq (input? continuation? : Option Descriptor) :
    bind collect input? continuation? =
      Option.toList <$> Evaluation.bind eval input? continuation? := by
  have hinput : input?.elim (pure []) collect = Option.toList <$> evaluateOptional eval input? := by
    cases input? with
    | none => simp [evaluateOptional]
    | some input => exact h input
  simp only [bind, Evaluation.bind, hinput, map_bind, bind_map_left]
  refine bind_congr fun key? => ?_
  cases continuation? with
  | none => simp
  | some continuation => simp only [inputFor_eq, map_bind, continueWith_eq h]

theorem recover_eq (body? continuation? : Option Descriptor) :
    recover collect body? continuation? =
      Option.toList <$> Evaluation.recover eval body? continuation? := by
  unfold recover Evaluation.recover
  rw [← orElseFault_map]
  congr 1
  · cases body? with
    | none => rfl
    | some body => exact h body
  · funext e
    cases continuation? with
    | none => simp
    | some continuation => simp only [map_bind, continueWith_eq h]

theorem all_eq (nodes : List Descriptor) : all collect nodes = evaluateAll eval nodes := by
  induction nodes with
  | nil => rfl
  | cons d rest ih => simp only [all, evaluateAll, h, ih, bind_map_left]

theorem runControl_eq (effect : Control) (args : List Descriptor) :
    runControl collect effect args = Option.toList <$> Evaluation.runControl eval effect args := by
  cases effect with
  | bind => exact bind_eq h _ _
  | recover => exact recover_eq h _ _
  | gather => simp [runControl, Evaluation.runControl, all_eq h, yielding]
  | block =>
    simp only [runControl, Evaluation.runControl, all_eq h, map_bind]
    refine bind_congr fun nodes => bind_congr fun keys => ?_
    cases keys.getLast? <;> simp [yielding]

theorem dispatch_eq (node : Descriptor) (tag : Value) (args : List Descriptor) :
    dispatch collect node tag args = Option.toList <$> Evaluation.dispatch eval node tag args := by
  simp only [dispatch, Evaluation.dispatch, map_bind]
  refine bind_congr fun _ => ?_
  generalize Opcode.ofTag? tag = opcode?
  rcases opcode? with - | effect | effect
  · simp only [map_bind]
    refine bind_congr fun w => bind_congr fun known => ?_
    cases known <;> rfl
  · exact runControl_eq h effect args
  · rfl

end Control

theorem enter_eq {node : Descriptor} {inside : Value → List Descriptor → Machine (Option String)} :
    enter node (fun tag args => Option.toList <$> inside tag args) =
      Option.toList <$> Evaluation.enter node inside := by
  simp only [enter, Evaluation.enter, map_bind, nested_map]
  refine bind_congr fun w => ?_
  split <;> simp

/-- The list of keys is that of the one key of evaluation, if there is one. -/
theorem collectAt_eq (levels : Nat) (node : Descriptor) :
    collectAt levels node = Option.toList <$> evaluateAt levels node := by
  induction levels generalizing node with
  | zero =>
    rw [collectAt, evaluateAt, ← enter_eq]
    rfl
  | succ levels ih =>
    rw [collectAt, evaluateAt, ← enter_eq]
    exact congrArg (enter node) (funext fun tag => funext (dispatch_eq ih node tag))

end Collector

theorem collect_eq (node : Descriptor) : collect node = Option.toList <$> evaluate node := by
  simp only [collect, evaluate, map_bind, Collector.collectAt_eq]

end EffectTree.Evaluation
