import EffectTree.Table
import EffectTree.Value.Basic

/-!
# Opcodes

The built-in effects. Control effects evaluate other effects; leaf effects do not.
-/

namespace EffectTree.Evaluation

inductive Control where
  /-- Passes the result of an effect to a continuation. -/
  | bind
  /-- Passes the message of a fault to a continuation. -/
  | recover
  /-- Collects the results of several effects. -/
  | gather
  /-- Has the result of the last effect that produces one. -/
  | block
  deriving DecidableEq, Repr

inductive Leaf where
  | produce | raise
  | createCell | readCell | writeCell | deleteCell
  | print | putString | debug | readFile | writeFile | readLine
  | environment | arguments | exit
  | define | expression
  deriving DecidableEq, Repr

inductive Opcode where
  | control (effect : Control)
  | leaf (effect : Leaf)
  deriving DecidableEq, Repr

namespace Opcode

def table : Table Opcode :=
  [("Bind", .control .bind), ("CreateRef", .leaf .createCell), ("Debug", .leaf .debug),
   ("DefineEffect", .leaf .define), ("DeleteRef", .leaf .deleteCell), ("Do", .control .block),
   ("Exit", .leaf .exit), ("Expr", .leaf .expression), ("GetArgs", .leaf .arguments),
   ("GetEnv", .leaf .environment), ("GetRef", .leaf .readCell), ("JsExpr", .leaf .expression),
   ("Print", .leaf .print), ("Pure", .leaf .produce), ("PutString", .leaf .putString),
   ("ReadFile", .leaf .readFile), ("ReadLine", .leaf .readLine), ("Seq", .control .gather),
   ("SetRef", .leaf .writeCell), ("Throw", .leaf .raise), ("Try", .control .recover),
   ("WriteFile", .leaf .writeFile)]

def names : List String := table.keys

def ofTag? : Value → Option Opcode
  | .str name _ => table.get? name
  | _ => none

end Opcode

end EffectTree.Evaluation
