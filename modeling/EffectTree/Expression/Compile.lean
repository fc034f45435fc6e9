import EffectTree.Expression.Arrow
import EffectTree.Expression.Check
import EffectTree.Expression.Evaluation
import EffectTree.Expression.Parser

/-!
# Compiled expressions

A source becomes a list of parameters and an expression that has passed the check. Missing arguments
are null.
-/

namespace EffectTree.Expression

structure Compiled where
  params : List String
  body : Expr

def compile (source : String) : Except Fault Compiled :=
  let handler := splitArrow source
  if handler.body.isEmpty then
    .error (.expression ("Empty expression body: " ++ Text.quoted source))
  else
    let text := Text.strip (respell handler.body)
    match Text.unencodable? text with
    | some problem => .error (.unencodable problem)
    | none => match parse? text with
        | none =>
            .error (.expression
              ("Invalid expression " ++ Text.quoted handler.body ++ ": invalid syntax"))
        | some e => match violation? e with
            | some v => .error (.expression v.message)
            | none => .ok ⟨handler.params, e⟩

def compileValue : Value → Except Fault Compiled
  | .str s _ => compile s
  | v => .error (.expression ("Expression source must be a string, got " ++ v.typeName))

/-- Parameters bound to arguments by position; a parameter that occurs twice has its last
argument. -/
def bindParams (params : List String) (args : List Value) : Table Value :=
  (params.zipIdx).foldl (fun scope (name, i) => scope.put name ((args[i]?).getD .null)) []

def Compiled.call (c : Compiled) (args : List Value) : Except Fault Value :=
  evaluate c.body (bindParams c.params args)

end EffectTree.Expression
