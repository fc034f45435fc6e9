import EffectTree.Expression.Basic
import EffectTree.Value.Numbering

/-!
# Constants told apart

Each constant of an expression is a thing of its own, the same one whenever it is evaluated.
Numbering marks the constants from left to right.
-/

namespace EffectTree

mutual

/-- Numbers the constants of an expression, starting from a number and giving the next free one. -/
def Expr.track : Expr → Nat → Expr × Nat
  | .constant v, n => let (v, n) := v.track n; (.constant v, n)
  | .binary op left right, n =>
      let (left, n) := left.track n
      let (right, n) := right.track n
      (.binary op left right, n)
  | .unary op operand, n => let (operand, n) := operand.track n; (.unary op operand, n)
  | .logical isAnd operands, n =>
      let (operands, n) := Expr.trackAll operands n
      (.logical isAnd operands, n)
  | .compare first rest, n =>
      let (first, n) := first.track n
      let (rest, n) := Expr.trackCompared rest n
      (.compare first rest, n)
  | .conditional test yes no, n =>
      let (test, n) := test.track n
      let (yes, n) := yes.track n
      let (no, n) := no.track n
      (.conditional test yes no, n)
  | .item target key, n =>
      let (target, n) := target.track n
      let (key, n) := key.track n
      (.item target key, n)
  | .slice lower upper step, n =>
      let (lower, n) := Expr.trackOption lower n
      let (upper, n) := Expr.trackOption upper n
      let (step, n) := Expr.trackOption step n
      (.slice lower upper step, n)
  | .field target id, n => let (target, n) := target.track n; (.field target id, n)
  | .call function args keywords, n =>
      let (function, n) := function.track n
      let (args, n) := Expr.trackAll args n
      let (keywords, n) := Expr.trackKeywords keywords n
      (.call function args keywords, n)
  | .list items, n => let (items, n) := Expr.trackAll items n; (.list items, n)
  | .tuple items, n => let (items, n) := Expr.trackAll items n; (.tuple items, n)
  | .set items, n => let (items, n) := Expr.trackAll items n; (.set items, n)
  | .dict entries, n => let (entries, n) := Expr.trackEntries entries n; (.dict entries, n)
  | .text parts, n => let (parts, n) := Expr.trackAll parts n; (.text parts, n)
  | .formatted value conversion spec, n =>
      let (value, n) := value.track n
      let (spec, n) := Expr.trackOption spec n
      (.formatted value conversion spec, n)
  | .comprehension isList element generators, n =>
      let (element, n) := element.track n
      let (generators, n) := Expr.trackGenerators generators n
      (.comprehension isList element generators, n)
  | e, n => (e, n)

def Expr.trackOption : Option Expr → Nat → Option Expr × Nat
  | none, n => (none, n)
  | some e, n => let (e, n) := e.track n; (some e, n)

def Expr.trackAll : List Expr → Nat → List Expr × Nat
  | [], n => ([], n)
  | e :: es, n =>
      let (e, n) := e.track n
      let (es, n) := Expr.trackAll es n
      (e :: es, n)

def Expr.trackCompared : List (CompareOp × Expr) → Nat → List (CompareOp × Expr) × Nat
  | [], n => ([], n)
  | (op, e) :: rest, n =>
      let (e, n) := e.track n
      let (rest, n) := Expr.trackCompared rest n
      ((op, e) :: rest, n)

def Expr.trackKeywords : List (Option String × Expr) → Nat → List (Option String × Expr) × Nat
  | [], n => ([], n)
  | (keyword, e) :: rest, n =>
      let (e, n) := e.track n
      let (rest, n) := Expr.trackKeywords rest n
      ((keyword, e) :: rest, n)

def Expr.trackEntries : List Entry → Nat → List Entry × Nat
  | [], n => ([], n)
  | .pair key value :: rest, n =>
      let (key, n) := key.track n
      let (value, n) := value.track n
      let (rest, n) := Expr.trackEntries rest n
      (.pair key value :: rest, n)
  | .spread value :: rest, n =>
      let (value, n) := value.track n
      let (rest, n) := Expr.trackEntries rest n
      (.spread value :: rest, n)

def Expr.trackGenerators : List Generator → Nat → List Generator × Nat
  | [], n => ([], n)
  | .clause target source conditions isAsync :: rest, n =>
      let (source, n) := source.track n
      let (conditions, n) := Expr.trackAll conditions n
      let (rest, n) := Expr.trackGenerators rest n
      (.clause target source conditions isAsync :: rest, n)

end

end EffectTree
