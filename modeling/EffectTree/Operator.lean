import EffectTree.Json.Printer
import EffectTree.Text.Casing
import EffectTree.Text.Search
import EffectTree.Value.Percent
import EffectTree.Value.Sorting

/-!
# Operators

The pure operators that descriptors apply during resolution, as functions on lists of values. A
wrong number of operands is a fault like any other.
-/

namespace EffectTree

inductive Operator where
  | add | sub | mul | div | mod | concat
  | eq | ne | lt | le | gt | ge
  | not | and | or
  | length | json | keys | upper | lower | split | trim
  deriving DecidableEq, Repr

namespace Operator

def ofName? : String → Option Operator
  | "add" => some add
  | "sub" => some sub
  | "mul" => some mul
  | "div" => some div
  | "mod" => some mod
  | "concat" => some concat
  | "eq" => some eq
  | "ne" => some ne
  | "lt" => some lt
  | "le" => some le
  | "gt" => some gt
  | "ge" => some ge
  | "not" => some not
  | "and" => some and
  | "or" => some or
  | "length" => some length
  | "json" => some json
  | "keys" => some keys
  | "upper" => some upper
  | "lower" => some lower
  | "split" => some split
  | "trim" => some trim
  | _ => none

/-- The fault of calling a function that takes the named operands with another number of them. -/
def arityFault (function : String) (names : List String) (given : Nat) : Fault :=
  let missing := (names.drop given).map fun name => "'" ++ name ++ "'"
  let plural (n : Nat) : String := if n = 1 then "" else "s"
  if missing.isEmpty then
    .mismatch (function ++ "() takes " ++ toString names.length ++ " positional argument" ++
      plural names.length ++ " but " ++ toString given ++
        (if given = 1 then " was given" else " were given"))
  else
    .mismatch (function ++ "() missing " ++ toString missing.length ++
      " required positional argument" ++
      plural missing.length ++ ": " ++ " and ".intercalate missing)

def unary (name : String) (f : Value → Except Fault Value) : List Value → Except Fault Value
  | [a] => f a
  | vs => .error (arityFault "<lambda>" [name] vs.length)

def binary (function first second : String) (f : Value → Value → Except Fault Value) :
    List Value → Except Fault Value
  | [a, b] => f a b
  | vs => .error (arityFault function [first, second] vs.length)

def concatenate : List Value → Except Fault String
  | [] => .ok ""
  | .str s _ :: rest => (concatenate rest).map (s ++ ·)
  | v :: rest =>
      match Json.print v with
      | .error e => .error e
      | .ok text => (concatenate rest).map (text ++ ·)

def sum (vs : List Value) : Except Fault Value :=
  vs.foldlM Value.add (.ofInt 0)

def product (vs : List Value) : Except Fault Value :=
  vs.foldlM Value.mul (.ofInt 1)

/-- A quotient that is whole becomes an integer. -/
def quotient (a b : Value) : Except Fault Value :=
  (Value.divide a b).map fun
    | .float x _ =>
        if Number.Binary64.isInteger x then .ofInt ((Number.Binary64.truncate? x).getD 0)
          else .ofFloat x
    | v => v

def textMethod (name : String) (f : String → Except Fault Value) : Value → Except Fault Value
  | .str s _ => f s
  | v => .error (.noAttribute ("'" ++ v.typeName ++ "' object has no attribute '" ++ name ++ "'"))

def splitText (s : String) : Value → Except Fault Value
  | .null => .ok (.ofList ((Text.words none s.toList).map fun w => .ofStr (String.ofList w)))
  | .str sep _ =>
      if sep.isEmpty then .error (.invalid "empty separator")
      else .ok (.ofList ((Text.splitAt sep.toList none s.toList).map fun w =>
        .ofStr (String.ofList w)))
  | v => .error (.mismatch ("must be str or None, not " ++ v.typeName))

def length1 (v : Value) : Except Fault Value :=
  match v.size? with
  | some n => .ok (.ofInt n)
  | none => .error (.mismatch ("object of type '" ++ v.typeName ++ "' has no len()"))

def apply : Operator → List Value → Except Fault Value
  | add, vs => match vs with
      | .str .. :: _ => (concatenate vs).map .ofStr
      | vs => sum vs
  | sub, vs => binary "_sub" "a" "b" Value.sub vs
  | mul, vs => product vs
  | div, vs => binary "_div" "a" "b" quotient vs
  | mod, vs => binary "<lambda>" "a" "b" Value.mod vs
  | concat, vs => (concatenate vs).map .ofStr
  | eq, vs => binary "<lambda>" "a" "b" (fun a b => .ok (.bool (a.eqv b))) vs
  | ne, vs => binary "<lambda>" "a" "b" (fun a b => .ok (.bool !(a.eqv b))) vs
  | lt, vs => binary "<lambda>" "a" "b" (fun a b => (Value.related .less a b).map .bool) vs
  | le, vs => binary "<lambda>" "a" "b" (fun a b => (Value.related .lessEq a b).map .bool) vs
  | gt, vs => binary "<lambda>" "a" "b" (fun a b => (Value.related .greater a b).map .bool) vs
  | ge, vs => binary "<lambda>" "a" "b" (fun a b => (Value.related .greaterEq a b).map .bool) vs
  | not, vs => unary "a" (fun a => .ok (.bool !a.truthy)) vs
  | and, vs => .ok (.bool (vs.all Value.truthy))
  | or, vs => .ok (.bool (vs.any Value.truthy))
  | length, vs => match vs with
      | [v] => length1 v
      | vs =>
        .error (.mismatch ("len() takes exactly one argument (" ++ toString vs.length ++ " given)"))
  | json, vs => unary "value" (fun v => (Json.print v).map .ofStr) vs
  | keys, vs => unary "value" (fun v => do return .ofList (← Value.sortValues (← v.items))) vs
  | upper, vs => unary "value" (textMethod "upper" fun s => .ok (.ofStr (Text.upper s))) vs
  | lower, vs => unary "value" (textMethod "lower" fun s => .ok (.ofStr (Text.lower s))) vs
  | split, vs =>
    binary "<lambda>" "value" "sep" (fun v sep => textMethod "split" (splitText · sep) v) vs
  | trim, vs => unary "value" (textMethod "strip" fun s => .ok (.ofStr (Text.strip s))) vs

/-- The faults that an operator reports as its own failure; a missing key is not among them. -/
def reports (e : Fault) : Bool :=
  match e.kind with
  | .mismatch | .noAttribute => true
  | kind => kind.isInvalid || kind.isArithmetic

end Operator

end EffectTree
