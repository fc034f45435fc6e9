import EffectTree.Expression.Basic

/-!
# The check of expressions

Forms that are not supported and names that start with underscores are refused before anything is
evaluated. Of several violations the one nearest to the root is reported, and the leftmost of those
at one depth.
-/

namespace EffectTree.Expression

inductive Violation where
  | form (form : Unsupported)
  | access (name : String)

def Violation.message : Violation → String
  | form f => "Unsupported syntax: " ++ f.label
  | access name => "Access to " ++ Text.quoted name ++ " is not allowed"

/-- Violations with their depths, from left to right. -/
abbrev Violations := List (Nat × Violation)

mutual

def violations (depth : Nat) : Expr → Violations
  | .constant _ => []
  | .name id => if id.startsWith "__" then [(depth, .access id)] else []
  | .binary _ left right => violations (depth + 1) left ++ violations (depth + 1) right
  | .unary _ operand => violations (depth + 1) operand
  | .logical _ operands => violationsAll (depth + 1) operands
  | .compare first rest => violations (depth + 1) first ++ violationsCompared (depth + 1) rest
  | .conditional test yes no =>
      violations (depth + 1) test ++ violations (depth + 1) yes ++ violations (depth + 1) no
  | .item target key => violations (depth + 1) target ++ violations (depth + 1) key
  | .slice lower upper step =>
      violationsOpt (depth + 1) lower ++ violationsOpt (depth + 1) upper ++
        violationsOpt (depth + 1) step
  | .field target name =>
      (if name.startsWith "_" then [(depth, .access name)] else []) ++ violations (depth + 1) target
  | .call function args keywords =>
      violations (depth + 1) function ++ violationsAll (depth + 1) args ++
        violationsKeywords (depth + 2) keywords
  | .list items => violationsAll (depth + 1) items
  | .tuple items => violationsAll (depth + 1) items
  | .set items => violationsAll (depth + 1) items
  | .dict entries => violationsKeys (depth + 1) entries ++ violationsValues (depth + 1) entries
  | .text parts => violationsAll (depth + 1) parts
  | .formatted value _ spec => violations (depth + 1) value ++ violationsOpt (depth + 1) spec
  | .comprehension _ element generators =>
      violations (depth + 1) element ++ violationsGenerators (depth + 2) generators
  | .unsupported form => [(depth, .form form)]

def violationsOpt (depth : Nat) : Option Expr → Violations
  | none => []
  | some e => violations depth e

def violationsAll (depth : Nat) : List Expr → Violations
  | [] => []
  | e :: es => violations depth e ++ violationsAll depth es

def violationsCompared (depth : Nat) : List (CompareOp × Expr) → Violations
  | [] => []
  | (_, e) :: rest => violations depth e ++ violationsCompared depth rest

def violationsKeywords (depth : Nat) : List (Option String × Expr) → Violations
  | [] => []
  | (_, e) :: rest => violations depth e ++ violationsKeywords depth rest

def violationsKeys (depth : Nat) : List Entry → Violations
  | [] => []
  | .pair key _ :: rest => violations depth key ++ violationsKeys depth rest
  | .spread _ :: rest => violationsKeys depth rest

def violationsValues (depth : Nat) : List Entry → Violations
  | [] => []
  | .pair _ value :: rest => violations depth value ++ violationsValues depth rest
  | .spread value :: rest => violations depth value ++ violationsValues depth rest

def violationsGenerators (depth : Nat) : List Generator → Violations
  | [] => []
  | .clause target source conditions _ :: rest =>
      violations depth target ++ violations depth source ++ violationsAll depth conditions ++
        violationsGenerators depth rest

end

/-- The first of the violations with the least depth. -/
def nearest? : Violations → Option (Nat × Violation)
  | [] => none
  | v :: rest => match nearest? rest with
      | none => some v
      | some w => some (if w.1 < v.1 then w else v)

def violation? (e : Expr) : Option Violation := (nearest? (violations 0 e)).map (·.2)

end EffectTree.Expression
