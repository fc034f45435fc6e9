import EffectTree.Builder.Outline
import EffectTree.Expression.Arguments

/-!
# Builders

Functions that make outlines of descriptors from outlines of their parts. Names with a leading
underscore are kept for other uses; a trailing underscore lets a name be spelled that would
otherwise mean something else.
-/

namespace EffectTree.Builder

open Outline

def effect (tag : Outline) (args : List Outline) : Except Fault Outline :=
  (coerceAll args).map (.effect tag)

/-- Names with a leading underscore are not builders. -/
def publicName (name : String) : Except Fault String :=
  if name.startsWith "_" then .error (.noAttribute name) else .ok name

def effectNamed (name : String) (args : List Outline) : Except Fault Outline := do
  effect (.value (.ofStr (← publicName name))) args

/-- The operator of a name without its trailing underscores. -/
def operatorNamed (name : String) (args : List Outline) : Except Fault Outline := do
  let name ← publicName name
  let stem := (name.toList.reverse.dropWhile (· = '_')).reverse
  return .op (String.ofList stem) (← coerceAll args)

def fieldName (name : String) : String :=
  if name.endsWith "_" then String.ofList name.toList.dropLast else name

/-- Fields under names that a function changes; a name that comes again has its last value. -/
def fieldsWith (rename : String → String) (fields : List (String × Outline)) :
    Except Fault (Table Outline) :=
  fields.foldlM (fun acc entry => (coerce entry.2).map (Table.put acc (rename entry.1))) []

def record (fields : List (String × Outline)) : Except Fault Outline :=
  (fieldsWith id fields).map .record

def shape (fields : List (String × Outline)) : Except Fault Outline :=
  (fieldsWith fieldName fields).map .record

/-- A continuation: a record that declares the field `input`. -/
def kind (fields : List (String × Outline)) : Except Fault Outline :=
  (fieldsWith fieldName fields).map fun fields =>
    .record (if Table.has fields "input" then fields else Table.put fields "input" .unknown)

inductive Form where
  | effect | var | ref | index | both | gather | block | bind
  deriving DecidableEq, Repr

namespace Form

def name : Form → String
  | effect => "effect"
  | var => "var"
  | ref => "ref"
  | index => "index"
  | both => "both"
  | gather => "seq"
  | block => "do"
  | bind => "bind"

def required : Form → List String
  | effect => ["tag"]
  | var | ref => ["name"]
  | index => ["target", "field"]
  | bind => ["node", "continuation"]
  | both | gather | block => []

def missing (f : Form) (names : List String) : Fault :=
  .mismatch (f.name ++ "() missing " ++ toString names.length ++ " required positional argument" ++
    Expression.plural names.length ++ ": " ++ " and ".intercalate (names.map Text.quoted))

def excess (f : Form) (given : Nat) : Fault :=
  .mismatch (f.name ++ "() takes " ++ toString f.required.length ++ " positional argument" ++
    Expression.plural f.required.length ++ " but " ++ toString given ++
    (if given = 1 then " was given" else " were given"))

/-- Effects in a tuple under one tag. -/
def listing (tag : String) (nodes : List Outline) : Except Fault Outline :=
  (coerceAll nodes).map fun items => .effect (.value (.ofStr tag)) [.tuple items]

def build (f : Form) (parts : List Outline) : Except Fault Outline :=
  match f, parts with
  | effect, tag :: args => Builder.effect tag args
  | var, [name] => .ok (.var name)
  | ref, [name] => .ok (.ref name)
  | index, [target, field] => (coerce target).map (.index · field)
  | both, parts => (coerceAll parts).map .inter
  | gather, nodes => listing "Seq" nodes
  | block, nodes => listing "Do" nodes
  | bind, [node, continuation] =>
      (coerce node).map fun d => .effect (.value (.ofStr "Bind")) [d, continuation]
  | f, parts =>
      if parts.length < f.required.length then .error (f.missing (f.required.drop parts.length))
      else .error (f.excess parts.length)

end Form

end EffectTree.Builder
