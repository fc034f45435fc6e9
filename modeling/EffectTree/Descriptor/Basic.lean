import EffectTree.Fault
import EffectTree.Table
import EffectTree.Value.Mark

/-!
# Descriptors

A program is a tree of descriptors. Literals, tuples, records and effects describe values and
operations; variables, references, projections, intersections and operators stand for descriptors
that are found when something inspects them. A record binds its own field names for the variables
inside. A projection carries a mark that tells which thing it is: it can turn up among the parts of
its own target.
-/

namespace EffectTree

inductive Descriptor where
  | literal (value : Value)
  | unknown
  | tuple (items : List Descriptor)
  | record (fields : List (String × Descriptor))
  | effect (tag : Value) (args : List Descriptor)
  | var (name : Value)
  | ref (name : Value)
  | result (key : Value)
  | index (target : Descriptor) (field : Value) (mark : Mark)
  | inter (parts : List Descriptor)
  | op (name : Value) (args : List Descriptor)
  deriving Inhabited

namespace Descriptor

def null : Descriptor := .literal .null

/-- Whether fields declare a name; only texts name fields. -/
def declares (fields : List (String × Descriptor)) : Value → Bool
  | .str name _ => Table.has fields name
  | _ => false

mutual

/-- The names of the variables that no record around them declares, in order of occurrence. -/
def freeVars : Descriptor → List Value
  | var name => [name]
  | tuple items => freeVarsList items
  | record fields => (freeVarsFields fields).filter fun name => !declares fields name
  | effect _ args => freeVarsList args
  | index target _ _ => freeVars target
  | inter parts => freeVarsList parts
  | op _ args => freeVarsList args
  | _ => []

def freeVarsList : List Descriptor → List Value
  | [] => []
  | d :: ds => freeVars d ++ freeVarsList ds

def freeVarsFields : List (String × Descriptor) → List Value
  | [] => []
  | (_, d) :: rest => freeVars d ++ freeVarsFields rest

end

mutual

def badVar? : Descriptor → Option Value
  | var name => name.unhashable?
  | tuple items => badVarList? items
  | record fields => badVarFields? fields
  | effect _ args => badVarList? args
  | index target _ _ => badVar? target
  | inter parts => badVarList? parts
  | op _ args => badVarList? args
  | _ => none

def badVarList? : List Descriptor → Option Value
  | [] => none
  | d :: ds => match badVar? d with
      | some v => some v
      | none => badVarList? ds

def badVarFields? : List (String × Descriptor) → Option Value
  | [] => none
  | (_, d) :: rest => match badVar? d with
      | some v => some v
      | none => badVarFields? rest

end

/-- Free names without repetitions, or the fault that one of them cannot be a key. -/
def freeNames (d : Descriptor) : Except Fault (List Value) :=
  match d.badVar? with
  | some v => .error (.unhashable v)
  | none => .ok (d.freeVars.foldl (fun acc name => Value.insertMember name acc) [])

end Descriptor

end EffectTree
