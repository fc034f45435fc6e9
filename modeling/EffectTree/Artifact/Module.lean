import EffectTree.Descriptor.Coercion

/-!
# Artifacts that are executed

A module is a source that is executed; what it comes to are the names that it defines. One of them
is the entry, the descriptors among the others are definitions, and so are the members of a table of
that name.
-/

namespace EffectTree.Artifact

/-- What a name of a module stands for: a descriptor, a plain value, a collection in which there are
such, or a thing that has no descriptor. -/
inductive Attribute where
  | descriptor (d : Descriptor)
  | value (v : Value)
  | items (members : List Attribute)
  | table (entries : List (Value × Attribute))
  | other (type text : String)

namespace Attribute

mutual

def coerce : Attribute → Except Fault Descriptor
  | descriptor d => .ok d
  | value v => Descriptor.ofValue v
  | items members => (coerceAll members).map .tuple
  | table entries => (coerceEntries entries []).map .record
  | other type text => .error (Descriptor.indescribable type text)

def coerceAll : List Attribute → Except Fault (List Descriptor)
  | [] => .ok []
  | a :: rest =>
      match coerce a with
      | .error e => .error e
      | .ok d => (coerceAll rest).map (d :: ·)

/-- Adds the entries to a table; of equal names the last counts. -/
def coerceEntries : List (Value × Attribute) → Table Descriptor → Except Fault (Table Descriptor)
  | [], acc => .ok acc
  | (k, a) :: rest, acc =>
      match coerce a with
      | .error e => .error e
      | .ok d => coerceEntries rest (acc.put k.display d)

end

def descriptor? : Attribute → Option Descriptor
  | descriptor d => some d
  | _ => none

/-- The entries of a mapping. -/
def entries : Attribute → List (Value × Attribute)
  | table entries => entries
  | value (.dict es _) => es.map fun (k, v) => (k, .value v)
  | _ => []

end Attribute

/-- The names that a module defines, in order. -/
abbrev Module := Table Attribute

/-- What executing a source comes to: a module, or the message of an exception. -/
abbrev Modules := String → Except String Module

/-- No source can be executed. -/
def Modules.none : Modules := fun _ => .error "modules are not executed"

/-- Whether a path names a source that is executed. -/
def isModule (place : String) : Bool :=
  let reversed := place.toList.reverse.takeWhile (· ≠ '/')
  ['y', 'p', '.'].isPrefixOf reversed && 3 < reversed.length

/-- The public descriptors of a module besides its entry. -/
def Module.exports (m : Module) (entry : String) : Table Descriptor :=
  m.filterMap fun (name, a) =>
    if name.startsWith "_" || name = entry then Option.none
    else a.descriptor?.map fun d => (name, d)

def Module.definitions (m : Module) (entry : String) : Except Fault (Table Descriptor) :=
  Attribute.coerceEntries ((m.get? "definitions").elim [] Attribute.entries) (m.exports entry)

end EffectTree.Artifact
