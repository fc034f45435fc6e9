import EffectTree.Descriptor.Coercion
import EffectTree.Descriptor.Show
import EffectTree.Value.Members

/-!
# Outlines

What builders work with: descriptors in which plain values stand where a descriptor is meant.
Coercion puts a descriptor in the place of each plain value. The continuation of a `Bind` is taken
as it is given, so that a plain value can be left there; an outline without such a value is a
descriptor.
-/

namespace EffectTree.Builder

inductive Outline where
  | value (v : Value)
  | list (items : List Outline)
  | pair (items : List Outline)
  | dict (entries : List (Value × Outline))
  | set (members : List Outline)
  | literal (v : Value)
  | unknown
  | tuple (items : List Outline)
  | record (fields : List (String × Outline))
  | effect (tag : Outline) (args : List Outline)
  | var (name : Outline)
  | ref (name : Outline)
  | index (target field : Outline)
  | inter (parts : List Outline)
  | op (name : String) (args : List Outline)
  deriving Inhabited

namespace Outline

def isDescriptor : Outline → Bool
  | value _ | list _ | pair _ | dict _ | set _ => false
  | _ => true

def typeName : Outline → String
  | value v => v.typeName
  | list _ => "list"
  | pair _ => "tuple"
  | dict _ => "dict"
  | set _ => "set"
  | literal _ => "Literal"
  | unknown => "Unknown"
  | tuple _ => "TupleDesc"
  | record _ => "Record"
  | effect .. => "EffectNode"
  | var _ => "Var"
  | ref _ => "Ref"
  | index .. => "Index"
  | inter _ => "Intersection"
  | op .. => "Op"

mutual

def shown : Outline → String
  | value v => v.shown
  | list items => "[" ++ ", ".intercalate (shownList items) ++ "]"
  | pair items => Descriptor.tupleText (shownList items)
  | dict entries => "\x7b" ++ ", ".intercalate (shownEntries entries) ++ "\x7d"
  | set [] => "set()"
  | set members => "\x7b" ++ ", ".intercalate (shownList members) ++ "\x7d"
  | literal v => "Literal(value=" ++ v.shown ++ ")"
  | unknown => "Unknown()"
  | tuple items => "TupleDesc(items=" ++ Descriptor.tupleText (shownList items) ++ ")"
  | record fields =>
      "Record(fields=frozendict.frozendict(\x7b" ++
        ", ".intercalate (shownFields fields) ++ "\x7d))"
  | effect tag args =>
      "EffectNode(tag=" ++ shown tag ++ ", args=" ++ Descriptor.tupleText (shownList args) ++ ")"
  | var name => "Var(name=" ++ shown name ++ ")"
  | ref name => "Ref(name=" ++ shown name ++ ")"
  | index target field => "Index(target=" ++ shown target ++ ", field=" ++ shown field ++ ")"
  | inter parts => "Intersection(parts=" ++ Descriptor.tupleText (shownList parts) ++ ")"
  | op name args =>
      "Op(name=" ++ Text.quoted name ++ ", args=" ++ Descriptor.tupleText (shownList args) ++ ")"

def shownList : List Outline → List String
  | [] => []
  | o :: os => shown o :: shownList os

def shownEntries : List (Value × Outline) → List String
  | [] => []
  | (k, o) :: rest => (k.shown ++ ": " ++ shown o) :: shownEntries rest

def shownFields : List (String × Outline) → List String
  | [] => []
  | (name, o) :: rest => (Text.quoted name ++ ": " ++ shown o) :: shownFields rest

end

mutual

/-- Puts a descriptor in the place of a plain value; descriptors stay as they are. -/
def coerce : Outline → Except Fault Outline
  | value v => match Descriptor.ofValue v with
      | .ok (.literal v) => .ok (literal v)
      | .ok _ | .error _ => .error (Descriptor.indescribable v.typeName v.shown)
  | list items => (coerceAll items).map tuple
  | pair items => (coerceAll items).map tuple
  | dict entries => (coerceEntries entries []).map record
  | set members => .error (Descriptor.indescribable "set" (shown (set members)))
  | o => .ok o

def coerceAll : List Outline → Except Fault (List Outline)
  | [] => .ok []
  | o :: os =>
      match coerce o with
      | .error e => .error e
      | .ok d => (coerceAll os).map (d :: ·)

def coerceEntries : List (Value × Outline) → Table Outline → Except Fault (Table Outline)
  | [], acc => .ok acc
  | (k, o) :: rest, acc =>
      match coerce o with
      | .error e => .error e
      | .ok d => coerceEntries rest (acc.put k.display d)

end

mutual

def value? : Outline → Option Value
  | value v => some v
  | list items => (values? items).map .ofList
  | pair items => (values? items).map .ofTuple
  | dict entries => (entryValues? entries).map .ofDict
  | _ => none

def values? : List Outline → Option (List Value)
  | [] => some []
  | o :: os => do return (← value? o) :: (← values? os)

def entryValues? : List (Value × Outline) → Option (List (Value × Value))
  | [] => some []
  | (k, o) :: rest => do return (k, ← value? o) :: (← entryValues? rest)

end

mutual

/-- The descriptor that an outline is, unless a plain value is left in it. -/
def descriptor? : Outline → Option Descriptor
  | literal v => some (.literal v)
  | unknown => some .unknown
  | tuple items => (descriptors? items).map .tuple
  | record fields => (fieldDescriptors? fields).map .record
  | effect tag args => do return .effect (← tag.value?) (← descriptors? args)
  | var name => name.value?.map .var
  | ref name => name.value?.map .ref
  | index target field => do return .index (← descriptor? target) (← field.value?) .fresh
  | inter parts => (descriptors? parts).map .inter
  | op name args => (descriptors? args).map (.op (.ofStr name))
  | _ => none

def descriptors? : List Outline → Option (List Descriptor)
  | [] => some []
  | o :: os => do return (← descriptor? o) :: (← descriptors? os)

def fieldDescriptors? : List (String × Outline) → Option (List (String × Descriptor))
  | [] => some []
  | (name, o) :: rest => do return (name, ← descriptor? o) :: (← fieldDescriptors? rest)

end

mutual

/-- The type of the part that keeps an outline from being a key, if there is one. -/
def unhashable? : Outline → Option String
  | value v | literal v => v.unhashable?.map (·.typeName)
  | list _ => some "list"
  | dict _ => some "dict"
  | set _ => some "set"
  | pair items | tuple items | inter items | op _ items => unhashableItem? items
  | record fields => unhashableField? fields
  | effect tag args => (unhashable? tag).or (unhashableItem? args)
  | var name | ref name => unhashable? name
  | index target field => (unhashable? target).or (unhashable? field)
  | unknown => none

def unhashableItem? : List Outline → Option String
  | [] => none
  | o :: os => (unhashable? o).or (unhashableItem? os)

def unhashableField? : List (String × Outline) → Option String
  | [] => none
  | (_, o) :: rest => (unhashable? o).or (unhashableField? rest)

end

/-- Members without those that are written like an earlier one. -/
def distinct (members : List Outline) : List Outline :=
  (members.foldl (fun acc o => if acc.any (·.shown = o.shown) then acc else o :: acc) []).reverse

/-- A set of outlines; members have to be possible keys. -/
def ofMembers (members : List Outline) : Except Fault Outline :=
  match unhashableItem? members with
  | some type => .error (.mismatch ("unhashable type: '" ++ type ++ "'"))
  | none => .ok (match values? members with
      | some vs => value (Value.mkSet vs)
      | none => set (distinct members))

def ofOctets (items : List Outline) : Except Fault Outline := do
  let octets ← items.mapM fun o => match o.value?.bind Value.integer? with
    | some i =>
        if 0 ≤ i ∧ i < 256 then return i.toNat.toUInt8
        else throw (.invalid "bytes must be in range(0, 256)")
    | none =>
      throw (.mismatch ("'" ++ o.typeName ++ "' object cannot be interpreted as an integer"))
  return value (.ofBytes octets)

end Outline

end EffectTree.Builder
