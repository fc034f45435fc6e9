import EffectTree.Descriptor.Basic

/-!
# Results

The outputs of effects in the order in which they were produced. Entries are only ever added. The
output of an entry is referred to by projecting its slot, a record with the one field `output`.
-/

namespace EffectTree.Store

structure Results where
  entries : List (String × Descriptor) := []
  deriving Inhabited

namespace Results

def add (results : Results) (key : String) (d : Descriptor) : Results :=
  ⟨results.entries ++ [(key, d)]⟩

def get? (results : Results) (key : String) : Option Descriptor := Table.get? results.entries key

/-- The output under a key; only texts are keys of results. -/
def find? (results : Results) : Value → Option Descriptor
  | .str key _ => results.get? key
  | _ => none

def get (results : Results) (key : Value) : Except Fault Descriptor :=
  match results.find? key with
  | some d => .ok d
  | none => .error (.missingKey key)

def has (results : Results) (key : Value) : Bool := (results.find? key).isSome

/-- The descriptor that refers to the output under a key. -/
def reference (key : Value) : Descriptor := .index (.result key) (.ofStr "output") .fresh

def project (results : Results) (key : Value) : Except Fault Descriptor :=
  if results.has key then .ok (reference key)
  else .error (.missingKey (.ofStr ("Unknown result key: " ++ key.shown)))

def keys (results : Results) : List String := Table.keys results.entries

def outputs (results : Results) : List Descriptor := results.entries.map (·.2)

def size (results : Results) : Nat := results.entries.length

/-- A line that tells how many results there are. -/
def summary (results : Results) : String := "ResultStore(" ++ toString results.size ++ " entries)"

/-- The slot in which resolution finds an output. -/
def slot (d : Descriptor) : Descriptor := .record [("output", d)]

end Results

end EffectTree.Store
