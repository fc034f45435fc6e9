import EffectTree.Descriptor.Basic

/-!
# Reference cells

Mutable cells in the order in which their keys were inserted. Keys are values and compare as such,
so that `1`, `1.0` and `true` name one cell; the first spelling of a key stays until the cell is
deleted.
-/

namespace EffectTree.Store

structure Cells where
  entries : List (Value × Descriptor) := []
  deriving Inhabited

namespace Cells

/-- The descriptor in the cell of a key; lists, sets and dictionaries name no cell. -/
def get? (cells : Cells) (key : Value) : Option Descriptor :=
  (cells.entries.find? fun entry => entry.1.agrees key).map (·.2)

/-- Reading a cell that is not there is a fault. -/
def get (cells : Cells) (key : Value) : Except Fault Descriptor :=
  match key.unhashable? with
  | some _ => .error .cellDeleted
  | none => match cells.get? key with
      | some d => .ok d
      | none => .error .cellDeleted

/-- Stores into the cell of an equal key or into a new cell at the end. -/
def putEntry (key : Value) (d : Descriptor) : List (Value × Descriptor) → List (Value × Descriptor)
  | [] => [(key, d)]
  | (k, old) :: rest => if k.agrees key then (k, d) :: rest else (k, old) :: putEntry key d rest

def put (cells : Cells) (key : Value) (d : Descriptor) : Cells := ⟨putEntry key d cells.entries⟩

def set (cells : Cells) (key : Value) (d : Descriptor) : Except Fault Cells :=
  key.requireHashable.map fun _ => cells.put key d

def has (cells : Cells) (key : Value) : Bool := cells.entries.any fun entry => entry.1.agrees key

def exists? (cells : Cells) (key : Value) : Except Fault Bool :=
  key.requireHashable.map fun _ => cells.has key

def erase (cells : Cells) (key : Value) : Cells :=
  ⟨cells.entries.filter fun entry => !entry.1.agrees key⟩

/-- Removes the cell of a key and tells whether there was one. Without any cells the key is not
looked at. -/
def delete (cells : Cells) (key : Value) : Except Fault (Bool × Cells) :=
  if cells.entries.isEmpty then .ok (false, cells)
  else key.requireHashable.map fun _ => (cells.has key, cells.erase key)

def keys (cells : Cells) : List Value := cells.entries.map (·.1)

def size (cells : Cells) : Nat := cells.entries.length

/-- A line that tells how many cells there are. -/
def summary (cells : Cells) : String := "ReferenceStore(" ++ toString cells.size ++ " cells)"

end Cells

end EffectTree.Store
