import EffectTree.Value.Key

/-!
# The members of sets

A set keeps the first of equal members. While the keys of all members are known they sit in a row;
otherwise a set lists them as they were added.
-/

namespace EffectTree.Value

inductive Members where
  | row (r : Row Value)
  | added (items : List Value)

namespace Members

def empty : Members := row {}

def toList : Members → List Value
  | row r => r.members
  | added items => items

def size (m : Members) : Nat := m.toList.length

def has (m : Members) (v : Value) : Bool := m.toList.any (agrees v)

def add (m : Members) (v : Value) : Members :=
  if m.has v then m
  else match m, v.key? with
    | row r, some key => row (r.add key v)
    | m, _ => added (m.toList ++ [v])

def addAll (m : Members) (vs : List Value) : Members := vs.foldl add m

def remove (m : Members) (selected : Value → Bool) : Members :=
  match m with
  | row r => row (r.vacate selected)
  | added items => added (items.filter fun v => !selected v)

def copy : Members → Members
  | row r => row r.copy
  | added items => added items

def settle : Members → Members
  | row r => row r.settle
  | added items => added items

def union (a b : Members) : Members :=
  match a.copy, b with
  | row r, row s => row (r.merge s fun v r => r.members.any (agrees v))
  | m, b => m.addAll b.toList

/-- Common members are taken from the smaller set, from the right one of two of a size. -/
def inter (a b : Members) : Members :=
  if b.size ≤ a.size then empty.addAll (b.toList.filter a.has)
  else empty.addAll (a.toList.filter b.has)

/-- A few members are taken out of a copy; otherwise those that are left make a new set. -/
def diff (a b : Members) : Members :=
  if b.size < a.size / 4 then (a.copy.remove b.has).settle
  else empty.addAll (a.toList.filter fun v => !b.has v)

/-- The members of one set only, starting from the right one. -/
def symmDiff (a b : Members) : Members :=
  a.toList.foldl (fun m v => if m.has v then m.remove (agrees v) else m.add v) b.copy

end Members

/-- The members of a set that lists these items. -/
def membersOf (items : List Value) (seating : Option Seating) : Members :=
  match seating with
  | some s => .row (.ofSeating s (items.map fun v => (v.key?.getD 0, v)))
  | none => .added items

def ofMembers (m : Members) : Value :=
  match m with
  | .row r => set r.members (some r.seating) .fresh
  | .added items => set items none .fresh

def mkSet (items : List Value) : Value := ofMembers (Members.empty.addAll items)

end EffectTree.Value
