import EffectTree.Descriptor.Substitution
import EffectTree.Number.Reading
import EffectTree.Value.Order

/-!
# Merging and projecting

Two descriptors merge by filling in what is unknown and joining records field by field. Projecting a
field of a record closes it over its siblings: their names are substituted until none of them is
free.
-/

namespace EffectTree.Resolution

open Descriptor

mutual

/-- The intersection of two descriptors; where both are known and not records, the right one. -/
def merge (left : Descriptor) : Descriptor → Descriptor
  | .unknown => left
  | .record rs => match left with
      | .record ls => .record (mergeFields ls rs)
      | _ => .record rs
  | right => right

/-- Fields in order of first appearance, merged where both declare one. -/
def mergeFields (acc : Table Descriptor) : List (String × Descriptor) → Table Descriptor
  | [] => acc
  | (name, right) :: rest =>
      match acc.get? name with
      | some left => mergeFields (acc.put name (merge left right)) rest
      | none => mergeFields (acc.put name right) rest

end

@[simp] theorem merge_unknown (d : Descriptor) : merge .unknown d = d := by
  cases d <;> rfl

def pendingNames (fields : Table Descriptor) (value : Descriptor) : List String :=
  value.freeVars.filterMap fun name => match name with
    | .str s _ => if fields.has s then some s else none
    | _ => none

def sortedNames (names : List String) : List String :=
  (names.foldl (fun acc name => if acc.contains name then acc else acc ++ [name]) []).mergeSort
    fun a b => Value.compareChars a.toList b.toList != .gt

/-- Substitutes siblings for at most the given number of rounds; names still pending then form a
cycle. -/
def closeRounds (fields : Table Descriptor) :
    Nat → List String → Descriptor → Except Fault Descriptor
  | 0, pending, _ => .error (.cyclicFields (sortedNames pending))
  | rounds + 1, _, value =>
      match value.badVar? with
      | some v => .error (.unhashable v)
      | none =>
          let pending := pendingNames fields value
          if pending.isEmpty then .ok value
          else closeRounds fields rounds pending (value.substitute fields)

/-- A field's value with its siblings substituted. A chain of siblings that has no cycle is at most
as long as there are fields, so one round more is enough. -/
def closeOver (value : Descriptor) (fields : Table Descriptor) : Except Fault Descriptor :=
  closeRounds fields (fields.length + 1) [] value

/-- A text that spells the position of an item: digits after any number of minus signs. -/
def spellsIndex (s : String) : Bool :=
  let digits := s.toList.dropWhile (· = '-')
  !digits.isEmpty && digits.all Text.isDigit

/-- The position that a field of a tuple asks for, if it asks for one. -/
def tupleIndex : Value → Except Fault (Option Int)
  | .str s _ =>
      if spellsIndex s then
        match Number.readInt? 10 s with
        | some i => .ok (some i)
        | none => .error (.notInteger 10 (Text.quoted s))
      else .ok none
  | v => .ok v.integer?

/-- A part of a descriptor in head form; `none` where there is no such part. -/
def project (d : Descriptor) (field : Value) : Except Fault (Option Descriptor) :=
  match d with
  | .record fields =>
      match field with
      | .str name _ => match Table.get? fields name with
          | none => .ok none
          | some value => (closeOver value fields).map some
      | v => match v.unhashable? with
          | some part => .error (.unhashable part)
          | none => .ok none
  | .tuple items =>
      if field.eqv (.ofStr "length") then .ok (some (.literal (.ofInt items.length)))
      else
        match tupleIndex field with
        | .error e => .error e
        | .ok none => .ok none
        | .ok (some i) =>
            let j := if i < 0 then i + items.length else i
            if 0 ≤ j then .ok items[j.toNat]? else .ok none
  | _ => .ok none

end EffectTree.Resolution
