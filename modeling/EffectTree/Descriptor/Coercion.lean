import EffectTree.Descriptor.Basic
import EffectTree.Value.Order

/-!
# Values as descriptors

Scalars are literals, sequences tuples and dictionaries records. Other values have no descriptor of
their own; the outcome of an expression is then described by its text, a set by its members.
-/

namespace EffectTree.Descriptor

def indescribable (type text : String) : Fault :=
  .mismatch ("Cannot describe value of type " ++ type ++ ": " ++ text)

mutual

def ofValue : Value → Except Fault Descriptor
  | .null => .ok (.literal .null)
  | .bool b => .ok (.literal (.bool b))
  | .int i m => .ok (.literal (.int i m))
  | .float x m => .ok (.literal (.float x m))
  | .str s m => .ok (.literal (.str s m))
  | .list xs _ => (ofItems xs).map .tuple
  | .tuple xs _ => (ofItems xs).map .tuple
  | .dict es _ => (ofEntries es []).map .record
  | v => .error (indescribable v.className v.shown)

def ofItems : List Value → Except Fault (List Descriptor)
  | [] => .ok []
  | x :: xs =>
      match ofValue x with
      | .error e => .error e
      | .ok d => (ofItems xs).map (d :: ·)

def ofEntries : List (Value × Value) → Table Descriptor → Except Fault (Table Descriptor)
  | [], acc => .ok acc
  | (k, v) :: rest, acc =>
      match ofValue v with
      | .error e => .error e
      | .ok d => ofEntries rest (acc.put k.display d)

end

def sortedByText (xs : List Value) : List Value :=
  (xs.map fun v => (v.shown, v)).mergeSort
    (fun a b => Value.compareChars a.1.toList b.1.toList != .gt)
    |>.map (·.2)

/-- The descriptor of the outcome of an expression. -/
def describe (v : Value) : Except Fault Descriptor :=
  match ofValue v with
  | .ok d => .ok d
  | .error _ =>
      match v with
      | .set xs _ _ => ofValue (.ofList (sortedByText xs))
      | v => .ok (.literal (.ofStr v.display))

end EffectTree.Descriptor
