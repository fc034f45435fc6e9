import EffectTree.Value.Order

/-!
# Items of values

Iteration, indexing and slicing. Negative positions count from the end, and a slice clips its bounds
to the sequence.
-/

namespace EffectTree.Value

def items : Value → Except Fault (List Value)
  | str s _ => .ok (s.toList.map fun c => ofStr (String.singleton c))
  | bytes bs _ => .ok (bs.map fun b => ofInt b.toNat)
  | list xs _ => .ok xs
  | tuple xs _ => .ok xs
  | set xs _ _ => .ok xs
  | dict es _ => .ok (es.map (·.1))
  | generic f xs _ m => .ok [generic f xs true m]
  | v => .error (.notIterable v)

/-- Whether a value offers iteration; the types of collections do without supporting it. -/
def offersItems : Value → Bool
  | str .. | bytes .. | list .. | tuple .. | set .. | dict .. | generic .. => true
  | builtin f => f = .str || f = .list || f = .tuple || f = .dict
  | _ => false

def size? : Value → Option Nat
  | str s _ => some s.length
  | bytes bs _ => some bs.length
  | list xs _ => some xs.length
  | tuple xs _ => some xs.length
  | set xs _ _ => some xs.length
  | dict es _ => some es.length
  | _ => none

def position? (n : Nat) (i : Int) : Option Nat :=
  let j := if i < 0 then i + n else i
  if 0 ≤ j && j < n then some j.toNat else none

def isInfix {α : Type} [BEq α] (part : List α) : List α → Bool
  | [] => part.isEmpty
  | x :: xs => part.isPrefixOf (x :: xs) || isInfix part xs

/-- Membership: a part of a text, an octet or part of octets, an item, a key. A set can be asked for
in a set, where it never is. -/
def member (x container : Value) : Except Fault Bool :=
  match container with
  | str s _ => match x with
      | str t _ => .ok (isInfix t.toList s.toList)
      | v => .error (.mismatch
          ("'in <string>' requires string as left operand, not " ++ v.typeName))
  | bytes bs _ => match x with
      | bytes part _ => .ok (isInfix part bs)
      | v => match v.integer? with
          | some i =>
              if 0 ≤ i && i < 256 then .ok (bs.any fun b => (b.toNat : Int) = i)
              else .error (.invalid "byte must be in range(0, 256)")
          | none =>
            .error (.mismatch ("a bytes-like object is required, not '" ++ v.typeName ++ "'"))
  | list xs _ => .ok (xs.any (agrees · x))
  | tuple xs _ => .ok (xs.any (agrees · x))
  | set xs _ _ => match x with
      | set .. => .ok false
      | x => x.requireHashable.map fun _ => xs.any (agrees · x)
  | dict es _ => x.requireHashable.map fun _ => es.any fun entry => agrees entry.1 x
  | generic f xs _ m => .ok (agrees (generic f xs true m) x)
  | v => .error (.mismatch ("argument of type '" ++ v.typeName ++ "' is not iterable"))

def isCollectionType : Builtin → Bool
  | .dict | .list | .tuple => true
  | _ => false

/-- The arguments that an index gives to a type: the items of a tuple, or the index. -/
def typeArguments : Value → List Value
  | tuple xs _ => xs
  | v => [v]

/-- What an index finds: an item, nothing at that place, or a fault. -/
def itemAt (target key : Value) : Except Fault (Option Value) :=
  match target with
  | list xs _ => indexed "list indices must be integers or slices, not " xs.length fun i => xs[i]?
  | tuple xs _ => indexed "tuple indices must be integers or slices, not " xs.length fun i => xs[i]?
  | str s _ =>
      let cs := s.toList
      match key.integer? with
      | some i =>
        .ok ((position? cs.length i).bind fun j => (cs[j]?).map fun c => ofStr (String.singleton c))
      | none => .error (.mismatch ("string indices must be integers, not '" ++ key.typeName ++ "'"))
  | bytes bs _ =>
      indexed "byte indices must be integers or slices, not " bs.length fun i =>
        (bs[i]?).map fun b => ofInt b.toNat
  | dict es _ => key.requireHashable.map fun _ => lookup? key es
  | builtin f =>
      if isCollectionType f then .ok (some (generic f (typeArguments key) false .fresh))
      else if isTypeName f then
        .error (.mismatch ("type '" ++ builtinName f ++ "' is not subscriptable"))
      else .error (.mismatch ("'" ++ target.typeName ++ "' object is not subscriptable"))
  | generic .. | union .. => .error (.mismatch (target.shown ++ " is not a generic class"))
  | v => .error (.mismatch ("'" ++ v.typeName ++ "' object is not subscriptable"))
where
  indexed (text : String) (n : Nat) (get : Nat → Option Value) : Except Fault (Option Value) :=
    match key.integer? with
    | some i => .ok ((position? n i).bind get)
    | none => .error (.mismatch (text ++ key.typeName))

def sliceBound : Value → Except Fault (Option Int)
  | null => .ok none
  | v => match v.integer? with
      | some i => .ok (some i)
      | none => .error (.mismatch
          "slice indices must be integers or None or have an __index__ method")

/-- A bound clipped to `low … high`, counting from the end when negative. -/
def clipBound (n low high : Int) (i : Int) : Int :=
  let j := if i < 0 then i + n else i
  if j < low then low else if high < j then high else j

/-- The positions of a slice of `n` items: start, stop and step. -/
def sliceRange (n : Nat) (lower upper : Option Int) (step : Int) : Int × Int :=
  let size : Int := n
  if 0 < step then
    ((lower.map (clipBound size 0 size)).getD 0, (upper.map (clipBound size 0 size)).getD size)
  else
    ((lower.map (clipBound size (-1) (size - 1))).getD (size - 1),
     (upper.map (clipBound size (-1) (size - 1))).getD (-1))

def rangeLength (start stop step : Int) : Nat :=
  if 0 < step then
    if start < stop then ((stop - start - 1) / step + 1).toNat else 0
  else if step < 0 then
    if stop < start then ((start - stop - 1) / (-step) + 1).toNat else 0
  else 0

def sliceItems {α : Type} (xs : List α) (lower upper : Option Int) (step : Int) : List α :=
  let items := xs.toArray
  let (start, stop) := sliceRange items.size lower upper step
  (List.range (rangeLength start stop step)).filterMap fun (k : Nat) =>
    items[(start + step * k).toNat]?

/-- Whether a slice of `n` items in steps of one has all of them. -/
def isWhole (n : Nat) (lower upper : Option Int) (step : Int) : Bool :=
  step = 1 && sliceRange n lower upper step = (0, (n : Int))

/-- A slice of a sequence. The bounds are read from the last to the first. The whole of a sequence
that cannot change is the sequence itself, and a part picked in larger steps or backwards is always
new. -/
def sliceOf (target lower upper step : Value) : Except Fault Value := do
  match target with
  | str s _ =>
      let (l, u, k) ← bounds
      let part := String.ofList (sliceItems s.toList l u k)
      return if isWhole s.length l u k then target else if k = 1 then ofStr part else newStr part
  | bytes bs _ =>
      let (l, u, k) ← bounds
      let part := sliceItems bs l u k
      return if isWhole bs.length l u k then target
        else if k = 1 then ofBytes part else bytes part (.soleIf part.isEmpty)
  | list xs _ =>
      let (l, u, k) ← bounds
      return ofList (sliceItems xs l u k)
  | tuple xs _ =>
      let (l, u, k) ← bounds
      return if isWhole xs.length l u k then target else ofTuple (sliceItems xs l u k)
  | dict .. => throw (.mismatch "unhashable type: 'slice'")
  | builtin f =>
      if isTypeName f then throw (.mismatch ("type '" ++ builtinName f ++ "' is not subscriptable"))
      else throw (.mismatch ("'" ++ target.typeName ++ "' object is not subscriptable"))
  | generic .. | union .. => throw (.mismatch (target.shown ++ " is not a generic class"))
  | v => throw (.mismatch ("'" ++ v.typeName ++ "' object is not subscriptable"))
where
  bounds : Except Fault (Option Int × Option Int × Int) := do
    let k ← sliceBound step
    let k := k.getD 1
    if k = 0 then throw (.invalid "slice step cannot be zero")
    let l ← sliceBound lower
    let u ← sliceBound upper
    return (l, u, k)

end EffectTree.Value
