import EffectTree.Number.Binary64
import EffectTree.Value.Mark
import EffectTree.Value.Seating

/-!
# Values

The dynamic values that programs compute with: scalars, texts, octets, sequences, sets and
dictionaries, and the few functions and handles that expressions can name. Numbers of different
types compare by their mathematical value, so `1`, `1.0` and `true` are one key.
-/

namespace EffectTree

inductive Builtin where
  | abs | all | any | bool | dict | enumerate | float | int | len | list | max | min
  | range | reversed | round | sorted | str | sum | tuple | zip
  deriving DecidableEq, Repr

/-- A value. All but those of which there is one only carry a mark that tells which thing it is. -/
inductive Value where
  | null
  | bool (b : Bool)
  | int (i : Int) (mark : Mark)
  | float (x : Float) (mark : Mark)
  | complex (re im : Float) (mark : Mark)
  | str (s : String) (mark : Mark)
  | bytes (octets : List UInt8) (mark : Mark)
  | list (items : List Value) (mark : Mark)
  | tuple (items : List Value) (mark : Mark)
  | set (items : List Value) (seating : Option Seating) (mark : Mark)
  | dict (entries : List (Value × Value)) (mark : Mark)
  | ellipsis
  | builtin (f : Builtin)
  /-- A type of collections with arguments, also spread out as the only item of itself. -/
  | generic (origin : Builtin) (args : List Value) (isSpread : Bool) (mark : Mark)
  /-- One of several types. -/
  | union (members : List Value) (mark : Mark)
  /-- What a program runs in, of which only the text can be seen. -/
  | context (text : String)
  deriving Inhabited

namespace Value

/-! Small integers, short texts and octets and the empty tuple are always the same thing; others are
made anew. -/

def ofInt (i : Int) : Value := int i (.soleIf (-5 ≤ i && i ≤ 256))

abbrev ofFloat (x : Float) : Value := float x .fresh

abbrev ofComplex (re im : Float) : Value := complex re im .fresh

def isShort (s : String) : Bool :=
  s.utf8ByteSize ≤ 2 && match s.toList with
    | [] => true
    | [c] => c.toNat < 256
    | _ => false

def ofStr (s : String) : Value := str s (.soleIf (isShort s))

abbrev ofName (s : String) : Value := str s .name

def ofKey (s : String) : Value := str s (if isShort s then .sole else .key)

/-- A text that is new even if it is a single character. -/
def newStr (s : String) : Value := str s (.soleIf s.isEmpty)

def ofBytes (octets : List UInt8) : Value := bytes octets (.soleIf (octets.length ≤ 1))

abbrev ofList (items : List Value) : Value := list items .fresh

def ofTuple (items : List Value) : Value := tuple items (.soleIf items.isEmpty)

abbrev ofDict (entries : List (Value × Value)) : Value := dict entries .fresh

def isTypeName : Builtin → Bool
  | .bool | .dict | .float | .int | .list | .str | .tuple => true
  | _ => false

/-- Functions the language defines itself, as opposed to the built-in ones. -/
def isDefined : Builtin → Bool
  | .enumerate | .range | .reversed | .zip => true
  | _ => false

def typeName : Value → String
  | null => "NoneType"
  | bool _ => "bool"
  | int .. => "int"
  | float .. => "float"
  | complex .. => "complex"
  | str .. => "str"
  | bytes .. => "bytes"
  | list .. => "list"
  | tuple .. => "tuple"
  | set .. => "set"
  | dict .. => "dict"
  | ellipsis => "ellipsis"
  | builtin f =>
      if isTypeName f then "type"
        else if isDefined f then "function" else "builtin_function_or_method"
  | generic .. => "types.GenericAlias"
  | union .. => "types.UnionType"
  | context _ => "EvaluationContext"

def className : Value → String
  | generic .. => "GenericAlias"
  | union .. => "UnionType"
  | v => v.typeName

/-- Truth in conditions: empty and zero values are false. -/
def truthy : Value → Bool
  | null => false
  | bool b => b
  | int i _ => i ≠ 0
  | float x _ => x != 0
  | complex re im _ => re != 0 || im != 0
  | str s _ => !s.isEmpty
  | bytes bs _ => !bs.isEmpty
  | list xs _ => !xs.isEmpty
  | tuple xs _ => !xs.isEmpty
  | set xs _ _ => !xs.isEmpty
  | dict es _ => !es.isEmpty
  | ellipsis => true
  | builtin _ => true
  | generic .. => true
  | union .. => true
  | context _ => true

/-- A real number: an integer, with the truth values as 0 and 1, or a double. -/
inductive Real where
  | int (i : Int)
  | float (x : Float)

def ofBit (b : Bool) : Int := if b then 1 else 0

def real? : Value → Option Real
  | bool b => some (.int (ofBit b))
  | int i _ => some (.int i)
  | float x _ => some (.float x)
  | _ => none

def integer? : Value → Option Int
  | bool b => some (ofBit b)
  | int i _ => some i
  | _ => none

/-- Compares by mathematical value; NaN compares with nothing. -/
def Real.compare : Real → Real → Option Ordering
  | .int a, .int b => some (Ord.compare a b)
  | .int a, .float y => (Number.Binary64.compareInt y a).map Ordering.swap
  | .float x, .int b => Number.Binary64.compareInt x b
  | .float x, .float y =>
      if x < y then some .lt else if y < x then some .gt else if x == y then some .eq else none

def Real.eqv (a b : Real) : Bool := a.compare b = some .eq

def parts? : Value → Option (Real × Real)
  | complex re im _ => some (.float re, .float im)
  | v => v.real?.map fun r => (r, .int 0)

def numbersEqv (a b : Value) : Bool :=
  match a.parts?, b.parts? with
  | some (r, i), some (s, j) => r.eqv s && i.eqv j
  | _, _ => false

/-- Whether two values are one and the same number that equals nothing, not even itself. -/
def sameUndefined : Value → Value → Bool
  | float x m, w => match w with
      | float y n => x.isNaN && y.isNaN && m.same n
      | _ => false
  | complex _ _ m, w => match w with
      | complex _ _ n => m.same n
      | _ => false
  | _, _ => false

mutual

/-- Equality of values: numbers by value, sequences of one type item by item, sets and dictionaries
without regard to order. Parts also agree if they are one and the same not-a-number. -/
def eqv : Value → Value → Bool
  | null, v => match v with | null => true | _ => false
  | str a _, v => match v with | str b _ => a = b | _ => false
  | bytes a _, v => match v with | bytes b _ => a = b | _ => false
  | list xs _, v => match v with | list ys _ => agreeItems xs ys | _ => false
  | tuple xs _, v => match v with | tuple ys _ => agreeItems xs ys | _ => false
  | set xs _ _, v => match v with
      | set ys _ _ => xs.length = ys.length && agreeMembers xs ys
      | _ => false
  | dict xs _, v => match v with
      | dict ys _ => xs.length = ys.length && agreeEntries xs ys
      | _ => false
  | ellipsis, v => match v with | ellipsis => true | _ => false
  | builtin f, v => match v with | builtin g => f = g | _ => false
  | generic f xs s _, v => match v with
      | generic g ys t _ => f = g && s = t && agreeItems xs ys
      | _ => false
  | union xs _, v => match v with
      | union ys _ => xs.length = ys.length && agreeMembers xs ys
      | _ => false
  | context _, v => match v with | context _ => true | _ => false
  | v, w => numbersEqv v w

def agreeItems : List Value → List Value → Bool
  | [], ys => ys.isEmpty
  | x :: xs, ys => match ys with
      | [] => false
      | y :: rest => (eqv x y || sameUndefined x y) && agreeItems xs rest

def agreeMembers : List Value → List Value → Bool
  | [], _ => true
  | x :: xs, ys => ys.any (fun y => eqv x y || sameUndefined x y) && agreeMembers xs ys

def agreeEntries : List (Value × Value) → List (Value × Value) → Bool
  | [], _ => true
  | (k, v) :: rest, ys =>
      ys.any (fun entry =>
        (eqv k entry.1 || sameUndefined k entry.1) && (eqv v entry.2 || sameUndefined v entry.2)) &&
        agreeEntries rest ys

end

/-- Whether two values count as equal inside of other values: as members, items, keys. -/
def agrees (a b : Value) : Bool := eqv a b || sameUndefined a b

def identical : Value → Value → Bool
  | null, v => match v with | null => true | _ => false
  | bool a, v => match v with | bool b => a = b | _ => false
  | int a m, v => match v with | int b n => m.same n && a = b | _ => false
  | float a m, v => match v with | float b n => m.same n && a.toBits = b.toBits | _ => false
  | complex _ _ m, v => match v with | complex _ _ n => m.same n | _ => false
  | str a m, v => match v with | str b n => m.same n && a = b | _ => false
  | bytes a m, v => match v with | bytes b n => m.same n && a = b | _ => false
  | list _ m, v => match v with | list _ n => m.same n | _ => false
  | tuple _ m, v => match v with | tuple _ n => m.same n | _ => false
  | set _ _ m, v => match v with | set _ _ n => m.same n | _ => false
  | dict _ m, v => match v with | dict _ n => m.same n | _ => false
  | generic _ _ _ m, v => match v with | generic _ _ _ n => m.same n | _ => false
  | union _ m, v => match v with | union _ n => m.same n | _ => false
  | ellipsis, v => match v with | ellipsis => true | _ => false
  | builtin f, v => match v with | builtin g => f = g | _ => false
  | context _, v => match v with | context _ => true | _ => false

mutual

/-- The part of a value that keeps it from being a key, if there is one: a list, a set, a dictionary
or the context, also inside a tuple. -/
def unhashable? : Value → Option Value
  | list xs m => some (list xs m)
  | set xs s m => some (set xs s m)
  | dict es m => some (dict es m)
  | tuple xs _ => unhashableItem? xs
  | generic _ xs _ _ => unhashableItem? xs
  | union xs _ => unhashableItem? xs
  | context text => some (context text)
  | _ => none

def unhashableItem? : List Value → Option Value
  | [] => none
  | x :: xs => match unhashable? x with
      | some v => some v
      | none => unhashableItem? xs

end

def lookup? (key : Value) (entries : List (Value × Value)) : Option Value :=
  (entries.find? fun entry => agrees entry.1 key).map (·.2)

/-- Stores under a key: an equal key keeps its place and spelling, a new one goes to the end. -/
def insertEntry (key value : Value) : List (Value × Value) → List (Value × Value)
  | [] => [(key, value)]
  | (k, v) :: rest =>
    if agrees k key then (k, value) :: rest else (k, v) :: insertEntry key value rest

/-- Adds a member unless an equal one is there. -/
def insertMember (x : Value) (items : List Value) : List Value :=
  if items.any (agrees · x) then items else items ++ [x]

def isStr : Value → Bool
  | str .. => true
  | _ => false

end Value

end EffectTree
