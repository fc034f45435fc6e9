import EffectTree.Expression.Arguments
import EffectTree.Number.Reading
import EffectTree.Text.Encoding
import EffectTree.Value.Arithmetic
import EffectTree.Value.Sorting

/-!
# Functions of expressions

The functions that expressions may call by name. Iterators are lists here, and a range is
bounded.
-/

namespace EffectTree.Expression

open Value Arguments

/-- The most items of a range or of a comprehension. -/
def maxRange : Nat := 10000

/-- Octets as the text of a number; a text that is not ASCII is no number. -/
def octetsText (bs : List UInt8) : String := String.ofList (bs.map fun b => Char.ofNat b.toNat)

def readInteger (base : Int) (v : Value) (s : String) : Except Fault Value :=
  match Number.readInt? base.toNat s with
  | some i => .ok (ofInt i)
  | none => .error (.notInteger base v.shown)

def wholePart (x : Float) : Except Fault Value :=
  match Number.Binary64.truncate? x with
  | some i => .ok (ofInt i)
  | none =>
      if x.isNaN then .error (.invalid "cannot convert float NaN to integer")
      else .error (.overflow "cannot convert float infinity to integer")

def toInteger (v : Value) : Except Fault Value :=
  match v with
  | .int .. => .ok v
  | .bool b => .ok (ofInt (ofBit b))
  | .float x _ => wholePart x
  | .str s _ => readInteger 10 v s
  | .bytes bs _ => readInteger 10 v (octetsText bs)
  | v => .error (.mismatch
      ("int() argument must be a string, a bytes-like object or a real number, not '" ++
        v.typeName ++ "'"))

def toIntegerIn (v base : Value) : Except Fault Value := do
  let b ← wholeNumber base
  if b ≠ 0 && (b < 2 || 36 < b) then throw (.invalid "int() base must be >= 2 and <= 36, or 0")
  match v with
  | .str s _ => readInteger b v s
  | .bytes bs _ => readInteger b v (octetsText bs)
  | _ => throw (.mismatch "int() can't convert non-string with explicit base")

def applyInt (args : Arguments) : Except Fault Value := do
  match ← args.named { function := "int", names := ["", "base"], positionOnly := 1 } with
  | [some v, some base] => toIntegerIn v base
  | [some v, none] => toInteger v
  | [some v] => toInteger v
  | [none, some _] => throw (.mismatch "int() missing string argument")
  | _ => return ofInt 0

def toDoubleValue (v : Value) : Except Fault Value :=
  match v with
  | .float .. => .ok v
  | .str s _ => read s
  | .bytes bs _ => read (octetsText bs)
  | v => match v.real? with
      | some r => r.toDouble.map ofFloat
      | none => .error (.mismatch
          ("float() argument must be a string or a real number, not '" ++ v.typeName ++ "'"))
where
  read (s : String) : Except Fault Value :=
    match Number.readFloat? s with
    | some x => .ok (ofFloat x)
    | none => .error (.invalid ("could not convert string to float: " ++ v.shown))

def pairsOf : Nat → List Value → List (Value × Value) → Except Fault (List (Value × Value))
  | _, [], acc => .ok acc
  | i, v :: rest, acc => do
      let parts ← match v.items with
        | .ok parts => pure parts
        | .error _ => throw (.mismatch
            ("cannot convert dictionary update sequence element #" ++ toString i ++
              " to a sequence"))
      match parts with
      | [key, value] =>
          key.requireHashable
          pairsOf (i + 1) rest (insertEntry key value acc)
      | _ =>
        throw (.invalid ("dictionary update sequence element #" ++ toString i ++ " has length " ++
          toString parts.length ++ "; 2 is required"))

def applyDict (args : Arguments) : Except Fault Value := do
  let entries ← match args.positional with
    | [] => pure []
    | [.dict es _] => pure es
    | [v] => pairsOf 0 (← v.items) []
    | vs => throw (.mismatch ("dict expected at most 1 argument, got " ++ toString vs.length))
  return ofDict (args.keywords.foldl (fun acc (name, v) => insertEntry (ofName name) v acc) entries)

def rangeItems (start stop step : Int) : Except Fault Value := do
  if step = 0 then throw (.invalid "range() arg 3 must not be zero")
  let n := rangeLength start stop step
  if maxIndex < n then throw (.overflow "Python int too large to convert to C ssize_t")
  if maxRange < n then throw (.expression ("range() limited to " ++ toString maxRange ++ " items"))
  return ofList ((List.range n).map fun (k : Nat) => ofInt (start + step * k))

def applyRange (vs : List Value) : Except Fault Value := do
  match vs with
  | [] => throw (.mismatch "range expected at least 1 argument, got 0")
  | [stop] => rangeItems 0 (← wholeNumber stop) 1
  | [start, stop] =>
      let a ← wholeNumber start
      rangeItems a (← wholeNumber stop) 1
  | [start, stop, step] =>
      let a ← wholeNumber start
      let b ← wholeNumber stop
      rangeItems a b (← wholeNumber step)
  | vs => throw (.mismatch ("range expected at most 3 arguments, got " ++ toString vs.length))

def reversedItems (v : Value) : Except Fault Value :=
  match v with
  | .str .. | .bytes .. | .list .. | .tuple .. | .dict .. => v.items.map fun xs => ofList xs.reverse
  | v => .error (.mismatch ("'" ++ v.typeName ++ "' object is not reversible"))

/-- Rounds an integer to a multiple of a power of ten; a half goes to the even multiple. -/
def roundInteger (i : Int) (places : Int) : Int :=
  if 0 ≤ places then i
  else
    let drop := (-places).toNat
    if (Nat.toDigits 10 i.natAbs).length < drop then 0
    else
      let unit := Number.tenTo drop
      let size : Int := Number.Binary64.roundDiv i.natAbs unit * unit
      if i < 0 then -size else size

/-- The decimal places beyond which a double is its own rounding, and below which it rounds to
zero. -/
def roundingPlaces : Int × Int := (-308, 323)

def roundDouble (x : Float) (places : Int) : Except Fault Value :=
  match Number.Binary64.fraction? x with
  | none => .ok (ofFloat x)
  | some (negative, num, den) =>
      if roundingPlaces.2 < places then .ok (ofFloat x)
      else if places < roundingPlaces.1 then .ok (ofFloat (Number.Binary64.ofFraction negative 0 1))
      else
        let up := Number.tenTo places.toNat
        let down := Number.tenTo (-places).toNat
        let n := Number.Binary64.roundDiv (num * up) (den * down)
        let y := Number.Binary64.ofFraction negative (n * down) up
        if Number.Binary64.isFinite y then .ok (ofFloat y)
        else .error (.overflow "rounded value too large to represent")

def roundWhole (x : Float) : Except Fault Value :=
  match Number.Binary64.nearestInt? x with
  | some i => .ok (ofInt i)
  | none => wholePart x

/-- Rounds a number; an integer to which no rounding applies is itself. -/
def round (v : Value) (places : Option Value) : Except Fault Value := do
  match v, places.getD .null with
  | .float x _, .null => roundWhole x
  | .float x _, p => roundDouble x (← wholeNumber p)
  | .int i m, .null => return .int i m
  | .int i m, p =>
      let places ← wholeNumber p
      return if 0 ≤ places then .int i m else ofInt (roundInteger i places)
  | v, p =>
      match v.integer?, p with
      | some i, .null => return ofInt i
      | some i, p => return ofInt (roundInteger i (← wholeNumber p))
      | none, _ => throw (.mismatch ("type " ++ v.typeName ++ " doesn't define __round__ method"))

def applyRound (args : Arguments) : Except Fault Value := do
  match ← args.named { function := "round", names := ["number", "ndigits"], required := 1 } with
  | some v :: rest => round v (rest.head?.join)
  | _ => return .null

def decodeOctets (bs : List UInt8) (encoding handling : String) : Except Fault Value :=
  match Text.decodeNamed encoding handling bs with
  | .ok s => .ok (ofStr s)
  | .error problem =>
      let text := problem.message
      .error (match problem with
        | .unknownEncoding _ | .unknownHandling _ => .unknownName text
        | .unsuitedHandling => .mismatch text
        | .illFormed .. => .undecodable text)

def textArgument (name : String) (v : Option Value) (default : String) : Except Fault String :=
  match v with
  | none => .ok default
  | some (.str s _) => .ok s
  | some .null => .error (.mismatch ("str() argument '" ++ name ++ "' must be str, not None"))
  | some w => .error (.mismatch ("str() argument '" ++ name ++ "' must be str, not " ++ w.typeName))

def applyStr (args : Arguments) : Except Fault Value := do
  let values ← args.named { function := "str", names := ["object", "encoding", "errors"] }
  let object := values[0]?.join
  let encoding := values[1]?.join
  let errors := values[2]?.join
  if encoding.isNone && errors.isNone then return (object.map Value.text).getD (ofStr "")
  let encoding ← textArgument "encoding" encoding "utf-8"
  let errors ← textArgument "errors" errors "strict"
  match object.getD (ofBytes []) with
  | .bytes bs _ => decodeOctets bs encoding errors
  | .str .. => throw (.mismatch "decoding str is not supported")
  | w => throw (.mismatch ("decoding to str: need a bytes-like object, " ++ w.typeName ++ " found"))

/-- The start of a sum: a number of ordinary size is taken anew, anything else as it is. -/
def sumStart : Value → Value
  | .int i m => if -maxIndex - 1 ≤ i && i ≤ maxIndex then ofInt i else .int i m
  | .float x _ => ofFloat x
  | v => v

/-- The sum of items, added to a start value that is not a text. -/
def sumItems (xs : List Value) (start : Value) : Except Fault Value :=
  match start with
  | .str .. => .error (.mismatch "sum() can't sum strings [use ''.join(seq) instead]")
  | .bytes .. => .error (.mismatch "sum() can't sum bytes [use b''.join(seq) instead]")
  | start => xs.foldlM Value.add (sumStart start)

def applySum (args : Arguments) : Except Fault Value := do
  match ← args.named
      { function := "sum", names := ["", "start"], positionOnly := 1, required := 1 } with
  | some v :: rest => sumItems (← v.items) ((rest.head?.join).getD (ofInt 0))
  | _ => return .null

/-- Tuples of items at one place, as long as all sequences have one; the fuel is the length of the
first. -/
def zipItems : Nat → List (List Value) → List Value
  | 0, _ => []
  | fuel + 1, seqs =>
      let heads := seqs.filterMap List.head?
      if heads.length = seqs.length then ofTuple heads :: zipItems fuel (seqs.map List.tail) else []

def enumerateItems (xs : List Value) (start : Int) : Value :=
  ofList (xs.zipIdx.map fun (x, i) => ofTuple [ofInt (start + i), x])

def sortSignature : Signature := { function := "sort", names := ["key", "reverse"] }

def extremeSignature (name : String) : Signature :=
  { function := name, names := ["key", "default"] }

abbrev KeyFunction := Value → Except Fault Value

/-- Sorts by keys; in reverse, equal items still keep their order. -/
def sortItems (xs : List Value) (key : KeyFunction) (reverse : Bool) : Except Fault Value := do
  let keyed ← xs.mapM fun x => do return (← key x, x)
  if reverse then
    let sorted ← sortKeyed keyed.reverse
    return ofList (sorted.reverse.map (·.2))
  else
    let sorted ← sortKeyed keyed
    return ofList (sorted.map (·.2))

/-- The first of the items whose key no other exceeds in the given direction. -/
def extremeItem (direction : Relation) (key : KeyFunction) :
    List Value → Except Fault (Option Value)
  | [] => .ok none
  | x :: xs => do
      let k ← key x
      let best ← xs.foldlM (fun best y => do
        let k ← key y
        if ← related direction k best.1 then return (k, y) else return best) (k, x)
      return some best.2

/-- The function that a key argument stands for; null keeps items as they are. -/
def keyFunction (call : Builtin → List Value → Except Fault Value) : Option Value → KeyFunction
  | none => .ok
  | some .null => .ok
  | some (.builtin f) => fun v => call f [v]
  | some w => fun _ => .error (.mismatch ("'" ++ w.typeName ++ "' object is not callable"))

def applySorted (call : Builtin → List Value → Except Fault Value) (args : Arguments) :
    Except Fault Value := do
  match args.positional with
  | [v] =>
      let xs ← v.items
      let values ← Arguments.named ⟨[], args.keywords⟩ sortSignature
      let reverse ← match values[1]?.join with
        | none => pure false
        | some w => flagNumber w
      sortItems xs (keyFunction call (values[0]?.join)) reverse
  | vs => throw (.mismatch ("sorted expected 1 argument, got " ++ toString vs.length))

def applyExtreme (name : String) (direction : Relation)
    (call : Builtin → List Value → Except Fault Value) (args : Arguments) : Except Fault Value := do
  if args.positional.isEmpty then
    throw (.mismatch (name ++ " expected at least 1 argument, got 0"))
  let values ← Arguments.named ⟨[], args.keywords⟩ (extremeSignature name)
  let fallback := values[1]?.join
  let xs ← match args.positional with
    | [v] => v.items
    | vs =>
        if fallback.isSome then
          throw (.mismatch ("Cannot specify a default for " ++ name ++
            "() with multiple positional arguments"))
        else pure vs
  match ← extremeItem direction (keyFunction call (values[0]?.join)) xs with
  | some v => return v
  | none => match fallback with
      | some v => return v
      | none => throw (.invalid (name ++ "() arg is an empty sequence"))

/-- The tuple of the items of a value; a tuple is itself. -/
def toTuple (v : Value) : Except Fault Value :=
  match v with
  | .tuple .. => .ok v
  | v => v.items.map ofTuple

def atMostOne (args : Arguments) (name : String) (empty : Value) (f : Value → Except Fault Value) :
    Except Fault Value := do
  match ← args.between "" name 0 1 with
  | [v] => f v
  | _ => return empty

/-- What a function does with its arguments; `call` applies a function given as a key. -/
def applyWith (call : Builtin → List Value → Except Fault Value) (f : Builtin) (args : Arguments) :
    Except Fault Value := do
  match f with
  | .abs => (← args.one "abs").absolute
  | .all => return .bool ((← (← args.one "all").items).all truthy)
  | .any => return .bool ((← (← args.one "any").items).any truthy)
  | .bool => atMostOne args "bool" (.bool false) fun v => .ok (.bool v.truthy)
  | .dict => applyDict args
  | .enumerate =>
      match ← args.defined ⟨"<lambda>", ["iterable", "start"], 1, false⟩ with
      | some v :: rest =>
          let start ← wholeNumber ((rest.head?.join).getD (ofInt 0))
          return enumerateItems (← v.items) start
      | _ => return ofList []
  | .float => atMostOne args "float" (ofFloat 0) toDoubleValue
  | .int => applyInt args
  | .len =>
      let v ← args.one "len"
      match v.size? with
      | some n => return ofInt n
      | none => throw (.mismatch ("object of type '" ++ v.typeName ++ "' has no len()"))
  | .list => atMostOne args "list" (ofList []) fun v => v.items.map ofList
  | .max => applyExtreme "max" .greater call args
  | .min => applyExtreme "min" .less call args
  | .range =>
      discard (args.defined ⟨"_bounded_range", [], 0, true⟩)
      applyRange args.positional
  | .reversed =>
      match ← args.defined ⟨"<lambda>", ["seq"], 0, false⟩ with
      | some v :: _ => reversedItems v
      | _ => return ofList []
  | .round => applyRound args
  | .sorted => applySorted call args
  | .str => applyStr args
  | .sum => applySum args
  | .tuple => atMostOne args "tuple" (ofTuple []) toTuple
  | .zip =>
      discard (args.defined ⟨"<lambda>", [], 0, true⟩)
      let seqs ← args.positional.mapM Value.items
      return ofList (zipItems ((seqs.head?.map List.length).getD 0) seqs)

def applyKey (f : Builtin) (vs : List Value) : Except Fault Value :=
  applyWith (fun _ _ => .ok .null) f ⟨vs, []⟩

def applyBuiltin (f : Builtin) (args : Arguments) : Except Fault Value := applyWith applyKey f args

def builtinOf? (name : String) : Option Builtin :=
  [Builtin.abs, .all, .any, .bool, .dict, .enumerate, .float, .int, .len, .list, .max, .min, .range,
   .reversed, .round, .sorted, .str, .sum, .tuple, .zip].find? fun f => builtinName f = name

end EffectTree.Expression
