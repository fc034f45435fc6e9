import EffectTree.Number.Hypotenuse
import EffectTree.Value.Members
import EffectTree.Value.Sequence

/-!
# Arithmetic on values

Integers of any size, doubles and complex numbers, with integers widening as needed; sequences join
and repeat; sets and dictionaries combine. Division and remainder round toward the floor.
-/

namespace EffectTree.Value

open Number

def toDouble (i : Int) : Except Fault Float :=
  let x := Binary64.ofInt i
  if Binary64.isFinite x then .ok x else .error (.overflow "int too large to convert to float")

def Real.toDouble : Real → Except Fault Float
  | .int i => Value.toDouble i
  | .float x => .ok x

inductive NumberPair where
  | ints (a b : Int)
  | floats (x y : Float)
  | complexes (re im re' im' : Float)

/-- The common type of two values, if both are numbers; `none` if one is not. -/
def numberPair? (a b : Value) : Except Fault (Option NumberPair) :=
  match a, b with
  | complex re im _, complex re' im' _ => .ok (some (.complexes re im re' im'))
  | complex re im _, w => match w.real? with
      | some r => r.toDouble.map fun y => some (.complexes re im y 0)
      | none => .ok none
  | v, complex re im _ => match v.real? with
      | some r => r.toDouble.map fun x => some (.complexes x 0 re im)
      | none => .ok none
  | v, w => match v.real?, w.real? with
      | some (.int i), some (.int j) => .ok (some (.ints i j))
      | some r, some s => do
          let x ← r.toDouble
          let y ← s.toDouble
          return some (.floats x y)
      | _, _ => .ok none

/-- Copies of a sequence one after another; a negative count gives none. -/
def repeated {α : Type} (xs : List α) (count : Int) : List α :=
  (List.replicate count.toNat xs).flatten

def maxIndex : Int := 9223372036854775807

/-- A sequence repeated a whole number of times. One time, a sequence that cannot change is
itself. -/
def repeatSequence? (seq : Value) (count : Int) : Option (Except Fault Value) :=
  let tooLarge : Except Fault Value :=
    .error (.overflow "cannot fit 'int' into an index-sized integer")
  let fits := decide (count ≤ maxIndex) && decide (-maxIndex - 1 ≤ count)
  let once (copies : Value) : Except Fault Value := .ok (if count = 1 then seq else copies)
  match seq with
  | str s _ =>
    some (if fits then once (ofStr (String.ofList (repeated s.toList count))) else tooLarge)
  | bytes bs _ => some (if fits then once (ofBytes (repeated bs count)) else tooLarge)
  | list xs _ => some (if fits then .ok (ofList (repeated xs count)) else tooLarge)
  | tuple xs _ => some (if fits then once (ofTuple (repeated xs count)) else tooLarge)
  | _ => none

def isSequence : Value → Bool
  | str .. | bytes .. | list .. | tuple .. => true
  | _ => false

/-- The sum of numbers, or two sequences joined; joined to nothing, a sequence that cannot change is
itself. -/
def add (a b : Value) : Except Fault Value := do
  match ← numberPair? a b with
  | some (.ints i j) => return ofInt (i + j)
  | some (.floats x y) => return ofFloat (x + y)
  | some (.complexes x y x' y') => return ofComplex (x + x') (y + y')
  | none =>
      match a, b with
      | str s _, str t _ => return if s.isEmpty then b else if t.isEmpty then a else ofStr (s ++ t)
      | list xs _, list ys _ => return ofList (xs ++ ys)
      | tuple xs _, tuple ys _ =>
          return if xs.isEmpty then b else if ys.isEmpty then a else ofTuple (xs ++ ys)
      | bytes xs _, bytes ys _ =>
          return if xs.isEmpty then b else if ys.isEmpty then a else ofBytes (xs ++ ys)
      | str .., w =>
        throw (.mismatch ("can only concatenate str (not \"" ++ w.typeName ++ "\") to str"))
      | list .., w =>
        throw (.mismatch ("can only concatenate list (not \"" ++ w.typeName ++ "\") to list"))
      | tuple .., w =>
        throw (.mismatch ("can only concatenate tuple (not \"" ++ w.typeName ++ "\") to tuple"))
      | bytes .., w => throw (.mismatch ("can't concat " ++ w.typeName ++ " to bytes"))
      | v, w => throw (.operands "+" v w)

def sub (a b : Value) : Except Fault Value := do
  match ← numberPair? a b with
  | some (.ints i j) => return ofInt (i - j)
  | some (.floats x y) => return ofFloat (x - y)
  | some (.complexes x y x' y') => return ofComplex (x - x') (y - y')
  | none =>
      match a, b with
      | set xs s _, set ys t _ => return ofMembers ((membersOf xs s).diff (membersOf ys t))
      | v, w => throw (.operands "-" v w)

def complexMul (x y x' y' : Float) : Value := ofComplex (x * x' - y * y') (x * y' + y * x')

def mul (a b : Value) : Except Fault Value := do
  match ← numberPair? a b with
  | some (.ints i j) => return ofInt (i * j)
  | some (.floats x y) => return ofFloat (x * y)
  | some (.complexes x y x' y') => return complexMul x y x' y'
  | none =>
      if isSequence a then
        match b.integer? with
        | some n => (repeatSequence? a n).getD (.error (.operands "*" a b))
        | none =>
          throw (.mismatch ("can't multiply sequence by non-int of type '" ++ b.typeName ++ "'"))
      else if isSequence b then
        match a.integer? with
        | some n => (repeatSequence? b n).getD (.error (.operands "*" a b))
        | none =>
          throw (.mismatch ("can't multiply sequence by non-int of type '" ++ a.typeName ++ "'"))
      else throw (.operands "*" a b)

def divideInts (i j : Int) : Except Fault Value :=
  if j = 0 then .error (.divisionByZero "division by zero")
  else
    let x := Binary64.ofFraction ((i < 0) != (j < 0)) i.natAbs j.natAbs
    if Binary64.isFinite x then .ok (ofFloat x)
    else .error (.overflow "integer division result too large for a float")

/-- Complex division that scales by the larger part of the divisor. -/
def complexDiv (x y x' y' : Float) : Except Fault Value :=
  if x' == 0 && y' == 0 then .error (.divisionByZero "complex division by zero")
  else if y'.abs ≤ x'.abs then
    let ratio := y' / x'
    let denominator := x' + y' * ratio
    .ok (ofComplex ((x + y * ratio) / denominator) ((y - x * ratio) / denominator))
  else
    let ratio := x' / y'
    let denominator := x' * ratio + y'
    .ok (ofComplex ((x * ratio + y) / denominator) ((y * ratio - x) / denominator))

def divide (a b : Value) : Except Fault Value := do
  match ← numberPair? a b with
  | some (.ints i j) => divideInts i j
  | some (.floats x y) =>
      if y == 0 then throw (.divisionByZero "float division by zero") else return ofFloat (x / y)
  | some (.complexes x y x' y') => complexDiv x y x' y'
  | none => throw (.operands "/" a b)

def withSign (negative : Bool) (x : Float) : Float :=
  if negative then -x.abs else x.abs

def floatMod (x y : Float) : Float :=
  let r := Binary64.remainder x y
  if r == 0 then withSign (Binary64.isNegative y) 0
  else if (y < 0) != (r < 0) then r + y
  else r

/-- The floor of a quotient, corrected by the exact remainder. -/
def floatFloorDiv (x y : Float) : Float :=
  let r := Binary64.remainder x y
  let quotient := (x - r) / y
  let quotient := if r != 0 && ((y < 0) != (r < 0)) then quotient - 1 else quotient
  if quotient == 0 then withSign (Binary64.isNegative (x / y)) 0
  else
    let whole := quotient.floor
    if 0.5 < quotient - whole then whole + 1 else whole

def floorDiv (a b : Value) : Except Fault Value := do
  match ← numberPair? a b with
  | some (.ints i j) =>
      if j = 0 then throw (.divisionByZero "integer division or modulo by zero")
      else return ofInt (i.fdiv j)
  | some (.floats x y) =>
      if y == 0 then throw (.divisionByZero "float floor division by zero")
      else return ofFloat (floatFloorDiv x y)
  | _ => throw (.operands "//" a b)

/-- The number of digits of a natural number in base 2³⁰, and the first of them. -/
def largeDigits (n : Nat) : Nat × Nat :=
  if n = 0 then (0, 0) else (n.log2 / 30 + 1, n / Number.twoTo (n.log2 / 30 * 30))

/-- Whether a dividend is its own remainder on sight: its large digits are fewer than those of the
divisor, or as many with a smaller first one, and not both numbers have a single one. -/
def keepsDividend (i j : Int) : Bool :=
  let (size, first) := largeDigits i.natAbs
  let (size', first') := largeDigits j.natAbs
  (size < size' || (size = size' && first < first' && 1 < size)) && (0 ≤ i) = (0 ≤ j)

def modNumbers (a b : Value) : Except Fault Value := do
  match ← numberPair? a b with
  | some (.ints i j) =>
      if j = 0 then throw (.divisionByZero "integer modulo by zero")
      else match a with
        | int i m => return if keepsDividend i j then int i m else ofInt (i.fmod j)
        | _ => return ofInt (i.fmod j)
  | some (.floats x y) =>
      if y == 0 then throw (.divisionByZero "float modulo") else return ofFloat (floatMod x y)
  | _ => throw (.operands "%" a b)

/-- Natural powers of a complex number by squaring; the fuel is the number of bits. -/
def complexPowNat : Nat → Nat → Float × Float → Float × Float → Float × Float
  | 0, _, _, acc => acc
  | fuel + 1, n, (x, y), (re, im) =>
      let acc := if n % 2 = 1 then (re * x - im * y, re * y + im * x) else (re, im)
      if n / 2 = 0 then acc else complexPowNat fuel (n / 2) (x * x - y * y, x * y + y * x) acc

def complexResult (re im : Float) : Except Fault Value :=
  if re.isInf || im.isInf then .error (.overflow "complex exponentiation")
    else .ok (ofComplex re im)

def undefinedPower : Fault := .divisionByZero "0.0 to a negative or complex power"

/-- Whole exponents up to one hundred by multiplication. -/
def complexPowInt (x y : Float) (n : Int) : Except Fault Value :=
  let (re, im) := complexPowNat 64 n.natAbs (x, y) (1, 0)
  if 0 < n then complexResult re im
  else match complexDiv 1 0 re im with
    | .ok (complex re im _) => complexResult re im
    | _ => .error undefinedPower

/-- Other exponents by length and angle; an angle without bound has no direction. -/
def complexPowPolar (x y x' y' : Float) : Except Fault Value :=
  let size := hypotenuse x y
  let angle := Float.atan2 y x
  let length := size.pow x'
  let (length, phase) :=
    if y' == 0 then (length, angle * x')
    else (length / (angle * y').exp, angle * x' + y' * size.log)
  if phase.isInf then .error undefinedPower
  else complexResult (length * phase.cos) (length * phase.sin)

def complexPow (x y x' y' : Float) : Except Fault Value :=
  if x' == 0 && y' == 0 then .ok (ofComplex 1 0)
  else if y' == 0 && Binary64.isInteger x' && x'.abs ≤ 100 then
    complexPowInt x y ((Binary64.truncate? x').getD 0)
  else if x == 0 && y == 0 then
    if y' != 0 || x' < 0 then .error undefinedPower else .ok (ofComplex 0 0)
  else complexPowPolar x y x' y'

/-- Powers of doubles; a negative base with a fractional exponent leaves the real numbers. -/
def floatPow (x y : Float) : Except Fault Value :=
  if x == 0 && y < 0 then .error (.divisionByZero "0.0 cannot be raised to a negative power")
  else if x < 0 && Binary64.isFinite x && Binary64.isFinite y && !Binary64.isInteger y then
    complexPow x 0 y 0
  else
    let z := x.pow y
    if !Binary64.isFinite z && !z.isNaN && Binary64.isFinite x && Binary64.isFinite y then
      .error (.overflow "(34, 'Numerical result out of range')")
    else .ok (ofFloat z)

def power (a b : Value) : Except Fault Value := do
  match ← numberPair? a b with
  | some (.ints i j) =>
      if 0 ≤ j then return ofInt (Int.pow i j.toNat)
      else
        let x ← toDouble i
        let y ← toDouble j
        floatPow x y
  | some (.floats x y) => floatPow x y
  | some (.complexes x y x' y') => complexPow x y x' y'
  | none => throw (.operands "** or pow()" a b)

inductive BitOp where
  | and | or | xor
  deriving DecidableEq, Repr

namespace BitOp

def symbol : BitOp → String
  | and => "&"
  | or => "|"
  | xor => "^"

def onBool : BitOp → Bool → Bool → Bool
  | and, a, b => a && b
  | or, a, b => a || b
  | xor, a, b => a != b

/-- Bitwise on integers of any size in two's complement: a negative number is the complement of the
natural number one below its size. -/
def onInt (op : BitOp) (i j : Int) : Int :=
  let low (k : Int) : Nat := if k < 0 then (-k - 1).toNat else k.toNat
  let a := low i
  let b := low j
  let width := max a.log2 b.log2 + 1
  let bits := Number.twoTo width
  let a := if i < 0 then bits - 1 - a else a
  let b := if j < 0 then bits - 1 - b else b
  let r := match op with
    | and => a &&& b
    | or => a ||| b
    | xor => a ^^^ b
  if op.onBool (i < 0) (j < 0) then (r : Int) - bits else r

/-- The members of two sets combined. A set combined with itself is copied, unless that leaves
nothing. -/
def onMembers : BitOp → Bool → Members → Members → Members
  | and, isSame, a, b => if isSame then a.copy else a.inter b
  | or, isSame, a, b => if isSame then a.copy else a.union b
  | xor, _, a, b => a.symmDiff b

end BitOp

/-- The types that a value stands for where one of several types is asked for. -/
def unionMembers? : Value → Option (List Value)
  | null => some [null]
  | builtin f => if isTypeName f then some [builtin f] else none
  | generic f xs s m => some [generic f xs s m]
  | union xs _ => some xs
  | _ => none

/-- One of the types on both sides, each of them once; a single one is itself. -/
def unionOf? (a b : Value) : Option Value :=
  match a, b with
  | null, null => none
  | a, b => do
      let xs ← unionMembers? a
      let ys ← unionMembers? b
      match ys.foldl (fun acc y => insertMember y acc) xs with
      | [x] => return x
      | members => return union members .fresh

def bitwise (op : BitOp) (a b : Value) : Except Fault Value :=
  match a, b with
  | bool p, bool q => .ok (.bool (op.onBool p q))
  | set xs s _, set ys t _ =>
      .ok (ofMembers (op.onMembers (identical a b) (membersOf xs s) (membersOf ys t)))
  | dict xs _, dict ys _ =>
      if op = .or then
        .ok (.ofDict (ys.foldl (fun acc entry => insertEntry entry.1 entry.2 acc) xs))
      else .error (.operands op.symbol a b)
  | v, w => match v.integer?, w.integer? with
      | some i, some j => .ok (ofInt (op.onInt i j))
      | _, _ => match if op = .or then unionOf? v w else none with
          | some types => .ok types
          | none => .error (.operands op.symbol v w)

def negate : Value → Except Fault Value
  | float x _ => .ok (ofFloat (-x))
  | complex re im _ => .ok (ofComplex (-re) (-im))
  | v => match v.integer? with
      | some i => .ok (ofInt (-i))
      | none => .error (.mismatch ("bad operand type for unary -: '" ++ v.typeName ++ "'"))

/-- A number is itself; a truth value becomes one. -/
def plus : Value → Except Fault Value
  | int i m => .ok (int i m)
  | float x m => .ok (float x m)
  | complex re im m => .ok (complex re im m)
  | bool b => .ok (ofInt (ofBit b))
  | v => .error (.mismatch ("bad operand type for unary +: '" ++ v.typeName ++ "'"))

def invert (v : Value) : Except Fault Value :=
  match v.integer? with
  | some i => .ok (ofInt (-i - 1))
  | none => .error (.mismatch ("bad operand type for unary ~: '" ++ v.typeName ++ "'"))

/-- The distance from zero; an integer that is not negative is its own. -/
def absolute : Value → Except Fault Value
  | int i m => .ok (if 0 ≤ i then int i m else ofInt (-i))
  | float x _ => .ok (ofFloat x.abs)
  | complex re im _ =>
      let size := hypotenuse re im
      if size.isInf && !re.isInf && !im.isInf then .error (.overflow "absolute value too large")
      else .ok (ofFloat size)
  | bool b => .ok (ofInt (ofBit b))
  | v => .error (.mismatch ("bad operand type for abs(): '" ++ v.typeName ++ "'"))

end EffectTree.Value
