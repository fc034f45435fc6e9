import EffectTree.Number.Power

/-!
# Double-precision numbers as exact fractions

A finite double is a sign, a natural mantissa and a power of two. Conversion back rounds an exact
fraction to the nearest double, ties to the even mantissa.
-/

namespace EffectTree.Number

/-- What a double stands for: not a number, an infinity, or `± mantissa · 2 ^ exponent`. -/
inductive Binary64 where
  | nan
  | infinite (negative : Bool)
  | finite (negative : Bool) (mantissa : Nat) (exponent : Int)
  deriving DecidableEq, Repr

namespace Binary64

def ofFloat (x : Float) : Binary64 :=
  let bits := x.toBits.toNat
  let negative := decide (twoTo 63 ≤ bits)
  let biased : Nat := bits / twoTo 52 % twoTo 11
  let fraction : Nat := bits % twoTo 52
  if biased = 2047 then
    if fraction = 0 then .infinite negative else .nan
  else if biased = 0 then .finite negative fraction (-1074)
  else .finite negative (fraction + twoTo 52) ((biased : Int) - 1075)

def signBit (negative : Bool) : Nat := if negative then twoTo 63 else 0

def infinity (negative : Bool) : Float :=
  Float.ofBits (signBit negative + 2047 * twoTo 52).toUInt64

def notANumber : Float := Float.ofBits (2047 * twoTo 52 + twoTo 51).toUInt64

def roundDiv (num den : Nat) : Nat :=
  let q := num / den
  let r := num % den
  if den < 2 * r || (den = 2 * r && q % 2 = 1) then q + 1 else q

/-- `num / (den · 2 ^ exponent)` as a fraction of natural numbers. -/
def scaled (num den : Nat) (exponent : Int) : Nat × Nat :=
  if 0 ≤ exponent then (num, den * twoTo exponent.toNat) else (num * twoTo (-exponent).toNat, den)

/-- The exponent that leaves a quotient of 53 bits, or the least exponent there is. -/
def exponentFor (num den : Nat) : Int :=
  let guess : Int := (num.log2 : Int) - den.log2 - 53
  let (n, d) := scaled num den guess
  let exact := if n / d < twoTo 53 then guess else guess + 1
  max exact (-1074)

/-- A mantissa of at most 53 bits and its exponent as a double. -/
def assemble (negative : Bool) (mantissa : Nat) (exponent : Int) : Float :=
  let (mantissa, exponent) :=
    if mantissa = twoTo 53 then (twoTo 52, exponent + 1) else (mantissa, exponent)
  if 971 < exponent then infinity negative
  else if mantissa < twoTo 52 then Float.ofBits (signBit negative + mantissa).toUInt64
  else
    Float.ofBits
      (signBit negative + (exponent + 1075).toNat * twoTo 52 + (mantissa - twoTo 52)).toUInt64

/-- The double nearest to `± num / den`, ties to even; too large a fraction is an infinity. -/
def ofFraction (negative : Bool) (num den : Nat) : Float :=
  if num = 0 || den = 0 then Float.ofBits (signBit negative).toUInt64
  else
    let exponent := exponentFor num den
    let (n, d) := scaled num den exponent
    assemble negative (roundDiv n d) exponent

def ofInt (i : Int) : Float := ofFraction (i < 0) i.natAbs 1

/-- The integer part, rounding toward zero; the infinities and NaN have none. -/
def truncate? (x : Float) : Option Int :=
  match ofFloat x with
  | .finite negative mantissa exponent =>
      let size := if 0 ≤ exponent then mantissa * twoTo exponent.toNat
        else mantissa / twoTo (-exponent).toNat
      some (if negative then -(size : Int) else size)
  | _ => none

/-- The exact fraction of a finite double: sign, numerator, denominator. -/
def fraction? (x : Float) : Option (Bool × Nat × Nat) :=
  match ofFloat x with
  | .finite negative mantissa exponent =>
      if 0 ≤ exponent then some (negative, mantissa * twoTo exponent.toNat, 1)
      else some (negative, mantissa, twoTo (-exponent).toNat)
  | _ => none

def isFinite (x : Float) : Bool :=
  match ofFloat x with
  | .finite .. => true
  | _ => false

def isInteger (x : Float) : Bool :=
  match fraction? x with
  | some (_, num, den) => num % den = 0
  | none => false

def isNegative (x : Float) : Bool := twoTo 63 ≤ x.toBits.toNat

/-- The whole number nearest to a finite double, ties to even. -/
def nearestInt? (x : Float) : Option Int :=
  (fraction? x).map fun (negative, num, den) =>
    let size := roundDiv num den
    if negative then -(size : Int) else size

/-- The remainder of truncating division, with the sign of the dividend; exact. -/
def remainder (x y : Float) : Float :=
  match fraction? x, fraction? y with
  | some (negative, a, b), some (_, c, d) =>
      if c = 0 then notANumber
      else ofFraction negative ((a * d) % (c * b)) (b * d)
  | some _, none => if y.isNaN then y else x
  | none, _ => notANumber

def compareInt (x : Float) (i : Int) : Option Ordering :=
  match ofFloat x with
  | .nan => none
  | .infinite negative => some (if negative then .lt else .gt)
  | .finite negative mantissa exponent =>
      let m : Int := if negative then -(mantissa : Int) else mantissa
      some (if 0 ≤ exponent then compare (m * twoTo exponent.toNat) i
        else compare m (i * twoTo (-exponent).toNat))

end Binary64

end EffectTree.Number
