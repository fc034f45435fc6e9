import EffectTree.Number.Binary64

/-!
# Shortest decimals

The decimal with the fewest digits that still rounds to a given double, and of those the nearest to
it. For each number of digits the two neighbours of the double on that decimal grid are tried, in
exact arithmetic.
-/

namespace EffectTree.Number

structure Decimal where
  digits : Nat
  exponent : Int
  deriving DecidableEq, Repr

namespace Shortest

/-- Compares `a · 10 ^ g` with `b · 2 ^ e`. -/
def compareScaled (a : Nat) (g : Int) (b : Nat) (e : Int) : Ordering :=
  compare (a * tenTo g.toNat * twoTo (-e).toNat) (b * twoTo e.toNat * tenTo (-g).toNat)

/-- The interval of reals that round to `mantissa · 2 ^ exponent`, in quarters of the last place. -/
structure Interval where
  low : Nat
  value : Nat
  high : Nat
  exponent : Int
  closed : Bool

def Interval.ofMantissa (mantissa : Nat) (exponent : Int) : Interval where
  low := if mantissa = twoTo 52 && -1074 < exponent then 4 * mantissa - 1 else 4 * mantissa - 2
  value := 4 * mantissa
  high := 4 * mantissa + 2
  exponent := exponent - 2
  closed := mantissa % 2 = 0

def Interval.contains (i : Interval) (a : Nat) (g : Int) : Bool :=
  match compareScaled a g i.low i.exponent, compareScaled a g i.high i.exponent with
  | .gt, .lt => true
  | .eq, _ => i.closed
  | _, .eq => i.closed
  | _, _ => false

def Interval.floorAt (i : Interval) (g : Int) : Nat :=
  (i.value * twoTo i.exponent.toNat * tenTo (-g).toNat) /
    (tenTo g.toNat * twoTo (-i.exponent).toNat)

/-- Whether the value lies nearer to `a + 1` than to `a` on the grid; a tie goes to the even one. -/
def Interval.upperNearer (i : Interval) (a : Nat) (g : Int) : Bool :=
  match compareScaled (2 * a + 1) g (2 * i.value) i.exponent with
  | .lt => true
  | .gt => false
  | .eq => a % 2 = 1

/-- The candidate on the grid `10 ^ g`, if one of the two neighbours rounds back. -/
def Interval.candidate? (i : Interval) (g : Int) : Option Decimal :=
  let a := i.floorAt g
  let below := decide (0 < a) && i.contains a g
  let above := i.contains (a + 1) g
  if below && above then some ⟨if i.upperNearer a g then a + 1 else a, g⟩
  else if below then some ⟨a, g⟩
  else if above then some ⟨a + 1, g⟩
  else none

/-- Tries coarser grids before finer ones; seventeen digits always suffice. -/
def Interval.search (i : Interval) : Nat → Int → Decimal
  | 0, g => ⟨i.floorAt g, g⟩
  | n + 1, g =>
      match i.candidate? g with
      | some d => d
      | none => i.search n (g - 1)

def digitCount (n : Nat) : Nat := (Nat.toDigits 10 n).length

/-- A power of ten at least as large as the value. -/
def Interval.topGrid (i : Interval) : Int :=
  if 0 ≤ i.exponent then digitCount (i.value * twoTo i.exponent.toNat)
  else
    let whole := i.value / twoTo (-i.exponent).toNat
    if whole = 0 then
      (digitCount i.value : Int) - (digitCount (twoTo (-i.exponent).toNat) : Int) + 1
    else digitCount whole

def ofMantissa (mantissa : Nat) (exponent : Int) : Decimal :=
  let i := Interval.ofMantissa mantissa exponent
  i.search 20 i.topGrid

end Shortest

/-- Trailing zeros of the digits move into the exponent; each round drops one. -/
def Decimal.trimmed (d : Decimal) : Nat → Decimal
  | 0 => d
  | n + 1 =>
      if d.digits ≠ 0 && d.digits % 10 = 0 then trimmed ⟨d.digits / 10, d.exponent + 1⟩ n else d

end EffectTree.Number
