import EffectTree.Number.Binary64

/-!
# The hypotenuse

The square root of a sum of two squares, corrected by the part that rounding the squares loses. Very
large and very small sides are scaled first, so that no square leaves the range of doubles.
-/

namespace EffectTree.Number

def power (exponent : Int) : Float := Binary64.assemble false (twoTo 52) (exponent - 52)

/-- The root with its correction, for sides whose squares are in range, the longer one first. -/
def correctedRoot (long short : Float) : Float :=
  let root := (long * long + short * short).sqrt
  let (first, second) :=
    if root ≤ 2 * short then
      let delta := root - short
      (long * (2 * delta - long), (delta - 2 * (long - short)) * delta)
    else
      let delta := root - long
      (2 * delta * (long - 2 * short), (4 * delta - short) * short + delta * delta)
  root - (first + second) / (2 * root)

/-- The length of the hypotenuse over two sides. An infinite side makes it infinite, whatever the
other one is, and a short side that is lost beside a long one is added to it. -/
def hypotenuse (x y : Float) : Float :=
  if x.isInf || y.isInf then Binary64.infinity false
  else if x.isNaN || y.isNaN then Binary64.notANumber
  else
    let (long, short) := if x.abs < y.abs then (y.abs, x.abs) else (x.abs, y.abs)
    let scale := power (-600)
    if power 511 < long then
      if short ≤ long * power (-54) then long + short
      else correctedRoot (long * scale) (short * scale) / scale
    else if short < power (-459) then
      if short / power (-54) ≤ long then long + short
      else correctedRoot (long / scale) (short / scale) * scale
    else if short ≤ long * power (-54) then long + short
    else correctedRoot long short

end EffectTree.Number
