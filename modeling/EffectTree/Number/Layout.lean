import EffectTree.Number.Shortest

/-!
# Written numbers

Digit strings for integers in any base and for doubles: shortest, with a fixed number of places,
with an exponent, or whichever of the two is shorter for a number of significant digits.
-/

namespace EffectTree.Number

open Binary64

def digitChar (d : Nat) : Char :=
  if d < 10 then Char.ofNat (48 + d) else Char.ofNat (87 + d)

/-- Digits of `n` in front of `tail`; the fuel bounds their number. -/
def digitsFrom (base : Nat) : Nat → Nat → List Char → List Char
  | 0, _, tail => tail
  | fuel + 1, n, tail =>
      if n < base then digitChar n :: tail
      else digitsFrom base fuel (n / base) (digitChar (n % base) :: tail)

def natDigits (base n : Nat) : String := String.ofList (digitsFrom base (n.log2 + 1) n [])

def natText (n : Nat) : String := toString n

def intText (i : Int) : String := if i < 0 then "-" ++ natText i.natAbs else natText i.natAbs

def zeros (n : Nat) : String := String.ofList (List.replicate n '0')

def exponentText (mark : String) (e : Int) : String :=
  let digits := natText e.natAbs
  mark ++ (if e < 0 then "-" else "+") ++ (if digits.length < 2 then "0" ++ digits else digits)

/-- Where the shortest layout turns to an exponent: below `10 ^ lowest` and from `10 ^ highest`
on. -/
structure ShortestStyle where
  lowest : Int
  highest : Int
  wholeSuffix : String

/-- Doubles are written positionally from 0.0001 up to but not including 10 to the 16, whole ones
with `.0`. -/
def ShortestStyle.plain : ShortestStyle := ⟨-4, 16, ".0"⟩

/-- Places a decimal point after the first `point` digits, which may lie outside of the digits. -/
def placePoint (digits : String) (point : Int) (wholeSuffix : String) : String :=
  let n : Int := digits.length
  if point ≤ 0 then "0." ++ zeros (-point).toNat ++ digits
  else if n ≤ point then digits ++ zeros (point - n).toNat ++ wholeSuffix
  else (digits.take point.toNat).toString ++ "." ++ (digits.drop point.toNat).toString

def scientific (digits : String) (mark : String) (e : Int) : String :=
  let first := (digits.take 1).toString
  let rest := (digits.drop 1).toString
  first ++ (if rest.isEmpty then "" else "." ++ rest) ++ exponentText mark e

def layoutShortest (style : ShortestStyle) (d : Decimal) : String :=
  let digits := natText d.digits
  let point : Int := d.exponent + digits.length
  if style.lowest < point && point ≤ style.highest then placePoint digits point style.wholeSuffix
  else scientific digits "e" (point - 1)

def shortestMagnitude (style : ShortestStyle) (x : Float) : String :=
  match ofFloat x with
  | .nan => "nan"
  | .infinite _ => "inf"
  | .finite _ 0 _ => "0" ++ style.wholeSuffix
  | .finite _ mantissa exponent =>
      layoutShortest style ((Shortest.ofMantissa mantissa exponent).trimmed 400)

def floatText (x : Float) : String :=
  let text := shortestMagnitude .plain x
  if x.isNaN then text else if isNegative x then "-" ++ text else text

/-- A finite fraction rounded to `places` decimals, ties to even, unsigned. -/
def fixedText (num den : Nat) (places : Nat) (alternate : Bool) : String :=
  let n := roundDiv (num * tenTo places) den
  let digits := natText n
  let digits := if digits.length ≤ places then zeros (places + 1 - digits.length) ++ digits
    else digits
  let whole := (digits.take (digits.length - places)).toString
  let part := (digits.drop (digits.length - places)).toString
  if places = 0 then (if alternate then whole ++ "." else whole) else whole ++ "." ++ part

/-- The decimal exponent of a positive fraction: the `e` with `10 ^ e ≤ num / den < 10 ^ (e +
1)`. -/
def decimalExponent (num den : Nat) : Int :=
  let guess : Int := (Shortest.digitCount num : Int) - (Shortest.digitCount den : Int)
  if num * tenTo (-guess).toNat < den * tenTo guess.toNat then guess - 1 else guess

/-- Rounds a positive fraction to `count` significant digits: the digits and the decimal
exponent. -/
def significant (num den : Nat) (count : Nat) : String × Int :=
  if num = 0 then (zeros count, 0)
  else
    let e := decimalExponent num den
    let g := e - (count : Int) + 1
    let n := roundDiv (num * tenTo (-g).toNat) (den * tenTo g.toNat)
    let digits := natText n
    if count < digits.length then ((digits.take count).toString, e + 1) else (digits, e)

def exponentialText (num den : Nat) (places : Nat) (alternate : Bool) (mark : String) : String :=
  let (digits, e) := significant num den (places + 1)
  let first := (digits.take 1).toString
  let rest := (digits.drop 1).toString
  let point := if places = 0 then (if alternate then "." else "") else "."
  first ++ point ++ rest ++ exponentText mark e

/-- Drops the zeros that end a fractional part, and the point if nothing follows it. -/
def dropTrailingZeros (s : String) : String :=
  if s.any (· = '.') then
    let kept := s.toList.reverse.dropWhile (· = '0')
    let kept := match kept with
      | '.' :: rest => rest
      | other => other
    String.ofList kept.reverse
  else s

/-- No double has more significant digits. -/
def maxSignificant : Nat := 767

/-- The text of `count` significant digits, positional for exponents from -4 up to below `limit`. -/
def generalText (num den : Nat) (count : Nat) (limit : Int) (alternate : Bool) (mark : String)
    (pointZero : Bool) : String :=
  let count := if count = 0 then 1 else if alternate then count else min count maxSignificant
  let (digits, e) := significant num den count
  if -4 ≤ e && e < limit then
    let text :=
      if e < 0 then "0." ++ zeros (-e - 1).toNat ++ digits
      else
        let whole := (digits.take (e.toNat + 1)).toString
        let part := (digits.drop (e.toNat + 1)).toString
        if part.isEmpty then (if alternate then whole ++ "." else whole) else whole ++ "." ++ part
    let text := if alternate then text else dropTrailingZeros text
    if pointZero && !text.any (· = '.') then text ++ ".0" else text
  else
    let first := (digits.take 1).toString
    let rest := (digits.drop 1).toString
    let body := if rest.isEmpty then (if alternate then first ++ "." else first)
      else first ++ "." ++ rest
    let body := if alternate then body else dropTrailingZeros body
    body ++ exponentText mark e

end EffectTree.Number
