import EffectTree.Number.Binary64
import EffectTree.Text.Property

/-!
# Numbers read from text

Integers in a base with an optional sign, base mark and single underscores between digits; doubles
in decimal or exponent notation or as words. Blanks around a number do not count, and decimal digits
of every script stand for their values.
-/

namespace EffectTree.Number

open Text

/-- Blanks of texts that are not blanks around numbers. -/
def isSeparator (c : Char) : Bool := 28 ≤ c.toNat && c.toNat ≤ 31

/-- Blanks that may stand around a number. -/
def isPadding (c : Char) : Bool := isBlank c && !isSeparator c

def trimPadding (cs : List Char) : List Char :=
  ((cs.dropWhile isPadding).reverse.dropWhile isPadding).reverse

/-- Digits of other scripts become the ten plain ones. -/
def plainDigits (cs : List Char) : List Char :=
  cs.map fun c => match decimalDigit? c with
    | some d => Char.ofNat (48 + d)
    | none => c

/-- The value of a plain digit or letter, as bases up to thirty-six count them. -/
def digitValue? (c : Char) : Option Nat :=
  if c.isDigit then some (c.toNat - 48)
  else if c.isLower then some (c.toNat - 87)
  else if c.isUpper then some (c.toNat - 55)
  else none

/-- Digits of a base with single underscores between them; `afterDigit` says what came before. -/
def readDigits (base : Nat) : Bool → Nat → List Char → Option Nat
  | afterDigit, acc, [] => if afterDigit then some acc else none
  | afterDigit, acc, '_' :: rest => if afterDigit then readDigits base false acc rest else none
  | _, acc, c :: rest =>
      match digitValue? c with
      | some d => if d < base then readDigits base true (acc * base + d) rest else none
      | none => none

def markedBase? : List Char → Option Nat
  | '0' :: c :: _ =>
      if c = 'x' || c = 'X' then some 16
      else if c = 'o' || c = 'O' then some 8
      else if c = 'b' || c = 'B' then some 2
      else none
  | _ => none

/-- An unsigned integer; base 0 takes the base from the mark and refuses leading zeros without
one. -/
def readMagnitude (base : Nat) (cs : List Char) : Option Nat :=
  let marked := markedBase? cs
  if base = 0 then
    match marked with
    | some b => readMarked b cs
    | none =>
        match readDigits 10 false 0 cs with
        | some n => if cs.head? = some '0' && n ≠ 0 then none else some n
        | none => none
  else if marked = some base then readMarked base cs
  else readDigits base false 0 cs
where
  readMarked (b : Nat) (cs : List Char) : Option Nat :=
    match cs.drop 2 with
    | '_' :: rest => readDigits b false 0 rest
    | rest => readDigits b false 0 rest

def readInt? (base : Nat) (s : String) : Option Int :=
  match plainDigits (trimPadding s.toList) with
  | '-' :: rest => (readMagnitude base rest).map fun n : Nat => -(n : Int)
  | '+' :: rest => (readMagnitude base rest).map Int.ofNat
  | rest => (readMagnitude base rest).map Int.ofNat

/-- Removes underscores that stand between two digits; any other underscore is an error. -/
def joinUnderscores : Bool → List Char → Option (List Char)
  | _, [] => some []
  | afterDigit, '_' :: rest =>
      if afterDigit && (rest.head?.any Char.isDigit) then joinUnderscores false rest else none
  | _, c :: rest => (joinUnderscores c.isDigit rest).map (c :: ·)

def digitsValue (cs : List Char) : Nat := cs.foldl (fun acc c => acc * 10 + (c.toNat - 48)) 0

/-- `digits · 10 ^ exponent` as a double. A huge exponent is cut off where the answer is settled. -/
def ofDecimal (negative : Bool) (digits : Nat) (exponent : Int) : Float :=
  let size : Int := (Nat.toDigits 10 digits).length
  if digits = 0 then Binary64.ofFraction negative 0 1
  else if 400 < exponent + size then Binary64.infinity negative
  else if exponent + size < -400 then Binary64.ofFraction negative 0 1
  else Binary64.ofFraction negative (digits * tenTo exponent.toNat) (tenTo (-exponent).toNat)

def readExponent : List Char → Option Int
  | [] => some 0
  | c :: rest =>
      if c = 'e' || c = 'E' then
        let (negative, digits) := match rest with
          | '-' :: ds => (true, ds)
          | '+' :: ds => (false, ds)
          | ds => (false, ds)
        if digits.isEmpty || !digits.all Char.isDigit then none
        else some (if negative then -(digitsValue digits : Int) else digitsValue digits)
      else none

def readDecimal (negative : Bool) (cs : List Char) : Option Float :=
  let whole := cs.takeWhile Char.isDigit
  let rest := cs.dropWhile Char.isDigit
  let (part, rest) := match rest with
    | '.' :: more => (more.takeWhile Char.isDigit, more.dropWhile Char.isDigit)
    | _ => ([], rest)
  if whole.isEmpty && part.isEmpty then none
  else (readExponent rest).map fun e =>
    ofDecimal negative (digitsValue (whole ++ part)) (e - part.length)

/-- An unsigned double, the words for infinity and NaN included. -/
def readUnsigned (negative : Bool) (cs : List Char) : Option Float :=
  let word := String.ofList (cs.map Char.toLower)
  if word = "inf" || word = "infinity" then some (Binary64.infinity negative)
  else if word = "nan" then some Binary64.notANumber
  else readDecimal negative cs

/-- A double with an optional sign, underscores between digits and blanks around it. -/
def readFloat? (s : String) : Option Float :=
  (joinUnderscores false (plainDigits (trimPadding s.toList))).bind fun cs =>
    match cs with
    | '-' :: rest => readUnsigned true rest
    | '+' :: rest => readUnsigned false rest
    | rest => readUnsigned false rest

end EffectTree.Number
