import EffectTree.Value.Basic

/-!
# Keys

Equal values have equal keys. The key of a number is its residue modulo the prime `2 ^ 61 - 1`,
where a fraction with a power of two below is a residue too; the key of a tuple mixes those of its
items. Keys are words of 64 bits, and the last word is no key. Other values have no key that is
known.
-/

namespace EffectTree.Value

open EffectTree.Number

namespace Key

def prime : Nat := twoTo 61 - 1

def words : Nat := twoTo 64

/-- Steps back from the word that is no key. -/
def allowed (word : Nat) : Nat := if word + 1 = words then word - 1 else word

def signed (negative : Bool) (n : Nat) : Nat :=
  allowed (if negative && n ≠ 0 then words - n else n)

def ofInt (i : Int) : Nat := signed (i < 0) (i.natAbs % prime)

/-- Two has order 61, so its exponent counts modulo 61. -/
def ofFloat? (x : Float) : Option Nat :=
  match Binary64.ofFloat x with
  | .nan => none
  | .infinite negative => some (signed negative 314159)
  | .finite negative mantissa exponent =>
      some (signed negative (mantissa * twoTo (exponent % 61).toNat % prime))

def ofComplex? (re im : Float) : Option Nat := do
  return allowed (((← ofFloat? re) + 1000003 * (← ofFloat? im)) % words)

def mix (word key : Nat) : Nat :=
  let sum := (word + key * 14029467366897019727) % words
  let turned := sum * twoTo 31 % words + sum / twoTo 33
  turned * 11400714785074694791 % words

def ofItems (keys : List Nat) : Nat :=
  let word := keys.foldl mix 2870177450012600261
  let word := (word + (keys.length ^^^ (2870177450012600261 ^^^ 3527539))) % words
  if word + 1 = words then 1546275796 else word

end Key

mutual

def key? : Value → Option Nat
  | bool b => some (if b then 1 else 0)
  | int i _ => some (Key.ofInt i)
  | float x _ => Key.ofFloat? x
  | complex re im _ => Key.ofComplex? re im
  | str s _ => if s.isEmpty then some 0 else none
  | bytes octets _ => if octets.isEmpty then some 0 else none
  | tuple xs _ => (keys? xs).map Key.ofItems
  | _ => none

def keys? : List Value → Option (List Nat)
  | [] => some []
  | x :: xs => do return (← key? x) :: (← keys? xs)

end

end EffectTree.Value
