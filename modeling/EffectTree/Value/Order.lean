import EffectTree.Fault

/-!
# The order of values

Numbers are ordered by value, texts by code point, sequences of one type by their first difference
and sets by inclusion. Any other pair has no order, which is a fault.
-/

namespace EffectTree.Value

inductive Relation where
  | less | lessEq | greater | greaterEq
  deriving DecidableEq, Repr

namespace Relation

def symbol : Relation → String
  | less => "<"
  | lessEq => "<="
  | greater => ">"
  | greaterEq => ">="

def holds : Relation → Ordering → Bool
  | less, o => o = .lt
  | lessEq, o => o ≠ .gt
  | greater, o => o = .gt
  | greaterEq, o => o ≠ .lt

/-- Inclusion of sets, given as the number of common members and the two sizes. -/
def includes : Relation → Nat → Nat → Nat → Bool
  | less, common, a, b => common = a && a < b
  | lessEq, common, a, _ => common = a
  | greater, common, a, b => common = b && b < a
  | greaterEq, common, _, b => common = b

end Relation

def compareChars : List Char → List Char → Ordering
  | [], [] => .eq
  | [], _ :: _ => .lt
  | _ :: _, [] => .gt
  | a :: as, b :: bs =>
      if Text.pointOf a < Text.pointOf b then .lt
      else if Text.pointOf b < Text.pointOf a then .gt
      else compareChars as bs

def compareOctets (as bs : List UInt8) : Ordering :=
  compareChars (as.map fun b => Char.ofNat b.toNat) (bs.map fun b => Char.ofNat b.toNat)

mutual

def related (r : Relation) : Value → Value → Except Fault Bool
  | str a m, w => match w with
      | str b _ => .ok (r.holds (compareChars a.toList b.toList))
      | _ => .error (.unordered r.symbol (str a m) w)
  | bytes a m, w => match w with
      | bytes b _ => .ok (r.holds (compareOctets a b))
      | _ => .error (.unordered r.symbol (bytes a m) w)
  | list xs m, w => match w with
      | list ys _ => relatedItems r xs ys
      | _ => .error (.unordered r.symbol (list xs m) w)
  | tuple xs m, w => match w with
      | tuple ys _ => relatedItems r xs ys
      | _ => .error (.unordered r.symbol (tuple xs m) w)
  | set xs s m, w => match w with
      | set ys _ _ =>
          .ok (r.includes (xs.countP fun x => ys.any (agrees x)) xs.length ys.length)
      | _ => .error (.unordered r.symbol (set xs s m) w)
  | v, w => match v.real?, w.real? with
      | some a, some b => .ok ((a.compare b).any r.holds)
      | _, _ => .error (.unordered r.symbol v w)

def relatedItems (r : Relation) : List Value → List Value → Except Fault Bool
  | [], ys => .ok (r.holds (if ys.isEmpty then .eq else .lt))
  | x :: xs, ys => match ys with
      | [] => .ok (r.holds .gt)
      | y :: rest => if agrees x y then relatedItems r xs rest else related r x y

end

end EffectTree.Value
