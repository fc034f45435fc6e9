import EffectTree.Number.Reading
import EffectTree.Text.Search
import EffectTree.Fault

/-!
# Exit codes

The exit code that a value stands for: null is 0, numbers and texts of digits are themselves, and
anything else is 1.
-/

namespace EffectTree.Evaluation

/-- Whether a text looks like an integer: digits after blanks and any number of minus signs. -/
def looksWhole (s : String) : Bool :=
  let digits := (Text.strip s).toList.dropWhile (· = '-')
  !digits.isEmpty && digits.all Text.isDigit

def exitCode : Value → Except Fault Int
  | .null => .ok 0
  | .bool b => .ok (Value.ofBit b)
  | .int i _ => .ok i
  | .float x _ =>
      .ok (if Number.Binary64.isInteger x then (Number.Binary64.truncate? x).getD 1 else 1)
  | .str s _ =>
      if looksWhole s then
        match Number.readInt? 10 s with
        | some i => .ok i
        | none => .error (.notInteger 10 (Text.quoted s))
      else .ok 1
  | _ => .ok 1

end EffectTree.Evaluation
