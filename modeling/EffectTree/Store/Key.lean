import EffectTree.Text.Quoted

/-!
# Keys

Cells and results are stored under keys that are issued one after another: the n-th key is the
number n in thirty-two hexadecimal digits, in groups of eight, four, four, four and twelve. A number
that needs more digits has them in the last group.
-/

namespace EffectTree.Store

/-- Lists of the given lengths, one after another, from the front of a list, and what is left. -/
def groups : List Nat → List Char → List String
  | [], cs => [String.ofList cs]
  | n :: ns, cs => String.ofList (cs.take n) :: groups ns (cs.drop n)

def keyWidth (n : Nat) : Nat := max 32 (n.log2 / 4 + 1)

/-- The text of the n-th key. -/
def keyText (n : Nat) : String :=
  "-".intercalate (groups [8, 4, 4, 4] (Text.hexDigits (keyWidth n) n))

end EffectTree.Store
