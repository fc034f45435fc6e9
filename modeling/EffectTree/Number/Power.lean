/-!
# Powers

Powers of the two bases in which numbers are written and stored.
-/

namespace EffectTree.Number

def twoTo (n : Nat) : Nat := Nat.pow 2 n

def tenTo (n : Nat) : Nat := Nat.pow 10 n

end EffectTree.Number
