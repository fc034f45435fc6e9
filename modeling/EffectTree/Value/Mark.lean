/-!
# Marks

Two things can be equal without being one thing. A mark tells which thing a value is: it is asked
for when two operands are tested for being the same, and when a not-a-number, which equals nothing,
is looked for among other values.
-/

namespace EffectTree

inductive Mark where
  /-- Just made: no other thing is the same. -/
  | fresh
  /-- The only thing of its value. -/
  | sole
  /-- The only name of its spelling: keywords of calls and the names of constants are kept once. -/
  | name
  /-- The only key of its spelling: the keys of documents are kept once. -/
  | key
  /-- A thing at its place in a document. -/
  | placed (n : Nat)
  /-- A thing that has come up in an evaluation. -/
  | numbered (n : Nat)
  deriving DecidableEq, Repr, Inhabited

namespace Mark

def same : Mark → Mark → Bool
  | sole, sole => true
  | name, name => true
  | key, key => true
  | placed m, placed n => m = n
  | numbered m, numbered n => m = n
  | _, _ => false

/-- A mark without the number from an evaluation. -/
def released : Mark → Mark
  | numbered _ => fresh
  | m => m

/-- The only thing of its value under a condition, a new thing otherwise. -/
def soleIf (condition : Bool) : Mark := if condition then sole else fresh

end Mark

end EffectTree
