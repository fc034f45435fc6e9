/-!
# Surrogates

The code points from U+D800 to U+DFFF are halves of pairs and no characters. A text can hold a half
outside of a pair all the same; a character of the last plane, which is set aside for private use,
stands for it.
-/

namespace EffectTree.Text

def isHighSurrogate (point : Nat) : Bool := 0xD800 ≤ point && point ≤ 0xDBFF

def isLowSurrogate (point : Nat) : Bool := 0xDC00 ≤ point && point ≤ 0xDFFF

def isSurrogate (point : Nat) : Bool := isHighSurrogate point || isLowSurrogate point

def pairPoint (high low : Nat) : Nat := 0x10000 + (high - 0xD800) * 0x400 + (low - 0xDC00)

/-- The distance from a half to the character that stands for it. -/
def standInShift : Nat := 0x100000

def charOf (point : Nat) : Char :=
  Char.ofNat (if isSurrogate point then point + standInShift else point)

/-- Whether a character stands for half of a pair. -/
def isHalf (c : Char) : Bool := isSurrogate (c.toNat - standInShift)

def pointOf (c : Char) : Nat := if isHalf c then c.toNat - standInShift else c.toNat

end EffectTree.Text
