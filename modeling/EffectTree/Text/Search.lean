import EffectTree.Text.Property

/-!
# Finding and cutting text

Searching for parts, replacing them, splitting at separators, blanks or line ends, and trimming.
-/

namespace EffectTree.Text

/-- The first place where a part occurs, counted from `offset`. -/
def findIn (part : List Char) (offset : Nat) : List Char → Option Nat
  | [] => if part.isEmpty then some offset else none
  | c :: cs => if part.isPrefixOf (c :: cs) then some offset else findIn part (offset + 1) cs

/-- How often a non-empty part occurs without overlaps; the fuel is the length of the text. -/
def countIn (part : List Char) : Nat → List Char → Nat
  | 0, _ => 0
  | fuel + 1, cs =>
      match findIn part 0 cs with
      | some i => 1 + countIn part fuel (cs.drop (i + part.length))
      | none => 0

/-- Occurrences of a part; an empty one occurs before, between and after all characters. -/
def countPart (part cs : List Char) : Nat :=
  if part.isEmpty then cs.length + 1 else countIn part cs.length cs

/-- The pieces between at most `limit` occurrences of a non-empty separator. -/
def splitIn (sep : List Char) : Nat → List Char → List (List Char)
  | 0, cs => [cs]
  | limit + 1, cs =>
      match findIn sep 0 cs with
      | some i => cs.take i :: splitIn sep limit (cs.drop (i + sep.length))
      | none => [cs]

/-- A limit on the number of cuts: none, or the given one. -/
def cuts (limit : Option Nat) (cs : List Char) : Nat := limit.getD (cs.length + 1)

def splitAt (sep : List Char) (limit : Option Nat) (cs : List Char) : List (List Char) :=
  splitIn sep (min (cuts limit cs) (cs.length + 1)) cs

/-- The words between blanks, after at most `limit` cuts the rest as one piece. -/
def wordsIn : Nat → List Char → List (List Char)
  | 0, cs =>
      let rest := cs.dropWhile isBlank
      if rest.isEmpty then [] else [rest]
  | limit + 1, cs =>
      let rest := cs.dropWhile isBlank
      if rest.isEmpty then []
      else
        let word := rest.takeWhile fun c => !isBlank c
        word :: wordsIn limit (rest.drop word.length)

def words (limit : Option Nat) (cs : List Char) : List (List Char) :=
  wordsIn (min (cuts limit cs) (cs.length + 1)) cs

/-- Puts a text before each of the first `limit` characters. -/
def interleave (new : List Char) : Nat → List Char → List Char
  | 0, cs => cs
  | _ + 1, [] => new
  | limit + 1, c :: cs => new ++ c :: interleave new limit cs

def replaceIn (old new : List Char) (limit : Option Nat) (cs : List Char) : List Char :=
  if old.isEmpty then interleave new (min (cuts limit cs) (cs.length + 1)) cs
  else new.intercalate (splitAt old limit cs)

def isLineEnd (c : Char) : Bool :=
  (10 ≤ c.toNat && c.toNat ≤ 13) || (0x1c ≤ c.toNat && c.toNat ≤ 0x1e) || c.toNat = 0x85 ||
    c.toNat = 0x2028 || c.toNat = 0x2029

/-- The lines of a text, with or without their ends; the line so far is kept reversed. -/
def linesIn (keepEnds : Bool) : List Char → List Char → List (List Char)
  | acc, [] => if acc.isEmpty then [] else [acc.reverse]
  | acc, '\r' :: '\n' :: cs =>
      (acc.reverse ++ (if keepEnds then ['\r', '\n'] else [])) :: linesIn keepEnds [] cs
  | acc, c :: cs =>
      if isLineEnd c then (acc.reverse ++ (if keepEnds then [c] else [])) :: linesIn keepEnds [] cs
      else linesIn keepEnds (c :: acc) cs

def dropEnd (p : Char → Bool) (cs : List Char) : List Char := (cs.reverse.dropWhile p).reverse

/-- The characters that trimming removes: blanks, or those of a given text. -/
def trimmed (chars : Option (List Char)) (c : Char) : Bool :=
  match chars with
  | none => isBlank c
  | some cs => cs.contains c

def strip (s : String) : String :=
  String.ofList (dropEnd isBlank (s.toList.dropWhile isBlank))

def zeroFill (width : Nat) (cs : List Char) : List Char :=
  let n := width - cs.length
  match cs with
  | c :: rest =>
      if c = '+' || c = '-' then c :: List.replicate n '0' ++ rest else List.replicate n '0' ++ cs
  | [] => List.replicate n '0'

end EffectTree.Text
