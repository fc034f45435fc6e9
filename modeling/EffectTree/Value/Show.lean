import EffectTree.Number.Layout
import EffectTree.Text.Quoted
import EffectTree.Value.Basic

/-!
# The text of values

`shown` writes a value as a literal, with texts in quotes; `display` writes a text as it is.
-/

namespace EffectTree.Value

open Number

/-- The parts of a complex number are written without a `.0`. -/
def complexPart : ShortestStyle := ⟨-4, 16, ""⟩

def signedPart (x : Float) : String :=
  let text := shortestMagnitude complexPart x
  if x.isNaN then text else if Binary64.isNegative x then "-" ++ text else text

/-- A complex number without a real part is its imaginary part alone, any other stands in
parentheses. -/
def complexText (re im : Float) : String :=
  if re == 0 && !Binary64.isNegative re then signedPart im ++ "j"
  else
    let imaginary := signedPart im
    let imaginary := if imaginary.startsWith "-" then imaginary else "+" ++ imaginary
    "(" ++ signedPart re ++ imaginary ++ "j)"

def builtinName : Builtin → String
  | .abs => "abs" | .all => "all" | .any => "any" | .bool => "bool" | .dict => "dict"
  | .enumerate => "enumerate" | .float => "float" | .int => "int" | .len => "len" | .list => "list"
  | .max => "max" | .min => "min" | .range => "range" | .reversed => "reversed" | .round => "round"
  | .sorted => "sorted" | .str => "str" | .sum => "sum" | .tuple => "tuple" | .zip => "zip"

def builtinText (f : Builtin) : String :=
  if isTypeName f then "<class '" ++ builtinName f ++ "'>"
  else if isDefined f then "<function " ++ builtinName f ++ ">"
  else "<built-in function " ++ builtinName f ++ ">"

def argumentName (f : Builtin) : String :=
  if f = .range then "tyeff.expr._bounded_range"
  else if isDefined f then "tyeff.expr.<lambda>"
  else builtinName f

mutual

def shown : Value → String
  | null => "None"
  | bool b => if b then "True" else "False"
  | int i _ => intText i
  | float x _ => floatText x
  | complex re im _ => complexText re im
  | str s _ => Text.quoted s
  | bytes bs _ => Text.quotedBytes bs
  | list xs _ => "[" ++ ", ".intercalate (shownItems xs) ++ "]"
  | tuple xs _ => match shownItems xs with
      | [x] => "(" ++ x ++ ",)"
      | texts => "(" ++ ", ".intercalate texts ++ ")"
  | set xs _ _ => match shownItems xs with
      | [] => "set()"
      | texts => "\x7b" ++ ", ".intercalate texts ++ "\x7d"
  | dict es _ => "\x7b" ++ ", ".intercalate (shownEntries es) ++ "\x7d"
  | ellipsis => "Ellipsis"
  | builtin f => builtinText f
  | generic f xs isSpread _ =>
      (if isSpread then "*" else "") ++ builtinName f ++ "[" ++
        (match argumentTexts xs with
          | [] => "()"
          | texts => ", ".intercalate texts) ++ "]"
  | union xs _ => " | ".intercalate (argumentTexts xs)
  | context text => text

def shownItems : List Value → List String
  | [] => []
  | x :: xs => shown x :: shownItems xs

def argumentTexts : List Value → List String
  | [] => []
  | x :: xs =>
      (match x with
        | ellipsis => "..."
        | builtin f => argumentName f
        | v => shown v) :: argumentTexts xs

def shownEntries : List (Value × Value) → List String
  | [] => []
  | (k, v) :: rest => (shown k ++ ": " ++ shown v) :: shownEntries rest

end

def display : Value → String
  | str s _ => s
  | v => v.shown

/-- The literal text of a value as a value; those of the truth values are names. -/
def literalText : Value → Value
  | bool b => ofName (shown (bool b))
  | v => newStr v.shown

def text : Value → Value
  | str s m => str s m
  | v => v.literalText

end EffectTree.Value
