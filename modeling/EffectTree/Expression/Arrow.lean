import EffectTree.Text.Search

/-!
# Arrow functions

A handler is written `(a, b) => body` or `a => body`; a source without such a header is a body for
the parameters `args` and `ctx`. A body in braces is taken for its `return`.
-/

namespace EffectTree.Expression

open Text

structure Handler where
  params : List String
  body : String
  deriving DecidableEq, Repr

def defaultParams : List String := ["args", "ctx"]

def isParamStart (c : Char) : Bool := c.isAlpha || c = '_'

def isParamListChar (c : Char) : Bool := isWordChar c || isBlank c || c = ','

/-- The rest after an arrow, with blanks before the arrow skipped. -/
def afterArrow? (cs : List Char) : Option (List Char) :=
  match cs.dropWhile isBlank with
  | '=' :: '>' :: rest => some rest
  | _ => none

def paramsOf (cs : List Char) : List String :=
  ((splitAt [','] none cs).map fun piece => strip (String.ofList piece)).filter (!·.isEmpty)

def parenthesized? (cs : List Char) : Option (List String × List Char) :=
  let inner := cs.dropWhile isBlank
  let list := inner.takeWhile isParamListChar
  match inner.drop list.length with
  | ')' :: rest =>
      if list.isEmpty || list.head?.any isParamStart then
        (afterArrow? rest).map fun body => (paramsOf list, body)
      else none
  | _ => none

def single? (cs : List Char) : Option (List String × List Char) :=
  let name := cs.takeWhile isWordChar
  if name.head?.any isParamStart then
    (afterArrow? (cs.drop name.length)).map fun body => ([String.ofList name], body)
  else none

def header? (cs : List Char) : Option (List String × List Char) :=
  match cs.dropWhile isBlank with
  | '(' :: rest => parenthesized? rest
  | rest => single? rest

/-- What follows a `return` at the start of a block; any other body stays as it is. -/
def unblocked (body : String) : String :=
  if body.startsWith "\x7b" then
    let cs := body.toList
    let inner := if body.endsWith "\x7d" then strip (String.ofList (cs.drop 1).dropLast) else body
    if inner.startsWith "return " then
      String.ofList (dropEnd (fun c => c = ';' || c = ' ' || c = '\n') (inner.toList.drop 7))
    else body
  else body

def splitArrow (source : String) : Handler :=
  match header? source.toList with
  | some (params, body) => ⟨params, unblocked (strip (String.ofList body))⟩
  | none => ⟨defaultParams, strip source⟩

end EffectTree.Expression
