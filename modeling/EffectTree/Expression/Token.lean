import EffectTree.Expression.Spelling
import EffectTree.Number.Reading
import EffectTree.Value.Basic

/-!
# Tokens of expressions

Words, numbers, texts between quotes and symbols. Blanks, comments, joined lines and, inside of
brackets, line ends separate tokens and are dropped.
-/

namespace EffectTree.Expression

/-- A text between quotes, with what its marks say and its characters as they are written. -/
structure TextLiteral where
  isBytes : Bool
  isRaw : Bool
  isFormatted : Bool
  body : List Char
  deriving Repr

inductive Token where
  | word (s : String)
  | number (value : Value)
  | text (literal : TextLiteral)
  | symbol (s : String)
  | newline

/-- A character that may belong to a word; letters outside of ASCII are checked for the whole
word. -/
def isWordPart (c : Char) : Bool := c.isAlphanum || c = '_' || 128 ≤ c.toNat

/-- Digits with single underscores before or between them, and the rest. -/
def takeDigits (p : Char → Bool) : List Char → Option (List Char × List Char)
  | [] => some ([], [])
  | ['_'] => none
  | '_' :: c :: rest =>
      if p c then (takeDigits p rest).map fun (ds, after) => (c :: ds, after) else none
  | c :: rest =>
      if p c then (takeDigits p rest).map fun (ds, after) => (c :: ds, after)
        else some ([], c :: rest)

def followingWords : List (List Char) :=
  ["and", "else", "for", "if", "in", "is", "or", "not"].map String.toList

def endsNumber (rest : List Char) : Bool :=
  match rest with
  | [] => true
  | c :: _ => !isWordPart c || followingWords.any (·.isPrefixOf rest)

def isOctal (c : Char) : Bool := '0' ≤ c && c ≤ '7'

def isBinary (c : Char) : Bool := c = '0' || c = '1'

def isHex (c : Char) : Bool := c.isDigit || ('a' ≤ c.toLower && c.toLower ≤ 'f')

def basedNumber? (base : Nat) (p : Char → Bool) (cs : List Char) : Option (Value × List Char) :=
  match takeDigits p cs with
  | some (digits, rest) =>
      if digits.isEmpty || !endsNumber rest then none
      else (Number.readDigits base false 0 digits).map fun n => (.ofInt n, rest)
  | none => none

/-- Digits after a point; without a digit there are none. -/
def fraction? : List Char → Option (List Char × List Char)
  | c :: rest => if c.isDigit then takeDigits Char.isDigit (c :: rest) else some ([], c :: rest)
  | [] => some ([], [])

/-- An exponent with its mark. A mark without digits belongs to a following word. -/
def exponent? : List Char → Option (List Char × List Char)
  | c :: rest =>
      if c = 'e' || c = 'E' then
        match rest with
        | sign :: d :: more =>
            if sign = '+' || sign = '-' then
              if d.isDigit then
                (takeDigits Char.isDigit (d :: more)).map fun (ds, after) =>
                  ('e' :: sign :: ds, after)
              else none
            else if sign.isDigit then
              (takeDigits Char.isDigit rest).map fun (ds, after) => ('e' :: ds, after)
            else some ([], c :: rest)
        | [d] =>
            if d.isDigit then some (['e', d], []) else if d = '+' || d = '-' then none
            else some ([], c :: rest)
        | [] => some ([], c :: rest)
      else some ([], c :: rest)
  | [] => some ([], [])

def maxDecimalDigits : Nat := 4300

def decimalValue? (digits : List Char) : Option Float := Number.readFloat? (String.ofList digits)

def decimalNumber? (cs : List Char) : Option (Value × List Char) := do
  let (whole, rest) ← fraction? cs
  let (point, part, rest) ← match rest with
    | '.' :: more => (fraction? more).map fun (ds, after) => (['.'], ds, after)
    | _ => some ([], [], rest)
  let (exponent, rest) ← exponent? rest
  let digits := whole ++ point ++ part ++ exponent
  match rest with
  | c :: more =>
      if c = 'j' || c = 'J' then
        if endsNumber more then return (.ofComplex 0 (← decimalValue? digits), more) else none
      else finish whole (point ++ exponent).isEmpty digits rest
  | [] => finish whole (point ++ exponent).isEmpty digits rest
where
  /-- Integers do not start with zeros unless they are zero. -/
  finish (whole : List Char) (isInt : Bool) (digits rest : List Char) :
    Option (Value × List Char) :=
    if !endsNumber rest then none
    else if isInt then
      if (whole.head? = some '0' && whole.any (· ≠ '0')) ||
        maxDecimalDigits < whole.length then none
      else some (.ofInt (Number.digitsValue whole), rest)
    else (decimalValue? digits).map fun x => (.ofFloat x, rest)

def number? : List Char → Option (Value × List Char)
  | '0' :: c :: rest =>
      if c = 'x' || c = 'X' then basedNumber? 16 isHex rest
      else if c = 'o' || c = 'O' then basedNumber? 8 isOctal rest
      else if c = 'b' || c = 'B' then basedNumber? 2 isBinary rest
      else decimalNumber? ('0' :: c :: rest)
  | cs => decimalNumber? cs

/-- The characters up to the closing quote. A backslash takes the next character with it. -/
def takeQuoted (quote : Char) (triple : Bool) : List Char → Option (List Char × List Char)
  | [] => none
  | '\\' :: c :: rest =>
    (takeQuoted quote triple rest).map fun (body, after) => ('\\' :: c :: body, after)
  | c :: rest =>
      if c = quote && (!triple || [quote, quote].isPrefixOf rest) then
        some ([], if triple then rest.drop 2 else rest)
      else if c = '\n' && !triple then none
      else (takeQuoted quote triple rest).map fun (body, after) => (c :: body, after)

def quoted? : List Char → Option (List Char × List Char)
  | quote :: rest =>
      if [quote, quote].isPrefixOf rest then takeQuoted quote true (rest.drop 2)
      else takeQuoted quote false rest
  | [] => none

def textMarks : List String := ["", "b", "r", "u", "f", "br", "rb", "fr", "rf"]

def textToken? (marks : List Char) (cs : List Char) : Option (Token × List Char) :=
  let marks := marks.map Char.toLower
  (quoted? cs).map fun (body, rest) =>
    (.text ⟨marks.contains 'b', marks.contains 'r', marks.contains 'f', body⟩, rest)

def longSymbols : List String :=
  ["**=", "//=", ">>=", "<<=", "...", "!=", "%=", "&=", "**", "*=", "+=", "-=", "->", "//",
    "/=", ":=",
   "<<", "<=", "==", ">=", ">>", "@=", "^=", "|="]

def shortSymbols : List Char :=
  ['(', ')', '[', ']', Char.ofNat 123, Char.ofNat 125, ',', ':', '.', ';', '=', '+', '-', '*',
    '/', '%',
   '&', '|', '^', '~', '<', '>', '@']

def leadingSymbol? (cs : List Char) : Option (String × List Char) :=
  match longSymbols.find? (fun s => s.toList.isPrefixOf cs) with
  | some s => some (s, cs.drop s.length)
  | none => match cs with
      | c :: rest => if shortSymbols.contains c then some (String.singleton c, rest) else none
      | [] => none

def opensBracket (s : String) : Bool := s = "(" || s = "[" || s = "\x7b"

def closesBracket (s : String) : Bool := s = ")" || s = "]" || s = "\x7d"

def unifyLines : List Char → List Char
  | [] => []
  | '\r' :: '\n' :: rest => '\n' :: unifyLines rest
  | '\r' :: rest => '\n' :: unifyLines rest
  | c :: rest => c :: unifyLines rest

def token? (cs : List Char) : Option (Token × List Char) :=
  match cs with
  | [] => none
  | c :: rest =>
      if isQuote c then textToken? [] cs
      else if c.isDigit || (c = '.' && rest.head?.any Char.isDigit) then
        (number? cs).map fun (v, after) => (.number v, after)
      else if isWordPart c then
        let word := cs.takeWhile isWordPart
        let after := cs.drop word.length
        let s := String.ofList word
        if after.head?.any isQuote &&
          textMarks.contains (String.ofList (word.map Char.toLower)) then
          textToken? word after
        else if Text.isIdentifier s then some (.word s, after) else none
      else (leadingSymbol? cs).map fun (s, after) => (.symbol s, after)

def maxBrackets : Nat := 200

def depthAfter (depth : Nat) : Token → Option Nat
  | .symbol s =>
      if opensBracket s then if depth < maxBrackets then some (depth + 1) else none
      else if closesBracket s then if depth = 0 then none else some (depth - 1)
      else some depth
  | _ => some depth

/-- Where a line stands: whether it holds a token, and whether blanks indent it. -/
structure Line where
  started : Bool := false
  indented : Bool := false

/-- Reads all tokens; the fuel is one more than the number of characters. -/
def scan : Nat → Nat → Line → List Char → Option (List Token)
  | 0, _, _, _ => none
  | _ + 1, depth, _, [] => if depth = 0 then some [] else none
  | fuel + 1, depth, line, c :: rest =>
      if c = ' ' || c = '\t' then
        scan fuel depth { line with indented := line.indented || !line.started } rest
      else if c.toNat = 12 then scan fuel depth { line with indented := false } rest
      else if c = '#' then scan fuel depth line (rest.dropWhile (· ≠ '\n'))
      else if c = '\n' then
        if depth ≠ 0 then scan fuel depth line rest
        else if line.started then (scan fuel depth {} rest).map (.newline :: ·)
        else scan fuel depth {} rest
      else if c = '\\' then
        match rest with
        | '\n' :: more => if more.isEmpty then none else scan fuel depth line more
        | _ => none
      else if line.indented && !line.started then none
      else
        match token? (c :: rest) with
        | none => none
        | some (t, after) =>
            match depthAfter depth t with
            | none => none
            | some depth' => (scan fuel depth' { started := true } after).map (t :: ·)

def tokens? (cs : List Char) : Option (List Token) :=
  if cs.contains (Char.ofNat 0) then none
  else
    let cs := unifyLines cs
    scan (cs.length + 1) 0 {} cs

end EffectTree.Expression
