import EffectTree.Expression.Basic
import EffectTree.Expression.Token
import EffectTree.Json.Parser

/-!
# Texts in expressions

Escapes of texts and of octets, and the division of a formatted text into literal parts and
replacement fields.
-/

namespace EffectTree.Expression

def simpleEscapes : List (Char × Nat) :=
  [('\\', 92), (Text.singleQuote, 39), (Text.doubleQuote, 34), ('a', 7), ('b', 8), ('f', 12),
   ('n', 10), ('r', 13), ('t', 9), ('v', 11)]

def simpleEscape? (c : Char) : Option Nat := (simpleEscapes.find? (·.1 = c)).map (·.2)

/-- The value of exactly `count` hexadecimal digits, and the rest. -/
def takeHex : Nat → Nat → List Char → Option (Nat × List Char)
  | 0, acc, cs => some (acc, cs)
  | _ + 1, _, [] => none
  | count + 1, acc, c :: cs => (Json.hexValue? c).bind fun d => takeHex count (acc * 16 + d) cs

/-- The value of at most `count` octal digits, and the rest. -/
def takeOctal : Nat → Nat → List Char → Nat × List Char
  | 0, acc, cs => (acc, cs)
  | _ + 1, acc, [] => (acc, [])
  | count + 1, acc, c :: cs =>
      if isOctal c then takeOctal count (acc * 8 + (c.toNat - 48)) cs else (acc, c :: cs)

/-- The code point of one escape after its backslash: nothing for a joined line, and `none` inside
for an unknown escape, which stands for itself. -/
inductive Escape where
  | point (n : Nat) (rest : List Char)
  | joined (rest : List Char)
  | unknown
  | malformed

/-- Reads an escape; only texts know the long forms. -/
def readEscape (isText : Bool) : List Char → Escape
  | [] => .unknown
  | c :: rest =>
      if c = '\n' then .joined rest
      else if c = 'x' then hex 2 rest
      else if isText && c = 'u' then hex 4 rest
      else if isText && c = 'U' then hex 8 rest
      else if isText && c = 'N' then .malformed
      else if isOctal c then
        let (n, after) := takeOctal 3 0 (c :: rest)
        .point n after
      else match simpleEscape? c with
        | some n => .point n rest
        | none => .unknown
where
  hex (count : Nat) (cs : List Char) : Escape :=
    match takeHex count 0 cs with
    | some (n, after) => if n ≤ 0x10FFFF then .point n after else .malformed
    | none => .malformed

/-- Replaces escapes; the fuel is the number of characters. -/
def unescapeFrom (isText : Bool) : Nat → List Char → List Nat → Option (List Nat)
  | 0, _, acc => some acc.reverse
  | _ + 1, [], acc => some acc.reverse
  | fuel + 1, '\\' :: rest, acc =>
      match readEscape isText rest with
      | .point n after => unescapeFrom isText fuel after (n :: acc)
      | .joined after => unescapeFrom isText fuel after acc
      | .unknown => unescapeFrom isText fuel rest (92 :: acc)
      | .malformed => none
  | fuel + 1, c :: rest, acc => unescapeFrom isText fuel rest (c.toNat :: acc)

def textChars? (isRaw : Bool) (body : List Char) : Option (List Char) :=
  if isRaw then some body else (unescapeFrom true body.length body []).map (·.map Text.charOf)

/-- The octets of a text marked as bytes; its characters have to be ASCII. -/
def octets? (isRaw : Bool) (body : List Char) : Option (List UInt8) :=
  if body.any fun c => 128 ≤ c.toNat then none
  else
    let points := if isRaw then some (body.map Char.toNat)
      else unescapeFrom false body.length body []
    points.map (·.map Nat.toUInt8)

/-- The literal characters before a replacement field, the end or, in a format, a closing brace. A
doubled brace outside of formats ends the part early, which the flag of the outcome tells. A
character after a backslash is literal unless it is a brace. -/
def literalPart (isRaw isTop : Bool) :
    Bool → List Char → List Char → Option (List Char × Bool × List Char)
  | _, [], acc => some (acc.reverse, false, [])
  | escaped, c :: rest, acc =>
      if c = Char.ofNat 123 || c = Char.ofNat 125 then
        if isTop && rest.head? = some c then some ((c :: acc).reverse, true, rest.drop 1)
        else if isTop && c = Char.ofNat 125 then none
        else some (acc.reverse, false, c :: rest)
      else literalPart isRaw isTop (!isRaw && !escaped && c = '\\') rest (c :: acc)

def closing? (c : Char) : Option Char :=
  if c = '(' then some ')'
  else if c = '[' then some ']'
  else if c = Char.ofNat 123 then some (Char.ofNat 125)
  else none

def isClosing (c : Char) : Bool := c = ')' || c = ']' || c = Char.ofNat 125

/-- Where the scan of a replacement field stands: the brackets to close and the quote around. -/
structure FieldState where
  pending : List Char := []
  quote : Option (Char × Bool) := none

/-- The source of the expression at the start of a replacement field: up to a conversion, a format,
an equals sign or the closing brace outside of brackets and quotes. -/
def fieldSource : Nat → FieldState → List Char → List Char → Option (List Char × List Char)
  | 0, _, _, _ => none
  | _ + 1, _, [], _ => none
  | fuel + 1, st, c :: rest, acc =>
      if c = '\\' then none
      else match st.quote with
        | some (quote, triple) =>
            if c = quote then
              if !triple then fieldSource fuel { st with quote := none } rest (c :: acc)
              else if [c, c].isPrefixOf rest then
                fieldSource fuel { st with quote := none } (rest.drop 2) (c :: c :: c :: acc)
              else fieldSource fuel st rest (c :: acc)
            else fieldSource fuel st rest (c :: acc)
        | none =>
            if isQuote c then
              if [c, c].isPrefixOf rest then
                fieldSource fuel { st with quote := some (c, true) } (rest.drop 2)
                  (c :: c :: c :: acc)
              else fieldSource fuel { st with quote := some (c, false) } rest (c :: acc)
            else match closing? c with
              | some close =>
                  if st.pending.length < maxBrackets then
                    fieldSource fuel { st with pending := close :: st.pending } rest (c :: acc)
                  else none
              | none =>
                  if c = '#' then none
                  else if st.pending.isEmpty && (c = '!' || c = '=' || c = '<' || c = '>') &&
                      rest.head? = some '=' then
                    fieldSource fuel st (rest.drop 1) ('=' :: c :: acc)
                  else if st.pending.isEmpty &&
                    (c = '!' || c = ':' || c = Char.ofNat 125 || c = '=') then
                    some (acc.reverse, c :: rest)
                  else if isClosing c then
                    match st.pending with
                    | close :: others =>
                        if c = close then fieldSource fuel { st with pending := others } rest
                          (c :: acc)
                        else none
                    | [] => none
                  else fieldSource fuel st rest (c :: acc)

def isFieldBlank (c : Char) : Bool := c = ' ' || c = '\t' || c = '\n' || c.toNat = 12

/-- Blanks that may follow the equals sign of a field that shows its own source. -/
def isAsciiBlank (c : Char) : Bool := c = ' ' || (9 ≤ c.toNat && c.toNat ≤ 13)

def conversion? : List Char → Option (Option Conversion × List Char)
  | '!' :: 's' :: rest => some (some .display, rest)
  | '!' :: 'r' :: rest => some (some .literal, rest)
  | '!' :: 'a' :: rest => some (some .ascii, rest)
  | '!' :: _ => none
  | rest => some (none, rest)

/-- A part of a formatted text: literal characters or a value. -/
inductive Piece where
  | literal (chars : List Char)
  | value (e : Expr)

end EffectTree.Expression
