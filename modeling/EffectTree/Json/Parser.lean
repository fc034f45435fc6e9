import EffectTree.Fault
import EffectTree.Number.Reading
import EffectTree.Value.Numbering

/-!
# Reading JSON

A document is one value between blanks. Integers may have any size, `NaN` and the infinities are
read as doubles, and of two members with one name the later value stays at the earlier place. Every
thing in a document is marked by its place. Every failure names its line, column and offset.
-/

namespace EffectTree.Json

/-- What is left of a document and how many characters were read before it. -/
structure Cursor where
  offset : Nat
  rest : List Char

structure Problem where
  text : String
  offset : Nat

abbrev Reader (α : Type) := Except Problem (α × Cursor)

namespace Cursor

def advance (c : Cursor) (n : Nat) : Cursor := ⟨c.offset + n, c.rest.drop n⟩

def isBlank (c : Char) : Bool := c = ' ' || c = '\t' || c = '\n' || c = '\r'

def skipBlanks (c : Cursor) : Cursor := c.advance (c.rest.takeWhile isBlank).length

def fail {α : Type} (c : Cursor) (text : String) : Except Problem α := .error ⟨text, c.offset⟩

end Cursor

def expectingValue : String := "Expecting value"

def hexValue? (c : Char) : Option Nat :=
  if c.isDigit then some (c.toNat - 48)
  else if 'a' ≤ c && c ≤ 'f' then some (c.toNat - 87)
  else if 'A' ≤ c && c ≤ 'F' then some (c.toNat - 55)
  else none

/-- The value of four hexadecimal digits that some further character follows. -/
def hexQuad? : List Char → Option Nat
  | a :: b :: c :: d :: _ :: _ => do
      let a ← hexValue? a
      let b ← hexValue? b
      let c ← hexValue? c
      let d ← hexValue? d
      some (((a * 16 + b) * 16 + c) * 16 + d)
  | _ => none

def simpleEscape? : Char → Option Char
  | '"' => some '"'
  | '\\' => some '\\'
  | '/' => some '/'
  | 'b' => some (Char.ofNat 8)
  | 'f' => some (Char.ofNat 12)
  | 'n' => some '\n'
  | 'r' => some '\r'
  | 't' => some '\t'
  | _ => none

/-- The escape after `\u`: a character and the number of characters it takes, the four digits and
possibly a second escape that completes a pair. -/
def unicodeEscape (first : Nat) (after : List Char) : Except Nat (Char × Nat) :=
  if Text.isHighSurrogate first then
    match after with
    | '\\' :: 'u' :: more =>
        match more with
        | _ :: _ :: _ :: _ :: _ :: _ =>
            match hexQuad? more with
            | some second =>
                if Text.isLowSurrogate second then
                  .ok (Char.ofNat (Text.pairPoint first second), 10)
                else .ok (Text.charOf first, 4)
            | none => .error 5
        | _ => .ok (Text.charOf first, 4)
    | _ => .ok (Text.charOf first, 4)
  else .ok (Text.charOf first, 4)

/-- The characters of a text up to its closing quote; `start` is the offset of the opening one and
the fuel is the length of the document. -/
def readChars (start : Nat) : Nat → Cursor → List Char → Reader String
  | 0, _, _ => .error ⟨"Unterminated string starting at", start⟩
  | fuel + 1, cur, acc =>
      match cur.rest with
      | [] => .error ⟨"Unterminated string starting at", start⟩
      | '"' :: _ => .ok (String.ofList acc.reverse, cur.advance 1)
      | ['\\'] => .error ⟨"Unterminated string starting at", start⟩
      | '\\' :: 'u' :: more =>
          match hexQuad? more with
          | none => (cur.advance 1).fail "Invalid \\uXXXX escape"
          | some first =>
              match unicodeEscape first (more.drop 4) with
              | .ok (c, size) => readChars start fuel (cur.advance (2 + size)) (c :: acc)
              | .error shift => (cur.advance (2 + shift)).fail "Invalid \\uXXXX escape"
      | '\\' :: c :: _ =>
          match simpleEscape? c with
          | some e => readChars start fuel (cur.advance 2) (e :: acc)
          | none => cur.fail "Invalid \\escape"
      | c :: _ =>
          if c.toNat ≤ 0x1f then cur.fail "Invalid control character at"
          else readChars start fuel (cur.advance 1) (c :: acc)

def readString (cur : Cursor) : Reader String :=
  readChars cur.offset (cur.rest.length + 1) (cur.advance 1) []

/-- The exponent of a number: its characters, or none if no digit follows the mark. -/
def exponentChars : List Char → List Char
  | c :: rest =>
      if c = 'e' || c = 'E' then
        let (sign, rest) := match rest with
          | '-' :: more => (['-'], more)
          | '+' :: more => (['+'], more)
          | more => ([], more)
        let digits := rest.takeWhile Char.isDigit
        if digits.isEmpty then [] else c :: sign ++ digits
      else []
  | [] => []

/-- The characters of the fraction of a number: a point and at least one digit. -/
def fractionChars : List Char → List Char
  | '.' :: rest =>
      let digits := rest.takeWhile Char.isDigit
      if digits.isEmpty then [] else '.' :: digits
  | _ => []

/-- The digits before the point: a lone zero or digits that do not start with one. -/
def wholeChars : List Char → List Char
  | '0' :: _ => ['0']
  | cs => cs.takeWhile Char.isDigit

def readNumber (cur : Cursor) : Reader Value :=
  let negative := cur.rest.head? = some '-'
  let sign := if negative then ['-'] else []
  let body := cur.rest.drop sign.length
  let whole := wholeChars body
  if whole.isEmpty then cur.fail expectingValue
  else
    let body := body.drop whole.length
    let part := fractionChars body
    let exponent := exponentChars (body.drop part.length)
    let size := sign.length + whole.length + part.length + exponent.length
    if part.isEmpty && exponent.isEmpty then
      let n : Int := Number.digitsValue whole
      .ok (.ofInt (if negative then -n else n), cur.advance size)
    else
      let text := String.ofList (sign ++ whole ++ part ++ exponent)
      match Number.readFloat? text with
      | some x => .ok (.ofFloat x, cur.advance size)
      | none => cur.fail expectingValue

def word? (cur : Cursor) : Option (Value × Cursor) :=
  let words : List (String × Value) :=
    [("null", .null), ("true", .bool true), ("false", .bool false),
     ("NaN", .float Number.Binary64.notANumber .sole),
     ("Infinity", .float (Number.Binary64.infinity false) .sole),
     ("-Infinity", .float (Number.Binary64.infinity true) .sole)]
  words.findSome? fun (word, value) =>
    if word.toList.isPrefixOf cur.rest then some (value, cur.advance word.length) else none

mutual

def readValue : Nat → Cursor → Reader Value
  | 0, cur => cur.fail expectingValue
  | fuel + 1, cur =>
      match cur.rest with
      | '"' :: _ => (readString cur).map fun (s, next) => (.ofStr s, next)
      | '\x7b' :: _ =>
          let inside := (cur.advance 1).skipBlanks
          match inside.rest with
          | '\x7d' :: _ => .ok (.ofDict [], inside.advance 1)
          | _ => readMembers fuel inside []
      | '[' :: _ =>
          let inside := (cur.advance 1).skipBlanks
          match inside.rest with
          | ']' :: _ => .ok (.ofList [], inside.advance 1)
          | _ => readItems fuel inside []
      | _ => match word? cur with
          | some found => .ok found
          | none => readNumber cur

def readMembers : Nat → Cursor → List (Value × Value) → Reader Value
  | 0, cur, _ => cur.fail expectingValue
  | fuel + 1, cur, acc =>
      match cur.rest with
      | '"' :: _ =>
          match readString cur with
          | .error e => .error e
          | .ok (name, next) =>
              let colon := next.skipBlanks
              match colon.rest with
              | ':' :: _ =>
                  match readValue fuel (colon.advance 1).skipBlanks with
                  | .error e => .error e
                  | .ok (value, next) =>
                      let next := next.skipBlanks
                      let acc := Value.insertEntry (.ofKey name) value acc
                      match next.rest with
                      | '\x7d' :: _ => .ok (.ofDict acc, next.advance 1)
                      | ',' :: _ => readMembers fuel (next.advance 1).skipBlanks acc
                      | _ => next.fail "Expecting ',' delimiter"
              | _ => colon.fail "Expecting ':' delimiter"
      | _ => cur.fail "Expecting property name enclosed in double quotes"

/-- The items of an array from a value on, collected in reverse. -/
def readItems : Nat → Cursor → List Value → Reader Value
  | 0, cur, _ => cur.fail expectingValue
  | fuel + 1, cur, acc =>
      match readValue fuel cur with
      | .error e => .error e
      | .ok (value, next) =>
          let next := next.skipBlanks
          match next.rest with
          | ']' :: _ => .ok (.ofList (value :: acc).reverse, next.advance 1)
          | ',' :: _ => readItems fuel (next.advance 1).skipBlanks (value :: acc)
          | _ => next.fail "Expecting ',' delimiter"

end

/-- The line and column of an offset, both counted from one. -/
def position (chars : List Char) (offset : Nat) : Nat × Nat :=
  let before := chars.take offset
  let line := before.count '\n' + 1
  let column := (before.reverse.takeWhile (· ≠ '\n')).length + 1
  (line, column)

def Problem.message (p : Problem) (chars : List Char) : String :=
  let (line, column) := position chars p.offset
  p.text ++ ": line " ++ toString line ++ " column " ++ toString column ++ " (char " ++
    toString p.offset ++ ")"

def readDocument (chars : List Char) : Except Problem Value :=
  if chars.head? = some (Char.ofNat 0xFEFF) then
    .error ⟨"Unexpected UTF-8 BOM (decode using utf-8-sig)", 0⟩
  else
    match readValue (2 * chars.length + 2) (Cursor.skipBlanks ⟨0, chars⟩) with
    | .error e => .error e
    | .ok (value, next) =>
        let next := next.skipBlanks
        if next.rest.isEmpty then .ok value else next.fail "Extra data"

/-- Reads a document; a refusal is a fault with the position in its message. -/
def parse (s : String) : Except Fault Value :=
  match readDocument s.toList with
  | .ok v => .ok (v.number .placed 0).1
  | .error p => .error (.json (p.message s.toList))

end EffectTree.Json
