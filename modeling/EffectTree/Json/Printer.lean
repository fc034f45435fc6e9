import EffectTree.Fault

/-!
# Writing JSON

Values in one line, with a blank after commas and colons and every character outside of printable
ASCII escaped. Keys that are numbers, truth values or null become texts; other values have no JSON
form.
-/

namespace EffectTree.Json

open Number Text

def unitEscape (n : Nat) : List Char := '\\' :: 'u' :: hexDigits 4 n

def escapedChar (c : Char) : List Char :=
  if c = '"' then ['\\', '"']
  else if c = '\\' then ['\\', '\\']
  else if c = '\n' then ['\\', 'n']
  else if c = '\r' then ['\\', 'r']
  else if c = '\t' then ['\\', 't']
  else if c.toNat = 8 then ['\\', 'b']
  else if c.toNat = 12 then ['\\', 'f']
  else if 32 ≤ c.toNat && c.toNat ≤ 126 then [c]
  else if pointOf c < 0x10000 then unitEscape (pointOf c)
  else
    let n := c.toNat - 0x10000
    unitEscape (0xD800 + n / 0x400) ++ unitEscape (0xDC00 + n % 0x400)

def stringText (s : String) : String :=
  String.ofList ('"' :: s.toList.flatMap escapedChar ++ ['"'])

def doubleText (x : Float) : String :=
  match Binary64.ofFloat x with
  | .nan => "NaN"
  | .infinite negative => if negative then "-Infinity" else "Infinity"
  | .finite .. => floatText x

def keyText : Value → Except Fault String
  | .str s _ => .ok s
  | .null => .ok "null"
  | .bool b => .ok (if b then "true" else "false")
  | .int i _ => .ok (intText i)
  | .float x _ => .ok (doubleText x)
  | v => .error (.mismatch ("keys must be str, int, float, bool or None, not " ++ v.typeName))

mutual

def print : Value → Except Fault String
  | .null => .ok "null"
  | .bool b => .ok (if b then "true" else "false")
  | .int i _ => .ok (intText i)
  | .float x _ => .ok (doubleText x)
  | .str s _ => .ok (stringText s)
  | .list xs _ => (printItems xs).map fun texts => "[" ++ ", ".intercalate texts ++ "]"
  | .tuple xs _ => (printItems xs).map fun texts => "[" ++ ", ".intercalate texts ++ "]"
  | .dict es _ => (printEntries es).map fun texts => "\x7b" ++ ", ".intercalate texts ++ "\x7d"
  | v => .error (.mismatch ("Object of type " ++ v.typeName ++ " is not JSON serializable"))

def printItems : List Value → Except Fault (List String)
  | [] => .ok []
  | x :: xs =>
      match print x with
      | .error e => .error e
      | .ok text => (printItems xs).map (text :: ·)

def printEntries : List (Value × Value) → Except Fault (List String)
  | [] => .ok []
  | (k, v) :: rest =>
      match keyText k with
      | .error e => .error e
      | .ok name =>
          match print v with
          | .error e => .error e
          | .ok text => (printEntries rest).map ((stringText name ++ ": " ++ text) :: ·)

end

end EffectTree.Json
