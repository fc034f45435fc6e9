import EffectTree.Text.Quoted

/-!
# UTF-8

Decoding of octets into text, either strictly with a report of the first ill-formed sequence or with
U+FFFD for each maximal ill-formed part. Halves of pairs have no octets.
-/

namespace EffectTree.Text

/-- Why octets are not UTF-8. -/
inductive Utf8Problem where
  | invalidStart
  | invalidContinuation
  | unexpectedEnd
  deriving DecidableEq, Repr

def Utf8Problem.text : Utf8Problem → String
  | .invalidStart => "invalid start byte"
  | .invalidContinuation => "invalid continuation byte"
  | .unexpectedEnd => "unexpected end of data"

/-- One decoded character or one ill-formed part, with the number of octets it takes. -/
inductive Utf8Step where
  | char (c : Char) (size : Nat)
  | bad (problem : Utf8Problem) (size : Nat)

def isTail (b : Nat) : Bool := 0x80 ≤ b && b ≤ 0xBF

def secondRange (lead : Nat) : Nat × Nat :=
  if lead = 0xE0 then (0xA0, 0xBF)
  else if lead = 0xED then (0x80, 0x9F)
  else if lead = 0xF0 then (0x90, 0xBF)
  else if lead = 0xF4 then (0x80, 0x8F)
  else (0x80, 0xBF)

/-- Reads the remaining `count` tail octets of a character that has taken `size` octets so far. -/
def readTails : Nat → Nat → Nat → List UInt8 → Utf8Step
  | 0, acc, size, _ => .char (Char.ofNat acc) size
  | _ + 1, _, size, [] => .bad .unexpectedEnd size
  | count + 1, acc, size, b :: rest =>
      if isTail b.toNat then readTails count (acc * 64 + (b.toNat - 0x80)) (size + 1) rest
      else .bad .invalidContinuation size

def readChar (lead : UInt8) (rest : List UInt8) : Utf8Step :=
  let a := lead.toNat
  if a < 0x80 then .char (Char.ofNat a) 1
  else if a < 0xC2 || 0xF4 < a then .bad .invalidStart 1
  else
    let (low, high) := secondRange a
    match rest with
    | [] => .bad .unexpectedEnd 1
    | b :: more =>
        if b.toNat < low || high < b.toNat then .bad .invalidContinuation 1
        else if a < 0xE0 then readTails 0 ((a - 0xC0) * 64 + (b.toNat - 0x80)) 2 more
        else if a < 0xF0 then readTails 1 ((a - 0xE0) * 64 + (b.toNat - 0x80)) 2 more
        else readTails 2 ((a - 0xF0) * 64 + (b.toNat - 0x80)) 2 more

structure Utf8Error where
  problem : Utf8Problem
  position : Nat
  octets : List UInt8

def octetText (b : UInt8) : String := "0x" ++ String.ofList (hexDigits 2 b.toNat)

/-- What is wrong with the octets, and where. -/
def Utf8Error.message (e : Utf8Error) : String :=
  "'utf-8' codec can't decode " ++
    (match e.octets with
      | [b] => "byte " ++ octetText b ++ " in position " ++ toString e.position
      | bs => "bytes in position " ++ toString e.position ++ "-" ++
          toString (e.position + bs.length - 1)) ++
    ": " ++ e.problem.text

/-- Strict decoding; the fuel is the number of octets. -/
def decodeStrict : Nat → Nat → List UInt8 → List Char → Except Utf8Error (List Char)
  | 0, _, _, acc => .ok acc.reverse
  | _ + 1, _, [], acc => .ok acc.reverse
  | fuel + 1, position, b :: rest, acc =>
      match readChar b rest with
      | .char c size => decodeStrict fuel (position + size) (rest.drop (size - 1)) (c :: acc)
      | .bad problem size => .error ⟨problem, position, (b :: rest).take size⟩

/-- Decoding with U+FFFD for each ill-formed part. -/
def decodeLossy : Nat → List UInt8 → List Char → List Char
  | 0, _, acc => acc.reverse
  | _ + 1, [], acc => acc.reverse
  | fuel + 1, b :: rest, acc =>
      match readChar b rest with
      | .char c size => decodeLossy fuel (rest.drop (size - 1)) (c :: acc)
      | .bad _ size => decodeLossy fuel (rest.drop (size - 1)) (Char.ofNat 0xFFFD :: acc)

def utf8Decode (bytes : List UInt8) : Except Utf8Error String :=
  (decodeStrict bytes.length 0 bytes []).map String.ofList

def utf8DecodeLossy (bytes : List UInt8) : String :=
  String.ofList (decodeLossy bytes.length bytes [])

def utf8Encode (s : String) : List UInt8 := s.toUTF8.toList

/-- Why characters cannot be encoded, if there is a half of a pair among them that has to be. -/
def unencodableChars? (isPassed : Char → Bool) (cs : List Char) : Option String :=
  let isEncoded := fun c => !isHalf c || isPassed c
  match cs.dropWhile isEncoded with
  | [] => none
  | c :: rest =>
      let first := (cs.takeWhile isEncoded).length
      let more := (rest.takeWhile isHalf).length
      some ("'utf-8' codec can't encode " ++
        (if more = 0 then
          "character '\\u" ++ String.ofList (hexDigits 4 (pointOf c)) ++ "' in position " ++
            toString first
        else "characters in position " ++ toString first ++ "-" ++ toString (first + more)) ++
        ": surrogates not allowed")

/-- Why a text cannot be encoded. -/
def unencodable? (s : String) : Option String := unencodableChars? (fun _ => false) s.toList

/-- Why the path of a file cannot be encoded. Some low halves stand for octets in paths. -/
def unencodablePath? (s : String) : Option String :=
  unencodableChars? (fun c => 0xDC80 ≤ pointOf c && pointOf c ≤ 0xDCFF) s.toList

end EffectTree.Text
