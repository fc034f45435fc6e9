import EffectTree.Text.Utf8

/-!
# Encodings

Octets as text in an encoding that is given by name, with a choice of what becomes of ill-formed
parts.
-/

namespace EffectTree.Text

inductive Encoding where
  | utf8
  | ascii
  | latin1
  | utf16 (bigEndian : Bool)
  deriving DecidableEq, Repr

/-- One decoded character or one ill-formed part, with the number of octets it takes. -/
inductive Decoded where
  | char (c : Char) (size : Nat)
  | bad (reason : String) (size : Nat)

namespace Encoding

def name : Encoding → String
  | utf8 => "utf-8"
  | ascii => "ascii"
  | latin1 => "latin-1"
  | utf16 bigEndian => if bigEndian then "utf-16-be" else "utf-16-le"

def unit (bigEndian : Bool) (a b : UInt8) : Nat :=
  if bigEndian then a.toNat * 256 + b.toNat else b.toNat * 256 + a.toNat

/-- A unit outside of the surrogates is a character, and two surrogates in order are one. -/
def readUnits (bigEndian : Bool) (a b : UInt8) (rest : List UInt8) : Decoded :=
  let high := unit bigEndian a b
  if !isSurrogate high then .char (Char.ofNat high) 2
  else if isLowSurrogate high then .bad "illegal encoding" 2
  else match rest with
    | c :: d :: _ =>
        let low := unit bigEndian c d
        if isLowSurrogate low then .char (Char.ofNat (pairPoint high low)) 4
        else .bad "illegal UTF-16 surrogate" 2
    | rest => .bad "unexpected end of data" (2 + rest.length)

def read (e : Encoding) (b : UInt8) (rest : List UInt8) : Decoded :=
  match e with
  | utf8 => match readChar b rest with
      | .char c size => .char c size
      | .bad problem size => .bad problem.text size
  | ascii =>
    if b.toNat < 128 then .char (Char.ofNat b.toNat) 1 else .bad "ordinal not in range(128)" 1
  | latin1 => .char (Char.ofNat b.toNat) 1
  | utf16 bigEndian => match rest with
      | [] => .bad "truncated data" 1
      | c :: more => readUnits bigEndian b c more

end Encoding

/-- A name in lower case, with one underscore for each run of other signs inside. -/
def encodingKey (name : String) : String :=
  let step := fun (acc : List Char × Bool) (c : Char) =>
    if c.isAlphanum || c = '.' then
      (c.toLower :: (if acc.2 && !acc.1.isEmpty then '_' :: acc.1 else acc.1), false)
    else (acc.1, true)
  String.ofList (name.toList.foldl step ([], false)).1.reverse

def utf8Names : List String := ["utf_8", "utf8", "u8", "utf", "cp65001", "utf8_ucs2", "utf8_ucs4"]

def asciiNames : List String :=
  ["ascii", "us_ascii", "646", "ansi_x3.4_1968", "ansi_x3_4_1968", "ansi_x3.4_1986", "cp367",
    "csascii",
   "ibm367", "iso646_us", "iso_646.irv_1991", "iso_ir_6", "us"]

def latin1Names : List String :=
  ["latin_1", "latin1", "latin", "l1", "iso_8859_1", "iso8859_1", "iso8859", "8859", "cp819",
    "csisolatin1",
   "ibm819", "iso_8859_1_1987", "iso_ir_100"]

/-- The encoding of a name, and the octets after a mark of their order. -/
def encodingOf? (name : String) (bs : List UInt8) : Option (Encoding × List UInt8) :=
  let key := encodingKey name
  if utf8Names.contains key then some (.utf8, bs)
  else if key = "utf_8_sig" then
    some (.utf8, if [0xEF, 0xBB, 0xBF].isPrefixOf bs then bs.drop 3 else bs)
  else if asciiNames.contains key then some (.ascii, bs)
  else if latin1Names.contains key then some (.latin1, bs)
  else if ["utf_16", "utf16", "u16"].contains key then
    if [0xFE, 0xFF].isPrefixOf bs then some (.utf16 true, bs.drop 2)
    else some (.utf16 false, if [0xFF, 0xFE].isPrefixOf bs then bs.drop 2 else bs)
  else if ["utf_16_le", "utf_16le"].contains key then some (.utf16 false, bs)
  else if ["utf_16_be", "utf_16be"].contains key then some (.utf16 true, bs)
  else none

/-- Why octets cannot be decoded. -/
inductive EncodingProblem where
  | unknownEncoding (name : String)
  | unknownHandling (name : String)
  | unsuitedHandling
  | illFormed (encoding : Encoding) (reason : String) (position : Nat) (octets : List UInt8)

def EncodingProblem.message : EncodingProblem → String
  | unknownEncoding name => "unknown encoding: " ++ name
  | unknownHandling name => "unknown error handler name '" ++ name ++ "'"
  | unsuitedHandling => "don't know how to handle UnicodeDecodeError in error callback"
  | illFormed encoding reason position octets =>
      "'" ++ encoding.name ++ "' codec can't decode " ++
        (match octets with
          | [b] => "byte " ++ octetText b ++ " in position " ++ toString position
          | bs =>
            "bytes in position " ++ toString position ++ "-" ++
              toString (position + bs.length - 1)) ++
        ": " ++ reason

/-- The half of a pair that octets would stand for if halves were allowed, and how many octets it
takes. -/
def readHalf? (e : Encoding) (octets : List UInt8) : Option (Char × Nat) :=
  match e, octets with
  | .utf8, a :: b :: c :: _ =>
      let point := (a.toNat - 0xE0) * 0x1000 + (b.toNat - 0x80) * 0x40 + (c.toNat - 0x80)
      if a = 0xED && isTail b.toNat && isTail c.toNat && isSurrogate point then
        some (charOf point, 3)
      else none
  | .utf16 bigEndian, a :: b :: _ =>
      let point := Encoding.unit bigEndian a b
      if isSurrogate point then some (charOf point, 2) else none
  | _, _ => none

/-- The characters in place of an ill-formed part of some size, which the given octets start with,
and how many octets they take, if it can be handled in the named way. -/
def handled (e : Encoding) (handling : String) (octets : List UInt8) (size : Nat) :
    Except (Option EncodingProblem) (List Char × Nat) :=
  let part := octets.take size
  match handling with
  | "strict" => .error none
  | "surrogateescape" =>
      match (part.take 4).takeWhile (128 ≤ ·.toNat) with
      | [] => .error none
      | escaped => .ok (escaped.map fun b => charOf (0xDC00 + b.toNat), escaped.length)
  | "surrogatepass" => match readHalf? e octets with
      | some (c, taken) => .ok ([c], taken)
      | none => .error none
  | "ignore" => .ok ([], size)
  | "replace" => .ok ([Char.ofNat 0xFFFD], size)
  | "backslashreplace" => .ok (part.flatMap fun b => '\\' :: 'x' :: hexDigits 2 b.toNat, size)
  | "xmlcharrefreplace" | "namereplace" => .error (some .unsuitedHandling)
  | name => .error (some (.unknownHandling name))

/-- Decoding from a position on; the fuel is the number of octets. -/
def decodeFrom (e : Encoding) (handling : String) :
    Nat → Nat → List UInt8 → List Char → Except EncodingProblem (List Char)
  | 0, _, _, acc => .ok acc.reverse
  | _ + 1, _, [], acc => .ok acc.reverse
  | fuel + 1, position, b :: rest, acc =>
      match e.read b rest with
      | .char c size =>
        decodeFrom e handling fuel (position + size) (rest.drop (size - 1)) (c :: acc)
      | .bad reason size =>
          match handled e handling (b :: rest) size with
          | .ok (cs, taken) =>
              decodeFrom e handling fuel (position + taken) (rest.drop (taken - 1))
                (cs.reverse ++ acc)
          | .error (some problem) => .error problem
          | .error none => .error (.illFormed e reason position ((b :: rest).take size))

/-- The text of octets in a named encoding. No octets are no text in any encoding. -/
def decodeNamed (encoding handling : String) (bs : List UInt8) : Except EncodingProblem String :=
  if bs.isEmpty then .ok ""
  else match encodingOf? encoding bs with
    | none => .error (.unknownEncoding encoding)
    | some (e, rest) =>
        (decodeFrom e handling rest.length (bs.length - rest.length) rest []).map String.ofList

end EffectTree.Text
