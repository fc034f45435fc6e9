import EffectTree.Value.Format

/-!
# Percent formatting

A text with conversions such as `%5.2f`, filled from a tuple, from the entries of a mapping or from
one value. Octets are formatted in the same way, as characters below 256, with conversions of their
own.
-/

namespace EffectTree.Value

open Number

structure Conversion where
  left : Bool := false
  plus : Bool := false
  blank : Bool := false
  alternate : Bool := false
  zero : Bool := false
  width : Nat := 0
  precision : Option Nat := none

/-- The arguments not yet used: the items of a tuple, or a single value that can be used once. -/
structure Arguments where
  pending : List Value
  mapping : Option Value

def Arguments.next (args : Arguments) : Except Fault (Value × Arguments) :=
  match args.pending with
  | v :: rest => .ok (v, { args with pending := rest })
  | [] => .error (.mismatch "not enough arguments for format string")

def Arguments.ofValue (isMapping : Value → Bool) : Value → Arguments
  | tuple xs _ => ⟨xs, none⟩
  | v => ⟨[v], if isMapping v then some v else none⟩

/-- What is formatted: how complaints name it, where entries are asked for by which keys, and how an
argument is written by a conversion, given the type of the conversion and its place. -/
structure PercentStyle where
  noun : String
  precision : String
  isMapping : Value → Bool
  key : String → Value
  apply : Conversion → Char → Nat → Value → Except Fault Value

def asciiText (s : String) : String :=
  String.ofList (s.toList.flatMap fun c =>
    if c.toNat < 128 then [c]
    else if c.toNat < 0x100 then '\\' :: 'x' :: Text.hexDigits 2 c.toNat
    else if Text.pointOf c < 0x10000 then '\\' :: 'u' :: Text.hexDigits 4 (Text.pointOf c)
    else '\\' :: 'U' :: Text.hexDigits 8 c.toNat)

def conversionInt (type : Char) (v : Value) : Except Fault Int :=
  let name := String.singleton type
  match v with
  | float x _ =>
      if type = 'x' || type = 'X' || type = 'o' then
        .error (.mismatch ("%" ++ name ++ " format: an integer is required, not float"))
      else match Binary64.truncate? x with
        | some i => .ok i
        | none =>
            if x.isNaN then .error (.invalid "cannot convert float NaN to integer")
            else .error (.overflow "cannot convert float infinity to integer")
  | v => match v.integer? with
      | some i => .ok i
      | none =>
          if type = 'x' || type = 'X' || type = 'o' then
            .error (.mismatch
              ("%" ++ name ++ " format: an integer is required, not " ++ v.typeName))
          else
            .error (.mismatch
              ("%" ++ name ++ " format: a real number is required, not " ++ v.typeName))

def Conversion.layout (c : Conversion) (negative : Bool) (mark body : String) : String :=
  let sign := if negative then "-" else if c.plus then "+" else if c.blank then " " else ""
  let used := sign.length + mark.length + body.length
  if c.left then sign ++ mark ++ body ++ fillText ' ' (c.width - used)
  else if c.zero then sign ++ mark ++ zeros (c.width - used) ++ body
  else fillText ' ' (c.width - used) ++ sign ++ mark ++ body

def Conversion.text (c : Conversion) (s : String) : String :=
  let s := match c.precision with
    | some p => String.ofList (s.toList.take p)
    | none => s
  padText ' ' (if c.left then .left else .right) c.width s

def Conversion.int (c : Conversion) (type : Char) (i : Int) : String :=
  let (mark, digits) := match type with
    | 'o' => ("0o", natDigits 8 i.natAbs)
    | 'x' => ("0x", natDigits 16 i.natAbs)
    | 'X' => ("0X", upperAscii (natDigits 16 i.natAbs))
    | _ => ("", natText i.natAbs)
  let digits := zeros (c.precision.getD 0 - digits.length) ++ digits
  c.layout (i < 0) (if c.alternate then mark else "") digits

def Conversion.float (c : Conversion) (type : Char) (x : Float) : String :=
  let body := floatBody type.toLower c.precision c.alternate x
  c.layout (Binary64.isNegative x && !x.isNaN) "" (if type.isUpper then upperAscii body else body)

/-- A text laid out by a conversion; one that needs no change is itself. -/
def Conversion.laid (c : Conversion) (v : Value) : Value :=
  let text := c.text v.display
  if text = v.display then v else ofStr text

/-- Writes one argument by a conversion; `index` is the place of the type in the text. -/
def Conversion.apply (c : Conversion) (type : Char) (index : Nat) (v : Value) :
    Except Fault Value := do
  if type = 's' || type = 'r' then
    match v with
    | .int .. => return ofStr (c.text v.shown)
    | v => return c.laid (if type = 's' then v.text else v.literalText)
  else if type = 'a' then return ofStr (c.text (asciiText v.shown))
  else if "diuoxX".contains type then
    let i ← conversionInt type v
    return ofStr (c.int type i)
  else if "eEfFgG".contains type then
    match v.real? with
    | some r => return ofStr (c.float type (← r.toDouble))
    | none => throw (.mismatch ("must be real number, not " ++ v.typeName))
  else if type = 'c' then
    match v with
    | .str s _ =>
        if s.length = 1 then return ofStr (c.text s)
          else throw (.mismatch "%c requires int or char")
    | v => match v.integer? with
        | some i =>
            if i < 0 || 0x10FFFF < i then throw (.overflow "%c arg not in range(0x110000)")
            else return ofStr ({ c with precision := none }.text
              (String.singleton (Text.charOf i.toNat)))
        | none => throw (.mismatch "%c requires int or char")
  else
    let code := natDigits 16 (Text.pointOf type)
    let shownType := if 31 ≤ type.toNat && type.toNat < 128 then String.singleton type else "?"
    throw (.invalid ("unsupported format character '" ++ shownType ++ "' (0x" ++ code ++
      ") at index " ++ natText index))

def octetOf (v : Value) : Except Fault Nat :=
  let refused : Except Fault Nat :=
    .error (.mismatch "%c requires an integer in range(256) or a single byte")
  match v with
  | bytes [b] _ => .ok b.toNat
  | v => match v.integer? with
      | some i =>
        if 0 ≤ i && i < 256 then .ok i.toNat else .error (.overflow "%c arg not in range(256)")
      | none => refused

def Conversion.applyOctets (c : Conversion) (type : Char) (index : Nat) (v : Value) :
    Except Fault Value := do
  if type = 's' || type = 'b' then
    match v with
    | .bytes bs _ => return newStr (c.text (String.ofList (bs.map fun b => Char.ofNat b.toNat)))
    | v =>
      throw (.mismatch
        ("%b requires a bytes-like object, or an object that implements __bytes__, not '" ++
          v.typeName ++ "'"))
  else if type = 'r' || type = 'a' then return newStr (c.text (asciiText v.shown))
  else if "diuoxX".contains type then
    let i ← conversionInt type v
    return newStr (c.int type i)
  else if "eEfFgG".contains type then
    match v.real?.map Real.toDouble with
    | some (.ok x) => return newStr (c.float type x)
    | _ => throw (.mismatch ("float argument required, not " ++ v.typeName))
  else if type = 'c' then
    let n ← octetOf v
    return newStr ({ c with precision := none }.text (String.singleton (Char.ofNat n)))
  else if 128 ≤ type.toNat then throw (.overflow "character argument not in range(0x110000)")
  else throw (.invalid ("unsupported format character '" ++ String.singleton type ++ "' (0x" ++
    natDigits 16 type.toNat ++ ") at index " ++ natText index))

/-- Texts are filled also from octets, which are no mapping but can be asked for entries. -/
def textStyle : PercentStyle where
  noun := "string"
  precision := "precision"
  isMapping
    | .list .. | .dict .. | .bytes .. => true
    | _ => false
  key := ofStr
  apply := Conversion.apply

def octetStyle : PercentStyle where
  noun := "bytes"
  precision := "prec"
  isMapping
    | .list .. | .dict .. => true
    | _ => false
  key s := ofBytes (s.toList.map fun c => c.toNat.toUInt8)
  apply := Conversion.applyOctets

def takeFlags (c : Conversion) : List Char → Conversion × List Char
  | '-' :: rest => takeFlags { c with left := true } rest
  | '+' :: rest => takeFlags { c with plus := true } rest
  | ' ' :: rest => takeFlags { c with blank := true } rest
  | '#' :: rest => takeFlags { c with alternate := true } rest
  | '0' :: rest => takeFlags { c with zero := true } rest
  | rest => (c, rest)

/-- The largest size of a conversion, and what it has to fit into. -/
structure SizeLimit where
  name : String
  most : Int
  word : String

/-- A size of a conversion: digits, or a star that takes it from the arguments. -/
def takeSize (limit : SizeLimit) (args : Arguments) :
    List Char → Except Fault (Option Int × Arguments × List Char)
  | '*' :: rest => do
      let (v, args) ← args.next
      match v.integer? with
      | some i =>
          if i < -limit.most - 1 || limit.most < i then
            throw (.overflow ("Python int too large to convert to C " ++ limit.word))
          return (some i, args, rest)
      | none => throw (.mismatch "* wants int")
  | cs => do
      let digits := cs.takeWhile Char.isDigit
      if digits.isEmpty then return (none, args, cs)
      let size : Int := digits.foldl (fun acc c => acc * 10 + (c.toNat - 48)) 0
      if limit.most < size then throw (.invalid (limit.name ++ " too big"))
      return (some size, args, cs.drop digits.length)

def takeKey : Nat → List Char → List Char → Option (List Char × List Char)
  | _, _, [] => none
  | depth, acc, ')' :: rest =>
      if depth = 0 then some (acc.reverse, rest) else takeKey (depth - 1) (')' :: acc) rest
  | depth, acc, '(' :: rest => takeKey (depth + 1) ('(' :: acc) rest
  | depth, acc, c :: rest => takeKey depth (c :: acc) rest

def keyedArgument (mapping key : Value) : Except Fault Value := do
  match ← itemAt mapping key with
  | some v => return v
  | none => throw (.missingKey key)

/-- The arguments of a conversion: one that starts with a key has only the entry under it. -/
def takeArguments (style : PercentStyle) (args : Arguments) :
    List Char → Except Fault (Arguments × List Char)
  | '(' :: more =>
      match args.mapping with
      | none => .error (.mismatch "format requires a mapping")
      | some mapping =>
          match takeKey 0 [] more with
          | none => .error (.invalid "incomplete format key")
          | some (key, rest) => do
              let v ← keyedArgument mapping (style.key (String.ofList key))
              return ({ args with pending := [v] }, rest)
  | cs => .ok (args, cs)

def takePrecision (style : PercentStyle) (args : Arguments) :
    List Char → Except Fault (Option Nat × Arguments × List Char)
  | '.' :: more => do
      let (p, args, rest) ← takeSize ⟨style.precision, 2147483647, "int"⟩ args more
      return (some (p.getD 0).toNat, args, rest)
  | cs => .ok (none, args, cs)

/-- A conversion without the mark of a length, which says nothing. -/
def dropLength : List Char → List Char
  | m :: more => if m = 'h' || m = 'l' || m = 'L' then more else m :: more
  | [] => []

def writeArgument (style : PercentStyle) (total : Nat) (c : Conversion) (args : Arguments) :
    List Char → Except Fault (Value × Arguments × List Char)
  | [] => .error (.invalid "incomplete format")
  | type :: rest => do
      let (v, args) ← args.next
      let text ← style.apply c type (total - (rest.length + 1)) v
      return (text, args, rest)

/-- One conversion after its percent sign: its text, the arguments left and the rest of the
format. -/
def formatOne (style : PercentStyle) (total : Nat) (args : Arguments) (cs : List Char) :
    Except Fault (Value × Arguments × List Char) := do
  let (args, cs) ← takeArguments style args cs
  let (c, cs) := takeFlags {} cs
  let (width, args, cs) ← takeSize ⟨"width", maxIndex, "ssize_t"⟩ args cs
  let c := match width with
    | some w => { c with width := w.natAbs, left := c.left || w < 0 }
    | none => c
  let (precision, args, cs) ← takePrecision style args cs
  writeArgument style total { c with precision } args (dropLength cs)

/-- The pieces of a formatted text; each round takes at least one character. -/
def formatPieces (style : PercentStyle) (total : Nat) : Nat → Arguments → List Char → List Value →
    Except Fault (Arguments × List Value)
  | 0, args, _, acc => .ok (args, acc)
  | _ + 1, args, [], acc => .ok (args, acc)
  | fuel + 1, args, '%' :: '%' :: cs, acc =>
    formatPieces style total fuel args cs (ofStr "%" :: acc)
  | fuel + 1, args, '%' :: cs, acc => do
      let (text, args, rest) ← formatOne style total args cs
      formatPieces style total fuel args rest (text :: acc)
  | fuel + 1, args, cs, acc =>
      let plain := cs.takeWhile (· ≠ '%')
      formatPieces style total fuel args (cs.drop plain.length) (ofStr (String.ofList plain) :: acc)

/-- Pieces in reverse joined to one text; a piece that only empty ones precede is itself. -/
def joinPieces : List Value → Value
  | [] => ofStr ""
  | last :: before =>
      if before.all (·.display.isEmpty) then last
      else ofStr (String.join ((last :: before).reverse.map display))

/-- A format with every conversion filled in. Arguments left over are a fault unless they form a
mapping. -/
def filled (style : PercentStyle) (cs : List Char) (v : Value) : Except Fault Value := do
  let (args, pieces) ←
    formatPieces style cs.length (cs.length + 1) (Arguments.ofValue style.isMapping v) cs []
  if !args.pending.isEmpty && args.mapping.isNone then
    throw (.mismatch ("not all arguments converted during " ++ style.noun ++ " formatting"))
  return joinPieces pieces

/-- The remainder of numbers, or a format filled in; a text without conversions is itself. -/
def mod (a b : Value) : Except Fault Value :=
  match a with
  | str s _ =>
      (filled textStyle s.toList b).map fun text => if s.toList.contains '%' then text else a
  | bytes bs _ =>
      (filled octetStyle (bs.map fun b => Char.ofNat b.toNat) b).map fun text =>
        ofBytes (text.display.toList.map fun c => c.toNat.toUInt8)
  | a => modNumbers a b

end EffectTree.Value
