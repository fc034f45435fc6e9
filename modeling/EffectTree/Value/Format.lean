import EffectTree.Value.Arithmetic

/-!
# Format specifications

A specification gives fill, alignment, sign, alternate form, zero padding, width, digit grouping,
precision and a presentation type; what of it makes sense depends on the type of the value.
-/

namespace EffectTree.Value

open Number

inductive Align where
  | left | right | center | afterSign
  deriving DecidableEq, Repr

inductive Grouping where
  | none | comma | underscore
  deriving DecidableEq, Repr

def Grouping.mark : Grouping → Char
  | .none => ' '
  | .comma => ','
  | .underscore => '_'

structure FormatSpec where
  fill : Char := ' '
  align : Align
  sign : Option Char := .none
  positiveZero : Bool := false
  alternate : Bool := false
  width : Nat := 0
  grouping : Grouping := .none
  precision : Option Nat := .none
  type : Option Char := .none

namespace FormatSpec

def align? : Char → Option Align
  | '<' => some .left
  | '>' => some .right
  | '^' => some .center
  | '=' => some .afterSign
  | _ => none

def takeDigits (cs : List Char) : List Nat × List Char :=
  let digits := cs.takeWhile fun c => (Text.decimalDigit? c).isSome
  (digits.filterMap Text.decimalDigit?, cs.drop digits.length)

/-- A number in a specification; too large a one is refused. -/
def takeNumber (cs : List Char) : Except Fault (Option Nat × List Char) :=
  let (digits, rest) := takeDigits cs
  let n : Nat := digits.foldl (fun acc d => acc * 10 + d) 0
  if digits.isEmpty then .ok (none, rest)
  else if maxIndex < (n : Int) then .error (.invalid "Too many decimal digits in format string")
  else .ok (some n, rest)

def takeFlag (flag : Char) : List Char → Bool × List Char
  | c :: rest => if c = flag then (true, rest) else (false, c :: rest)
  | [] => (false, [])

def takeAlign (normal : Align) : List Char → Option Char × Option Align × Align × List Char
  | f :: a :: rest =>
      match align? a with
      | some al => (some f, some al, al, rest)
      | none => match align? f with
          | some al => (none, some al, al, a :: rest)
          | none => (none, none, normal, f :: a :: rest)
  | [a] =>
      match align? a with
      | some al => (none, some al, al, [])
      | none => (none, none, normal, [a])
  | [] => (none, none, normal, [])

/-- A character in a message, by number when it is not plain. -/
def charText (c : Char) : String :=
  if 32 < c.toNat && c.toNat < 128 then String.singleton c
  else "\\x" ++ natDigits 16 (Text.pointOf c)

def groupingAllowed (grouping : Grouping) : Option Char → Bool
  | none => true
  | some c =>
      grouping = .none || "defgEG%F".contains c || (grouping = .underscore && "boxX".contains c)

/-- Reads a specification for a value of the named type, whose default alignment and presentation
are given. -/
def parse (text : String) (typeName : String) (normal : Align) (normalType : Option Char) :
    Except Fault FormatSpec := do
  let (fill, aligned, align, cs) := takeAlign normal text.toList
  let (sign, cs) := match cs with
    | c :: rest => if c = '+' || c = '-' || c = ' ' then (some c, rest) else (none, cs)
    | [] => (none, cs)
  let (positiveZero, cs) := takeFlag 'z' cs
  let (alternate, cs) := takeFlag '#' cs
  let (padded, cs) := if fill.isNone then takeFlag '0' cs else (false, cs)
  let align := if padded && aligned.isNone && normal = .right then .afterSign else align
  let fill := if padded then '0' else fill.getD ' '
  let (width, cs) ← takeNumber cs
  let (comma, cs) := takeFlag ',' cs
  let (under, cs) := takeFlag '_' cs
  if comma && under then throw (.invalid "Cannot specify both ',' and '_'.")
  if under && cs.head? = some ',' then throw (.invalid "Cannot specify both ',' and '_'.")
  let grouping : Grouping := if comma then .comma else if under then .underscore else .none
  let (dot, cs) := takeFlag '.' cs
  let (precision, cs) ← if dot then takeNumber cs else pure (none, cs)
  if dot && precision.isNone then throw (.invalid "Format specifier missing precision")
  let type ← match cs with
    | [] => pure normalType
    | [c] => pure (some c)
    | _ => throw (.invalid ("Invalid format specifier '" ++ text ++ "' for object of type '" ++
        typeName ++ "'"))
  if !groupingAllowed grouping type then
    let mark := String.singleton grouping.mark
    throw (.invalid ("Cannot specify '" ++ mark ++ "' with '" ++ charText (type.getD ' ') ++ "'."))
  return {
    fill, align, sign, positiveZero, alternate, width := width.getD 0, grouping, precision, type }

end FormatSpec

def fillText (c : Char) (n : Nat) : String := String.ofList (List.replicate n c)

def padText (fill : Char) (align : Align) (width : Nat) (s : String) : String :=
  let n := width - s.length
  match align with
  | .left => s ++ fillText fill n
  | .right | .afterSign => fillText fill n ++ s
  | .center => fillText fill (n / 2) ++ s ++ fillText fill (n - n / 2)

def unknownType (c : Char) (typeName : String) : Fault :=
  .invalid ("Unknown format code '" ++ FormatSpec.charText c ++ "' for object of type '" ++
    typeName ++ "'")

def formatText (spec : FormatSpec) (s : String) : Except Fault String := do
  match spec.type with
  | some 's' | none => pure ()
  | some c => throw (unknownType c "str")
  if spec.sign = some ' ' then throw (.invalid "Space not allowed in string format specifier")
  if spec.sign.isSome then throw (.invalid "Sign not allowed in string format specifier")
  if spec.positiveZero then
    throw (.invalid "Negative zero coercion (z) not allowed in string format specifier")
  if spec.alternate then
    throw (.invalid "Alternate form (#) not allowed in string format specifier")
  if spec.align = .afterSign then
    throw (.invalid "'=' alignment not allowed in string format specifier")
  let s := match spec.precision with
    | some p => String.ofList (s.toList.take p)
    | none => s
  return padText spec.fill spec.align spec.width s

/-- Groups of digits from the right, zeros filling up to a least width; the digits come reversed and
the result is in order. -/
def groupDigits (size : Nat) (mark : Char) : Nat → List Char → Nat → Bool → List Char → List Char
  | 0, rest, _, _, acc => rest.reverse ++ acc
  | fuel + 1, digits, least, separate, acc =>
      let len := min size (max (max digits.length least) 1)
      let taken := digits.take len
      let chunk := List.replicate (len - taken.length) '0' ++ taken.reverse
      let acc := chunk ++ (if separate then mark :: acc else acc)
      let rest := digits.drop len
      let least := least - len
      if rest.isEmpty && least = 0 then acc
      else groupDigits size mark fuel rest (least - 1) true acc

def groupedDigits (grouping : Grouping) (size : Nat) (digits : String) (least : Nat) : String :=
  match grouping with
  | .none => zeros (least - digits.length) ++ digits
  | g =>
      String.ofList
        (groupDigits size g.mark (digits.length + least + 1) digits.toList.reverse least false [])

/-- Lays out a number: sign, base mark, digits and whatever follows them. -/
def layoutNumber (spec : FormatSpec) (negative : Bool) (baseMark digits rest : String)
    (size : Nat) : String :=
  let sign := if negative then "-" else match spec.sign with
    | some '+' => "+"
    | some ' ' => " "
    | _ => ""
  let fixed := sign.length + baseMark.length + rest.length
  let least := if spec.fill = '0' && spec.align = .afterSign then spec.width - fixed else 0
  let grouped := if digits.isEmpty then "" else groupedDigits spec.grouping size digits least
  let body := grouped ++ rest
  let used := sign.length + baseMark.length + body.length
  match spec.align with
  | .afterSign => sign ++ baseMark ++ fillText spec.fill (spec.width - used) ++ body
  | align => padText spec.fill align spec.width (sign ++ baseMark ++ body)

def upperAscii (s : String) : String := String.ofList (s.toList.map Char.toUpper)

/-- The unsigned text of a double in a presentation, without grouping. -/
def floatBody (type : Char) (precision : Option Nat) (alternate : Bool) (x : Float) : String :=
  match Binary64.fraction? x with
  | none => if x.isNaN then "nan" else "inf"
  | some (_, num, den) =>
      let p := precision.getD 6
      match type with
      | 'e' => exponentialText num den p alternate "e"
      | 'f' => fixedText num den p alternate
      | _ => generalText num den p (if p = 0 then 1 else p) alternate "e" false

/-- The unsigned text of a double in the presentation of a letter, which may be a capital. -/
def floatBodyIn (spec : FormatSpec) (type : Char) (x : Float) : String :=
  let body := floatBody (if type = 'n' then 'g' else type.toLower) spec.precision spec.alternate x
  if type.isUpper then upperAscii body else body

/-- Puts a point after the digits in front of an exponent or the end, if there is none. -/
def withPoint (s : String) : String :=
  let whole := s.toList.takeWhile Char.isDigit
  match s.toList.dropWhile Char.isDigit with
  | [] => String.ofList (whole ++ ['.'])
  | 'e' :: rest => String.ofList (whole ++ '.' :: 'e' :: rest)
  | _ => s

def floatBodyPlain (precision : Option Nat) (alternate : Bool) (x : Float) : String :=
  match precision with
  | none =>
      let text := shortestMagnitude .plain x
      if alternate then withPoint text else text
  | some p =>
      match Binary64.fraction? x with
      | none => if x.isNaN then "nan" else "inf"
      | some (_, num, den) =>
          let p := if p = 0 then 1 else p
          generalText num den p ((p : Int) - 1) alternate "e" true

/-- The number of places or digits of a double has to fit into half a word. -/
def FormatSpec.requirePrecision (spec : FormatSpec) : Except Fault Unit :=
  if spec.precision.any (2147483647 < ·) then .error (.invalid "precision too big") else .ok ()

def hasSign (spec : FormatSpec) (x : Float) (body : String) : Bool :=
  let isZero := Binary64.isFinite x && body.toList.all fun c => !c.isDigit || c = '0'
  Binary64.isNegative x && !x.isNaN && !(spec.positiveZero && isZero)

def formatFloat (spec : FormatSpec) (typeName : String) (x : Float) : Except Fault String := do
  if let some c := spec.type then
    if !"eEfFgGn%".contains c then throw (unknownType c typeName)
  spec.requirePrecision
  let percent := spec.type = some '%'
  let x := if percent then x * 100 else x
  let body := match spec.type with
    | none => floatBodyPlain spec.precision spec.alternate x
    | some '%' => floatBody 'f' spec.precision spec.alternate x
    | some c => floatBodyIn spec c x
  let digits := String.ofList (body.toList.takeWhile Char.isDigit)
  let rest := String.ofList (body.toList.dropWhile Char.isDigit) ++ (if percent then "%" else "")
  return layoutNumber spec (hasSign spec x body) "" digits rest 3

def codePointFault (i : Int) : Fault :=
  if i < -maxIndex - 1 || maxIndex < i then .overflow "Python int too large to convert to C long"
  else .overflow "%c arg not in range(0x110000)"

def formatInt (spec : FormatSpec) (typeName : String) (i : Int) : Except Fault String := do
  match spec.type with
  | some c =>
      if "eEfFgG%".contains c then
        let x ← toDouble i
        return ← formatFloat spec typeName x
      if !"bcdoxXn".contains c then throw (unknownType c typeName)
  | none => pure ()
  if spec.precision.isSome then throw (.invalid "Precision not allowed in integer format specifier")
  if spec.positiveZero then
    throw (.invalid "Negative zero coercion (z) not allowed in integer format specifier")
  match spec.type.getD 'd' with
  | 'c' =>
      if spec.sign.isSome then throw (.invalid "Sign not allowed with integer format specifier 'c'")
      if spec.alternate then
        throw (.invalid "Alternate form (#) not allowed with integer format specifier 'c'")
      if i < 0 || 0x10FFFF < i then throw (codePointFault i)
      return layoutNumber spec false "" "" (String.singleton (Text.charOf i.toNat)) 3
  | 'b' => return layoutNumber spec (i < 0) (mark "0b") (natDigits 2 i.natAbs) "" 4
  | 'o' => return layoutNumber spec (i < 0) (mark "0o") (natDigits 8 i.natAbs) "" 4
  | 'x' => return layoutNumber spec (i < 0) (mark "0x") (natDigits 16 i.natAbs) "" 4
  | 'X' => return layoutNumber spec (i < 0) (mark "0X") (upperAscii (natDigits 16 i.natAbs)) "" 4
  | _ => return layoutNumber spec (i < 0) "" (natText i.natAbs) "" 3
where
  mark (s : String) : String := if spec.alternate then s else ""

def complexBody (spec : FormatSpec) (x : Float) : String :=
  match spec.type, spec.precision with
  | none, none =>
      let text := shortestMagnitude complexPart x
      if spec.alternate then withPoint text else text
  | none, some _ => floatBody 'g' spec.precision spec.alternate x
  | some c, _ => floatBodyIn spec c x

def formatComplex (spec : FormatSpec) (re im : Float) : Except Fault String := do
  if let some c := spec.type then
    if !"eEfFgGn".contains c then throw (unknownType c "complex")
  spec.requirePrecision
  if spec.fill = '0' then throw (.invalid "Zero padding is not allowed in complex format specifier")
  if spec.align = .afterSign then
    throw (.invalid "'=' alignment flag is not allowed in complex format specifier")
  let realBody := complexBody spec re
  let imaginaryBody := complexBody spec im
  let bare := spec.type.isNone
  let alone := bare && re == 0 && !Binary64.isNegative re
  let part := { spec with width := 0, fill := ' ', align := .left }
  let split (s : String) : String × String :=
    (String.ofList (s.toList.takeWhile Char.isDigit),
      String.ofList (s.toList.dropWhile Char.isDigit))
  let (d, r) := split realBody
  let (d', r') := split imaginaryBody
  let realText := layoutNumber part (hasSign spec re realBody) "" d r 3
  let imaginarySpec := if alone then part else { part with sign := some '+' }
  let imaginaryText := layoutNumber imaginarySpec (hasSign spec im imaginaryBody) "" d' r' 3
  let body :=
    if alone then imaginaryText ++ "j"
    else if bare then "(" ++ realText ++ imaginaryText ++ "j)"
    else realText ++ imaginaryText ++ "j"
  return padText spec.fill spec.align spec.width body

/-- A value written by a specification. Without one it is its plain text. -/
def format (v : Value) (text : String) : Except Fault String := do
  if text.isEmpty then return v.display
  match v with
  | str s _ =>
      let spec ← FormatSpec.parse text "str" .left (some 's')
      formatText spec s
  | bool b =>
      let spec ← FormatSpec.parse text "bool" .right (some 'd')
      formatInt spec "bool" (ofBit b)
  | int i _ =>
      let spec ← FormatSpec.parse text "int" .right (some 'd')
      formatInt spec "int" i
  | float x _ =>
      let spec ← FormatSpec.parse text "float" .right none
      formatFloat spec "float" x
  | complex re im _ =>
      let spec ← FormatSpec.parse text "complex" .right none
      formatComplex spec re im
  | v => throw (.mismatch ("unsupported format string passed to " ++ v.typeName ++ ".__format__"))

end EffectTree.Value
