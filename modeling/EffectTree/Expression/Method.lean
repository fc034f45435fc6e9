import EffectTree.Expression.Arguments
import EffectTree.Text.Casing
import EffectTree.Text.Search

/-!
# Methods of values

The methods that expressions may call on texts, sequences and dictionaries.
-/

namespace EffectTree.Expression

open Value

inductive TextMethod where
  | capitalize | count | endsWith | find | isDigit | join | lower | trimLeft | replace | trimRight
  | split
  | splitLines | startsWith | trim | title | upper | zeroFill
  deriving DecidableEq, Repr

inductive SequenceMethod where
  | count | index
  deriving DecidableEq, Repr

inductive DictMethod where
  | get | items | keys | values
  deriving DecidableEq, Repr

def textMethod? : String → Option TextMethod
  | "capitalize" => some .capitalize
  | "count" => some .count
  | "endswith" => some .endsWith
  | "find" => some .find
  | "isdigit" => some .isDigit
  | "join" => some .join
  | "lower" => some .lower
  | "lstrip" => some .trimLeft
  | "replace" => some .replace
  | "rstrip" => some .trimRight
  | "split" => some .split
  | "splitlines" => some .splitLines
  | "startswith" => some .startsWith
  | "strip" => some .trim
  | "title" => some .title
  | "upper" => some .upper
  | "zfill" => some .zeroFill
  | _ => none

def sequenceMethod? : String → Option SequenceMethod
  | "count" => some .count
  | "index" => some .index
  | _ => none

def dictMethod? : String → Option DictMethod
  | "get" => some .get
  | "items" => some .items
  | "keys" => some .keys
  | "values" => some .values
  | _ => none

/-- A bound of a search, counted from the end when negative and clipped to the text. -/
def searchBound (size : Nat) (default : Int) (clip : Bool) (v : Value) : Except Fault Int := do
  match ← sliceBound v with
  | none => return default
  | some i =>
      let i := if i < 0 then i + size else i
      let i := if i < 0 then 0 else i
      return if clip && (size : Int) < i then size else i

/-- The part of a text between two bounds, and where it starts; nothing if they leave no place. -/
def searchRange (s : String) (lower upper : Value) : Except Fault (Option (Nat × List Char)) := do
  let cs := s.toList
  let low ← searchBound cs.length 0 false lower
  let high ← searchBound cs.length cs.length true upper
  if high < low then return none
  return some (low.toNat, (cs.take high.toNat).drop low.toNat)

def searchText (v : Value) : Except Fault (List Char) :=
  match v with
  | .str t _ => .ok t.toList
  | v => .error (.mismatch ("must be str, not " ++ v.typeName))

/-- Whether a text has one of the given ends; the first that fits decides. -/
def hasAny (function : String) (test : List Char → Bool) : List Value → Except Fault Bool
  | [] => .ok false
  | .str t _ :: rest => if test t.toList then .ok true else hasAny function test rest
  | v :: _ =>
    .error (.mismatch ("tuple for " ++ function ++ " must only contain str, not " ++ v.typeName))

/-- Whether a text starts or ends with a text or with one of a tuple of them. -/
def affixed (function : String) (test : List Char → List Char → Bool) (s : String)
    (args : Arguments) : Except Fault Value := do
  let (part, lower, upper) ← args.search function
  let range ← searchRange s lower upper
  let holds (t : List Char) : Bool := range.any fun (_, cs) => test t cs
  match part with
  | .str t _ => return .bool (holds t.toList)
  | .tuple parts _ => return .bool (← hasAny function holds parts)
  | v => throw (.mismatch
      (function ++ " first arg must be str or a tuple of str, not " ++ v.typeName))

def joinable : Nat → List Value → Except Fault (List String)
  | _, [] => .ok []
  | i, .str s _ :: rest => (joinable (i + 1) rest).map (s :: ·)
  | i, v :: _ => .error (.mismatch ("sequence item " ++ toString i ++ ": expected str instance, " ++
      v.typeName ++ " found"))

/-- The characters to trim: given ones, or blanks. -/
def trimSet (function : String) (args : Arguments) : Except Fault (Option (List Char)) := do
  match ← args.between "str." function 0 1 with
  | [.str t _] => return some t.toList
  | [] => return none
  | [.null] => return none
  | _ => throw (.mismatch (function ++ " arg must be None or str"))

/-- Texts joined by a separator; a single one is itself. -/
def joinTexts (separator : String) (xs : List Value) : Except Fault Value := do
  let texts ← joinable 0 xs
  match xs with
  | [x] => return x
  | _ => return newStr (separator.intercalate texts)

def ofChars (cs : List Char) : Value := ofStr (String.ofList cs)

/-- A part of a text; the whole of it is itself. -/
def partOf (whole : Value) (cs : List Char) : Value :=
  if String.ofList cs = whole.display then whole else ofChars cs

/-- A limit that counts only if it is not negative. -/
def limitOf (i : Int) : Option Nat := if i < 0 then none else some i.toNat

/-- Replaces occurrences of a part. Where nothing has to be done, the text is itself: without an
occurrence, without a limit of at least one, and if a part would be replaced by the same thing. -/
def replaced (whole : Value) (args : Arguments) : Except Fault Value := do
  let vs ← args.between "str." "replace" 2 3
  let part (i : Nat) : Except Fault (List Char) :=
    match vs[i]? with
    | some (.str t _) => .ok t.toList
    | some .null =>
      .error (.mismatch ("replace() argument " ++ toString (i + 1) ++ " must be str, not None"))
    | some v => .error (.mismatch
        ("replace() argument " ++ toString (i + 1) ++ " must be str, not " ++ v.typeName))
    | none => .ok []
  let old ← part 0
  let new ← part 1
  let limit ← match vs[2]? with
    | some v => do pure (limitOf (← sizedNumber v))
    | none => pure none
  let cs := whole.display.toList
  let sameThing := identical ((vs[0]?).getD .null) ((vs[1]?).getD .null)
  if limit = some 0 || sameThing || !isInfix old cs then return whole
  return newStr (String.ofList (Text.replaceIn old new limit cs))

/-- The parts of a text between separators; a text without any is its only part. -/
def splitParts (whole : Value) (args : Arguments) : Except Fault Value := do
  let values ← args.named { function := "split", names := ["sep", "maxsplit"] }
  let limit ← match values[1]?.join with
    | some v => do pure (limitOf (← sizedNumber v))
    | none => pure none
  let cs := whole.display.toList
  match (values[0]?.join).getD .null with
  | .null => return ofList ((Text.words limit cs).map
      (if limit = some 0 then ofChars else partOf whole))
  | .str sep _ =>
      if sep.isEmpty then throw (.invalid "empty separator")
      return ofList ((Text.splitAt sep.toList limit cs).map (partOf whole))
  | v => throw (.mismatch ("must be str or None, not " ++ v.typeName))

def lineParts (whole : Value) (args : Arguments) : Except Fault Value := do
  let values ← args.named { function := "splitlines", names := ["keepends"] }
  let keep ← match values[0]?.join with
    | some v => flagNumber v
    | none => pure false
  return ofList ((Text.linesIn keep [] whole.display.toList).map (partOf whole))

/-- A method that changes a text without arguments. -/
def plainText (function : String) (f : String → Value) (s : String) (args : Arguments) :
    Except Fault Value := do
  args.nothing ("str." ++ function)
  return f s

/-- Applies a method to a text, given as it is and as a thing. -/
def applyText (s : String) (whole : Value) (args : Arguments) : TextMethod → Except Fault Value
  | .capitalize => plainText "capitalize" (fun s => newStr (Text.capitalize s)) s args
  | .lower => plainText "lower" (fun s => newStr (Text.lower s)) s args
  | .upper => plainText "upper" (fun s => newStr (Text.upper s)) s args
  | .title => plainText "title" (fun s => newStr (Text.title s)) s args
  | .isDigit =>
    plainText "isdigit" (fun s => .bool (!s.isEmpty && s.toList.all Text.isDigit)) s args
  | .count => do
      let (part, lower, upper) ← args.search "count"
      let range ← searchRange s lower upper
      let part ← searchText part
      return ofInt ((range.map fun (_, cs) =>
        if s.length < (range.map (·.1)).getD 0 then 0 else Text.countPart part cs).getD 0)
  | .find => do
      let (part, lower, upper) ← args.search "find"
      let range ← searchRange s lower upper
      let part ← searchText part
      return ofInt (((range.bind fun (low, cs) =>
        if s.length < low then none else Text.findIn part low cs).map Int.ofNat).getD (-1))
  | .startsWith => affixed "startswith" (fun t cs => t.isPrefixOf cs) s args
  | .endsWith => affixed "endswith" (fun t cs => t.isSuffixOf cs) s args
  | .join => do
      let v ← args.one "str.join"
      match v.items with
      | .error _ => throw (.mismatch "can only join an iterable")
      | .ok xs => joinTexts s xs
  | .trim => do
      let set ← trimSet "strip" args
      return partOf whole (Text.dropEnd (Text.trimmed set) (s.toList.dropWhile (Text.trimmed set)))
  | .trimLeft => do
      let set ← trimSet "lstrip" args
      return partOf whole (s.toList.dropWhile (Text.trimmed set))
  | .trimRight => do
      let set ← trimSet "rstrip" args
      return partOf whole (Text.dropEnd (Text.trimmed set) s.toList)
  | .replace => replaced whole args
  | .split => splitParts whole args
  | .splitLines => lineParts whole args
  | .zeroFill => do
      let width ← sizedNumber (← args.one "str.zfill")
      if width ≤ s.length then return whole
      return newStr (String.ofList (Text.zeroFill width.toNat s.toList))

def indexBound (size : Nat) (default : Int) (v : Option Value) : Except Fault Int :=
  match v with
  | none => .ok default
  | some v => match v.integer? with
      | none => .error (.mismatch "slice indices must be integers or have an __index__ method")
      | some i => .ok (if i < 0 then max 0 (i + size) else i)

def indexIn (xs : List Value) (x : Value) (low high : Int) : Option Nat :=
  (xs.zipIdx.find? fun (y, i) => low ≤ (i : Int) && (i : Int) < high && agrees y x).map (·.2)

def applySequence (owner : String) (xs : List Value) (args : Arguments) (missing : Value → Fault) :
    SequenceMethod → Except Fault Value
  | .count => do
      let x ← args.one (owner ++ ".count")
      return ofInt (xs.countP fun y => agrees y x)
  | .index => do
      let vs ← args.between (owner ++ ".") "index" 1 3
      let x := (vs[0]?).getD .null
      let low ← indexBound xs.length 0 vs[1]?
      let high ← indexBound xs.length maxIndex vs[2]?
      match indexIn xs x low high with
      | some i => return ofInt i
      | none => throw (missing x)

def applyDictMethod (es : List (Value × Value)) (args : Arguments) : DictMethod → Except Fault Value
  | .get => do
      let vs ← args.between "dict." "get" 1 2
      let key := (vs[0]?).getD .null
      key.requireHashable
      return (lookup? key es).getD ((vs[1]?).getD .null)
  | .items => do
      args.nothing "dict.items"
      return ofList (es.map fun (k, v) => ofTuple [k, v])
  | .keys => do
      args.nothing "dict.keys"
      return ofList (es.map (·.1))
  | .values => do
      args.nothing "dict.values"
      return ofList (es.map (·.2))

/-- A method that a value has, ready for its arguments. -/
def method? (target : Value) (name : String) : Option (Arguments → Except Fault Value) :=
  match target with
  | .str s _ => (textMethod? name).map fun m args => applyText s target args m
  | .list xs _ => (sequenceMethod? name).map fun m args =>
      applySequence "list" xs args (fun x => .invalid (x.shown ++ " is not in list")) m
  | .tuple xs _ => (sequenceMethod? name).map fun m args =>
      applySequence "tuple" xs args (fun _ => .invalid "tuple.index(x): x not in tuple") m
  | .dict es _ => (dictMethod? name).map fun m args => applyDictMethod es args m
  | _ => none

end EffectTree.Expression
