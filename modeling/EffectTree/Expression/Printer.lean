import EffectTree.Expression.Basic
import EffectTree.Text.Search

/-!
# The source of an expression

An expression written out again with one blank around operators and only the parentheses that it
needs. The fields of a formatted text cannot hold backslashes, so one whose expression cannot be
written without them has no source.
-/

namespace EffectTree.Expression

structure Strength where
  rank : Nat

namespace Strength

def tuple : Strength := ⟨1⟩
def test : Strength := ⟨3⟩
def disjunction : Strength := ⟨4⟩
def conjunction : Strength := ⟨5⟩
def negation : Strength := ⟨6⟩
def comparison : Strength := ⟨7⟩
def bitOr : Strength := ⟨8⟩
def bitXor : Strength := ⟨9⟩
def bitAnd : Strength := ⟨10⟩
def shift : Strength := ⟨11⟩
def sum : Strength := ⟨12⟩
def term : Strength := ⟨13⟩
def factor : Strength := ⟨14⟩
def power : Strength := ⟨15⟩
def atom : Strength := ⟨17⟩

def next (s : Strength) : Strength := ⟨s.rank + 1⟩

end Strength

def binarySymbol : BinaryOp → String
  | .add => "+" | .sub => "-" | .mul => "*" | .matMul => "@" | .div => "/" | .floorDiv => "//"
  | .mod => "%" | .pow => "**" | .shiftLeft => "<<" | .shiftRight => ">>" | .bitAnd => "&"
  | .bitOr => "|" | .bitXor => "^"

def binaryStrength : BinaryOp → Strength
  | .add | .sub => .sum
  | .mul | .matMul | .div | .floorDiv | .mod => .term
  | .pow => .power
  | .shiftLeft | .shiftRight => .shift
  | .bitAnd => .bitAnd
  | .bitOr => .bitOr
  | .bitXor => .bitXor

def compareSymbol : CompareOp → String
  | .eq =>
    "==" | .ne => "!=" | .less => "<" | .lessEq => "<=" | .greater => ">" | .greaterEq => ">="
  | .same => "is" | .notSame => "is not" | .isIn => "in" | .notIn => "not in"

/-- Parentheses where something binds less tightly than its place asks for. -/
def enclose (place own : Strength) (s : String) : String :=
  if own.rank < place.rank then "(" ++ s ++ ")" else s

def itemsText : List String → String
  | [x] => x ++ ","
  | xs => ", ".intercalate xs

/-- A constant; infinity is written as a number that is too large. -/
def constantText : Value → String
  | .ellipsis => "..."
  | .float x m => widen (Value.float x m).shown
  | .complex re im m => widen (Value.complex re im m).shown
  | v => v.shown
where
  widen (s : String) : String := (s.replace "inf" "1e309").replace "nan" "(1e309-1e309)"

def isIntConstant : Expr → Bool
  | .constant (.int ..) => true
  | .constant (.bool _) => true
  | _ => false

/-- The quotes around a text: a mark, once or three times. -/
structure Quotes where
  mark : Char
  isTriple : Bool := false
  deriving DecidableEq

namespace Quotes

def chars (q : Quotes) : List Char := if q.isTriple then [q.mark, q.mark, q.mark] else [q.mark]

def all : List Quotes :=
  [⟨Text.singleQuote, false⟩, ⟨Text.doubleQuote, false⟩, ⟨Text.doubleQuote, true⟩,
    ⟨Text.singleQuote, true⟩]

def occursIn (q : Quotes) (cs : List Char) : Bool := (Text.findIn q.chars 0 cs).isSome

def enclose (q : Quotes) (cs : List Char) : String := String.ofList (q.chars ++ cs ++ q.chars)

end Quotes

/-- A character of a text whose quotes are not chosen yet. Line ends and tabs may stay as they
are. -/
def escapedChar (escapesBlanks : Bool) (c : Char) : List Char :=
  if !escapesBlanks && (c = '\n' || c = '\t') then [c]
  else if c = Text.singleQuote || c = Text.doubleQuote then [c]
  else Text.quotedChar Text.singleQuote c

/-- A text with as few escapes as possible, and those of the given quotes that fit around it. Where
none does, it is escaped for quotes of its own. -/
def fitQuotes (quotes : List Quotes) (escapesBlanks : Bool) (cs : List Char) :
    List Char × List Quotes :=
  let escaped := cs.flatMap (escapedChar escapesBlanks)
  let fitting :=
    (quotes.filter fun q => q.isTriple || !escaped.contains '\n').filter (!·.occursIn escaped)
  match fitting, escaped.getLast? with
  | [], _ =>
      let mark := Text.chosenQuote cs
      (cs.flatMap (Text.quotedChar mark), [(quotes.find? (·.mark = mark)).getD ⟨mark, false⟩])
  | fitting, none => (escaped, fitting)
  | fitting, some last =>
      let sorted := fitting.filter (·.mark ≠ last) ++ fitting.filter (·.mark = last)
      if sorted.head?.any (·.mark = last) then (escaped.dropLast ++ ['\\', last], sorted)
        else (escaped, sorted)

def avoidingText (s : String) : String :=
  let (cs, quotes) := fitQuotes Quotes.all false s.toList
  (quotes.headD ⟨Text.singleQuote, false⟩).enclose cs

/-- The pieces of a formatted text between quotes that fit around all of them, literal ones marked
as such. -/
def fitPieces : List Quotes → List (Bool × String) → List Char → Option (List Char × List Quotes)
  | quotes, [], acc => some (acc, quotes)
  | quotes, (isLiteral, s) :: rest, acc =>
      let (cs, fitting) := fitQuotes quotes isLiteral s.toList
      if fitting.any quotes.contains then fitPieces fitting rest (acc ++ cs) else none

/-- A formatted text from its pieces. Without quotes that fit, each piece is escaped. -/
def formattedText (pieces : List (Bool × String)) : String :=
  match fitPieces Quotes.all pieces [] with
  | some (cs, quotes) => "f" ++ (quotes.headD ⟨Text.singleQuote, false⟩).enclose cs
  | none => "f" ++ Quotes.enclose ⟨Text.singleQuote, true⟩
      (pieces.flatMap fun piece => piece.2.toList.flatMap (Text.quotedChar Text.singleQuote))

def doubledBraces (s : String) : String :=
  String.ofList (s.toList.flatMap fun c =>
    if c = Char.ofNat 123 || c = Char.ofNat 125 then [c, c] else [c])

def spaced (s : String) : String := if s.startsWith "\x7b" then " " ++ s else s

def conversionText : Conversion → String
  | .none => ""
  | .literal => "!r"
  | .display => "!s"
  | .ascii => "!a"

def fieldText (value : String) (conversion : Conversion) (spec : String) : Option String :=
  if value.toList.contains '\\' then none
  else some ("\x7b" ++ spaced value ++ conversionText conversion ++ spec ++ "\x7d")

mutual

/-- The source of an expression at a place of the given strength, possibly inside of a formatted
text, where backslashes are avoided. -/
def sourceAt (isInside : Bool) (place : Strength) : Expr → Option String
  | .constant v =>
      match v with
      | .str s _ => some (if isInside then avoidingText s else v.shown)
      | v => some (constantText v)
  | .name id => some id
  | .binary op left right => do
      let own := binaryStrength op
      let (l, r) := if op = .pow then (own.next, own) else (own, own.next)
      let left ← sourceAt isInside l left
      let right ← sourceAt isInside r right
      return enclose place own (left ++ " " ++ binarySymbol op ++ " " ++ right)
  | .unary op operand => do
      let (own, sign) : Strength × String := match op with
        | .not => (.negation, "not ")
        | .negative => (.factor, "-")
        | .positive => (.factor, "+")
        | .invert => (.factor, "~")
      return enclose place own (sign ++ (← sourceAt isInside own operand))
  | .logical isAnd operands => do
      let own : Strength := if isAnd then .conjunction else .disjunction
      return enclose place own
        ((if isAnd then " and " else " or ").intercalate (← rising isInside own.next operands))
  | .compare first rest => do
      let first ← sourceAt isInside Strength.comparison.next first
      return enclose place .comparison (first ++ (← comparedText isInside rest))
  | .conditional test yes no => do
      let yes ← sourceAt isInside Strength.test.next yes
      let test ← sourceAt isInside Strength.test.next test
      let no ← sourceAt isInside .test no
      return enclose place .test (yes ++ " if " ++ test ++ " else " ++ no)
  | .item target key => do
      let target ← sourceAt isInside .atom target
      let key ← match key with
        | .tuple (x :: xs) => (sources isInside (x :: xs)).map itemsText
        | k => sourceAt isInside .test k
      return target ++ "[" ++ key ++ "]"
  | .slice lower upper step => do
      let lower ← optionText isInside "" lower
      let upper ← optionText isInside "" upper
      return lower ++ ":" ++ upper ++ (← optionText isInside ":" step)
  | .field target name => do
      return (← sourceAt isInside .atom target) ++
        (if isIntConstant target then " ." else ".") ++ name
  | .call function args keywords => do
      let function ← sourceAt isInside .atom function
      let args ← sources isInside args
      return function ++ "(" ++ ", ".intercalate (args ++ (← keywordTexts isInside keywords)) ++ ")"
  | .list items => do return "[" ++ ", ".intercalate (← sources isInside items) ++ "]"
  | .tuple items => do
      let s := itemsText (← sources isInside items)
      return if items.isEmpty || Strength.tuple.rank < place.rank then "(" ++ s ++ ")" else s
  | .set items => do return "\x7b" ++ ", ".intercalate (← sources isInside items) ++ "\x7d"
  | .dict entries => do return "\x7b" ++ ", ".intercalate (← entryTexts isInside entries) ++ "\x7d"
  | .text parts => do
      let pieces ← piecesOf parts
      return if isInside then "f" ++ avoidingText (String.join (pieces.map (·.2)))
        else formattedText pieces
  | .formatted value conversion spec => do
      let value ← sourceAt true Strength.test.next value
      fieldText value conversion (← specText spec)
  | .comprehension isList element generators => do
      let element ← sourceAt isInside .test element
      let s := element ++ String.join (← clauseTexts isInside generators)
      return if isList then "[" ++ s ++ "]" else "(" ++ s ++ ")"
  | .unsupported form => some form.label

def specText : Option Expr → Option String
  | none => some ""
  | some e => match e with
      | .text parts => (piecesOf parts).map fun pieces => ":" ++ String.join (pieces.map (·.2))
      | e => (sourceAt true .test e).map (":" ++ ·)

/-- The parts of a formatted text, literal ones marked as such. -/
def piecesOf : List Expr → Option (List (Bool × String))
  | [] => some []
  | .constant (.str s _) :: rest => (piecesOf rest).map ((true, doubledBraces s) :: ·)
  | e :: rest => do
      let s ← sourceAt true .test e
      return (false, s) :: (← piecesOf rest)

def sources (isInside : Bool) : List Expr → Option (List String)
  | [] => some []
  | e :: es => do
      let s ← sourceAt isInside .test e
      return s :: (← sources isInside es)

/-- Operands whose places ask for more and more strength. -/
def rising (isInside : Bool) (place : Strength) : List Expr → Option (List String)
  | [] => some []
  | e :: es => do
      let s ← sourceAt isInside place e
      return s :: (← rising isInside place.next es)

def comparedText (isInside : Bool) : List (CompareOp × Expr) → Option String
  | [] => some ""
  | (op, e) :: rest => do
      let s ← sourceAt isInside Strength.comparison.next e
      return " " ++ compareSymbol op ++ " " ++ s ++ (← comparedText isInside rest)

def optionText (isInside : Bool) (before : String) : Option Expr → Option String
  | none => some ""
  | some e => (sourceAt isInside .test e).map (before ++ ·)

def keywordTexts (isInside : Bool) : List (Option String × Expr) → Option (List String)
  | [] => some []
  | (name, e) :: rest => do
      let s ← sourceAt isInside .test e
      let start := match name with
        | some name => name ++ "="
        | none => "**"
      return (start ++ s) :: (← keywordTexts isInside rest)

def entryTexts (isInside : Bool) : List Entry → Option (List String)
  | [] => some []
  | .pair key value :: rest => do
      let k ← sourceAt isInside .test key
      let v ← sourceAt isInside .test value
      return (k ++ ": " ++ v) :: (← entryTexts isInside rest)
  | .spread value :: rest => do
      let v ← sourceAt isInside .bitOr value
      return ("**" ++ v) :: (← entryTexts isInside rest)

def conditionText (isInside : Bool) : List Expr → Option String
  | [] => some ""
  | e :: es => do
      let s ← sourceAt isInside Strength.test.next e
      return " if " ++ s ++ (← conditionText isInside es)

def clauseTexts (isInside : Bool) : List Generator → Option (List String)
  | [] => some []
  | .clause target source conditions isAsync :: rest => do
      let target ← sourceAt isInside .tuple target
      let source ← sourceAt isInside Strength.test.next source
      let clause := (if isAsync then " async for " else " for ") ++ target ++ " in " ++ source ++
        (← conditionText isInside conditions)
      return clause :: (← clauseTexts isInside rest)

end

def source? (e : Expr) : Option String := sourceAt false .test e

end EffectTree.Expression
