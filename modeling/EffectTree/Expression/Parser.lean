import EffectTree.Expression.Literal

/-!
# Reading expressions

The grammar of expressions by descent: each level of precedence is a parser over the one that binds
tighter. What nests (brackets, signs, negations, the branches of conditionals) goes through a
`Grammar`, the parsers for the next level of nesting; the grammar for a source allows as many levels
as the source has characters, which is more than it can use.
-/

namespace EffectTree.Expression

abbrev Parser := StateT (List Token) Option

namespace Parser

def next : Parser Token := do
  match ← get with
  | [] => failure
  | t :: rest => set rest; return t

def atSymbol (s : String) : Parser Bool := do
  match ← get with
  | .symbol t :: _ => return s = t
  | _ => return false

def atWord (w : String) : Parser Bool := do
  match ← get with
  | .word v :: _ => return w = v
  | _ => return false

def symbol (s : String) : Parser Unit := do
  if ← atSymbol s then discard next else failure

def word (w : String) : Parser Unit := do
  if ← atWord w then discard next else failure

def symbol? (s : String) : Parser Bool := do
  if ← atSymbol s then discard next; return true
  else return false

def word? (w : String) : Parser Bool := do
  if ← atWord w then discard next; return true
  else return false

def reserved : List String :=
  ["False", "None", "True", "and", "as", "assert", "async", "await", "break", "class",
    "continue", "def",
   "del", "elif", "else", "except", "finally", "for", "from", "global", "if", "import", "in", "is",
     "lambda",
   "nonlocal", "not", "or", "pass", "raise", "return", "try", "while", "with", "yield"]

def atName : Parser Bool := do
  match ← get with
  | .word w :: _ => return !reserved.contains w
  | _ => return false

def name : Parser String := do
  match ← next with
  | .word w => if reserved.contains w then failure else return w
  | _ => failure

/-- A name that is followed by a given symbol, both taken, or nothing. -/
def nameBefore? (s : String) : Parser (Option String) := do
  match ← get with
  | .word w :: .symbol t :: rest =>
      if !reserved.contains w && s = t then set rest; return some w
      else return none
  | _ => return none

def atAssignment : Parser Bool := do
  match ← get with
  | .word w :: .symbol ":=" :: _ => return !reserved.contains w
  | _ => return false

/-- Repeats a parser that may have nothing more to take, at most as often as there are tokens. -/
def manyFrom {α : Type} (p : Parser (Option α)) : Nat → Parser (List α)
  | 0 => return []
  | fuel + 1 => do
      match ← p with
      | none => return []
      | some a => return a :: (← manyFrom p fuel)

def many {α : Type} (p : Parser (Option α)) : Parser (List α) := do
  manyFrom p ((← get).length + 1)

/-- Items with commas between them up to a closing symbol, which is not taken. A comma may follow
the last item. -/
def commaSeparated {α : Type} (close : String) (p : Parser α) : Parser (List α) := do
  let first ← p
  let rest ← many do
    if ← symbol? "," then
      if ← atSymbol close then return none else return some (← p)
    else return none
  return first :: rest

end Parser

open Expression.Parser

/-- The parsers of one level of nesting. -/
structure Grammar where
  expression : Parser Expr
  disjunction : Parser Expr
  inversion : Parser Expr
  bitOr : Parser Expr
  factor : Parser Expr
  target : Parser Expr

def starredForm : Expr := .unsupported .starred

def isStarred : Expr → Bool
  | .unsupported .starred => true
  | _ => false

namespace Grammar

variable (g : Grammar)

/-- The expression in a replacement field, read as if in parentheses. -/
def compileField (source : List Char) : Option Expr :=
  if source.all isFieldBlank then none
  else match tokens? ('(' :: source ++ [')']) with
    | none => none
    | some ts => match g.expression.run ts with
        | some (e, []) => some e
        | _ => none

/-- Literal characters join, and empty ones are dropped. -/
def joinPieces : List Piece → List Expr
  | [] => []
  | .value e :: rest => e :: joinPieces rest
  | .literal cs :: rest =>
      match joinPieces rest with
      | .constant (.str s _) :: others => .constant (.ofStr (String.ofList cs ++ s)) :: others
      | others => if cs.isEmpty then others else .constant (.ofStr (String.ofList cs)) :: others

/-- The pieces of a formatted text, or of a format inside of it; `levels` counts how deep fields may
nest, and the fuel is more than the number of characters. -/
def pieces (isRaw : Bool) :
    Nat → Nat → Bool → List Char → List Piece → Option (List Piece × List Char)
  | 0, _, _, _, _ => none
  | fuel + 1, levels, isTop, cs, acc => do
      let (chars, again, rest) ← literalPart isRaw isTop false cs []
      let acc := acc ++ [.literal (← textChars? isRaw chars)]
      if again then pieces isRaw fuel levels isTop rest acc
      else match levels, rest with
        | _, [] => return (acc, [])
        | 0, c :: after => if c = Char.ofNat 125 then return (acc, c :: after) else none
        | levels + 1, c :: inner =>
            if c = Char.ofNat 125 then return (acc, c :: inner)
            else
              let (source, rest) ← fieldSource (inner.length + 1) {} inner []
              let e ← g.compileField source
              let (echo, rest) := match rest with
                | '=' :: more =>
                    let blanks := more.takeWhile isAsciiBlank
                    ([Piece.literal (source ++ '=' :: blanks)], more.drop blanks.length)
                | _ => ([], rest)
              let (conversion, rest) ← conversion? rest
              let (spec, rest) ← match rest with
                | ':' :: more =>
                    (pieces isRaw fuel levels false more []).map fun (parts, after) =>
                      (some (Expr.text (joinPieces parts)), after)
                | _ => some (none, rest)
              let conversion :=
                if !echo.isEmpty && spec.isNone && conversion.isNone then .literal
                else conversion.getD .none
              match rest with
              | close :: after =>
                  if close = Char.ofNat 125 then
                    pieces isRaw fuel (levels + 1) isTop after
                      (acc ++ echo ++ [.value (.formatted e conversion spec)])
                  else none
              | [] => none

def piecesOf (t : TextLiteral) : Option (List Piece) :=
  if t.isFormatted then
    match g.pieces t.isRaw (t.body.length + 1) 2 true t.body [] with
    | some (parts, []) => some parts
    | _ => none
  else (textChars? t.isRaw t.body).map fun cs => [.literal cs]

/-- Texts next to each other are one text; texts and octets do not mix. -/
def joined? (ts : List TextLiteral) : Option Expr :=
  if ts.any (·.isBytes) then
    if ts.all (·.isBytes) then
      (ts.mapM fun t => octets? t.isRaw t.body).map fun parts => .constant (.ofBytes parts.flatten)
    else none
  else if ts.any (·.isFormatted) then
    (ts.mapM g.piecesOf).map fun parts => .text (joinPieces parts.flatten)
  else
    (ts.mapM fun t => textChars? t.isRaw t.body).map fun parts =>
      .constant (.ofStr (String.ofList parts.flatten))

def textRun : Parser (List TextLiteral) :=
  many do
    match ← get with
    | .text t :: rest => set rest; return some t
    | _ => return none

def named : Parser Expr := do
  match ← nameBefore? ":=" with
  | some _ =>
      discard g.expression
      return .unsupported .assignment
  | none =>
      let e ← g.expression
      if ← atSymbol ":=" then failure else return e

def starNamed : Parser Expr := do
  if ← symbol? "*" then
    discard g.bitOr
    return starredForm
  else g.named

def starExpression : Parser Expr := do
  if ← symbol? "*" then
    discard g.bitOr
    return starredForm
  else g.expression

def clause? : Parser (Option Generator) := do
  let isAsync ← word? "async"
  if ← word? "for" then
    let first ← g.target
    let rest ← many do
      if ← symbol? "," then
        if ← atWord "in" then return some none else return some (some (← g.target))
      else return none
    let target := if rest.isEmpty then first else .tuple (first :: rest.filterMap id)
    word "in"
    let source ← g.disjunction
    let conditions ← many do
      if ← word? "if" then return some (← g.disjunction) else return none
    return some (.clause target source conditions isAsync)
  else if isAsync then failure
  else return none

def clauses : Parser (List Generator) := many g.clause?

def atClause : Parser Bool := do
  return (← atWord "for") || (← atWord "async")

/-- What may stand in parentheses: nothing, a tuple, a generator or a single expression. -/
def parenthesized : Parser Expr := do
  if ← symbol? ")" then return .tuple []
  if ← word? "yield" then
    let e ← yielded
    symbol ")"
    return e
  let first ← g.starNamed
  if ← atClause then
    if isStarred first then failure
    let generators ← g.clauses
    symbol ")"
    return .comprehension false first generators
  if ← symbol? "," then
    if ← symbol? ")" then return .tuple [first]
    let rest ← commaSeparated ")" g.starNamed
    symbol ")"
    return .tuple (first :: rest)
  if isStarred first then failure
  symbol ")"
  return first
where
  yielded : Parser Expr := do
    if ← word? "from" then
      discard g.expression
      return .unsupported .yieldFrom
    if ← atSymbol ")" then return .unsupported .yield
    discard (commaSeparated ")" g.starExpression)
    return .unsupported .yield

def bracketed : Parser Expr := do
  if ← symbol? "]" then return .list []
  let first ← g.starNamed
  if ← atClause then
    if isStarred first then failure
    let generators ← g.clauses
    symbol "]"
    return .comprehension true first generators
  if ← symbol? "," then
    if ← symbol? "]" then return .list [first]
    let rest ← commaSeparated "]" g.starNamed
    symbol "]"
    return .list (first :: rest)
  symbol "]"
  return .list [first]

def entry : Parser Entry := do
  if ← symbol? "**" then return .spread (← g.bitOr)
  let key ← g.expression
  symbol ":"
  return .pair key (← g.expression)

def moreEntries (first : Entry) : Parser Expr := do
  if ← symbol? "," then
    if ← symbol? "\x7d" then return .dict [first]
    let rest ← commaSeparated "\x7d" g.entry
    symbol "\x7d"
    return .dict (first :: rest)
  symbol "\x7d"
  return .dict [first]

def braced : Parser Expr := do
  if ← symbol? "\x7d" then return .dict []
  if ← symbol? "**" then
    let value ← g.bitOr
    return ← g.moreEntries (.spread value)
  let assigned ← atAssignment
  let first ← g.starNamed
  if ← symbol? ":" then
    if isStarred first || assigned then failure
    let value ← g.expression
    if ← atClause then
      discard g.clauses
      symbol "\x7d"
      return .unsupported .dictComprehension
    return ← g.moreEntries (.pair first value)
  if ← atClause then
    if isStarred first then failure
    discard g.clauses
    symbol "\x7d"
    return .unsupported .setComprehension
  if ← symbol? "," then
    if ← symbol? "\x7d" then return .set [first]
    let rest ← commaSeparated "\x7d" g.starNamed
    symbol "\x7d"
    return .set (first :: rest)
  symbol "\x7d"
  return .set [first]

def atom : Parser Expr := do
  match ← get with
  | .word "True" :: rest => set rest; return .constant (.bool true)
  | .word "False" :: rest => set rest; return .constant (.bool false)
  | .word "None" :: rest => set rest; return .constant .null
  | .word w :: rest => if reserved.contains w then failure else set rest; return .name w
  | .number v :: rest => set rest; return .constant v
  | .text _ :: _ =>
      let ts ← textRun
      match g.joined? ts with
      | some e => return e
      | none => failure
  | .symbol "..." :: rest => set rest; return .constant .ellipsis
  | .symbol "(" :: rest => set rest; g.parenthesized
  | .symbol "[" :: rest => set rest; g.bracketed
  | .symbol "\x7b" :: rest => set rest; g.braced
  | _ => failure

inductive Argument where
  | positional (e : Expr)
  | starred
  | keyword (name : String) (e : Expr)
  | spread (e : Expr)

def argument : Parser Argument := do
  if ← symbol? "*" then
    discard g.expression
    return .starred
  if ← symbol? "**" then return .spread (← g.expression)
  match ← nameBefore? "=" with
  | some w => return .keyword w (← g.expression)
  | none => return .positional (← g.named)

/-- Positional arguments come before keywords, and after spread keywords no starred argument
follows. -/
def wellOrdered : Bool → Bool → List Argument → Bool
  | _, _, [] => true
  | keywords, spreads, .positional _ :: rest => !keywords && wellOrdered keywords spreads rest
  | keywords, spreads, .starred :: rest => !spreads && wellOrdered keywords spreads rest
  | _, spreads, .keyword .. :: rest => wellOrdered true spreads rest
  | _, _, .spread _ :: rest => wellOrdered true true rest

def positionals (args : List Argument) : List Expr :=
  args.filterMap fun
    | .positional e => some e
    | .starred => some starredForm
    | _ => none

def keywords (args : List Argument) : List (Option String × Expr) :=
  args.filterMap fun
    | .keyword w e => some (some w, e)
    | .spread e => some (none, e)
    | _ => none

/-- The arguments of a call after its opening parenthesis. A generator may stand alone without
parentheses of its own. -/
def arguments (function : Expr) : Parser Expr := do
  if ← symbol? ")" then return .call function [] []
  let first ← g.argument
  if ← atClause then
    match first with
    | .positional e =>
        let generators ← g.clauses
        symbol ")"
        return .call function [.comprehension false e generators] []
    | _ => failure
  let args ← do
    if ← symbol? "," then
      if ← atSymbol ")" then pure [first]
      else
        let rest ← commaSeparated ")" g.argument
        pure (first :: rest)
    else pure [first]
  symbol ")"
  if wellOrdered false false args then return .call function (positionals args) (keywords args)
  else failure

def subscript : Parser Expr := do
  if ← symbol? "*" then
    discard g.expression
    return starredForm
  if ← atSymbol ":" then return ← sliceFrom none
  let assigned ← atAssignment
  let e ← g.named
  if ← atSymbol ":" then
    if assigned then failure
    return ← sliceFrom (some e)
  return e
where
  bound? : Parser (Option Expr) := do
    if (← atSymbol ":") || (← atSymbol ",") || (← atSymbol "]") then return none
    return some (← g.expression)
  sliceFrom (lower : Option Expr) : Parser Expr := do
    symbol ":"
    let upper ← bound?
    if ← symbol? ":" then return .slice lower upper (← bound?)
    return .slice lower upper none

def subscripts : Parser Expr := do
  let first ← g.subscript
  if ← symbol? "," then
    if ← symbol? "]" then return .tuple [first]
    let rest ← commaSeparated "]" g.subscript
    symbol "]"
    return .tuple (first :: rest)
  symbol "]"
  return if isStarred first then .tuple [first] else first

def trailers : Nat → Expr → Parser Expr
  | 0, e => return e
  | fuel + 1, e => do
      if ← symbol? "." then trailers fuel (.field e (← name))
      else if ← symbol? "(" then trailers fuel (← g.arguments e)
      else if ← symbol? "[" then trailers fuel (.item e (← g.subscripts))
      else return e

def primary : Parser Expr := do
  let e ← g.atom
  g.trailers ((← get).length + 1) e

def power : Parser Expr := do
  let base ← do
    if ← word? "await" then
      discard g.primary
      pure (Expr.unsupported .await)
    else g.primary
  if ← symbol? "**" then return .binary .pow base (← g.factor)
  return base

def signs : List (String × UnaryOp) := [("+", .positive), ("-", .negative), ("~", .invert)]

def signed : Parser Expr := do
  match ← get with
  | .symbol s :: rest =>
      match signs.find? (·.1 = s) with
      | some (_, op) => set rest; return .unary op (← g.factor)
      | none => g.power
  | _ => g.power

/-- Operators that associate to the left, from the loosest level to the tightest. -/
def binaryLevels : List (List (String × BinaryOp)) :=
  [[("|", .bitOr)], [("^", .bitXor)], [("&", .bitAnd)], [("<<", .shiftLeft), (">>", .shiftRight)],
   [("+", .add), ("-", .sub)],
   [("*", .mul), ("/", .div), ("//", .floorDiv), ("%", .mod), ("@", .matMul)]]

def leftAssociative (operators : List (String × BinaryOp)) (operand : Parser Expr) : Parser Expr :=
  do
  let first ← operand
  let rest ← many do
    match ← get with
    | .symbol s :: more =>
        match operators.find? (·.1 = s) with
        | some (_, op) => set more; return some (op, ← operand)
        | none => return none
    | _ => return none
  return rest.foldl (fun left (op, right) => .binary op left right) first

def binaryFrom (levels : List (List (String × BinaryOp))) : Parser Expr :=
  levels.foldr leftAssociative g.signed

def binary : Parser Expr := g.binaryFrom binaryLevels

def compareSymbols : List (String × CompareOp) :=
  [("==", .eq), ("!=", .ne), ("<=", .lessEq), ("<", .less), (">=", .greaterEq), (">", .greater)]

def compareOp? : Parser (Option CompareOp) := do
  match ← get with
  | .symbol s :: rest =>
      match compareSymbols.find? (·.1 = s) with
      | some (_, op) => set rest; return some op
      | none => return none
  | .word "not" :: .word "in" :: rest => set rest; return some .notIn
  | .word "in" :: rest => set rest; return some .isIn
  | .word "is" :: .word "not" :: rest => set rest; return some .notSame
  | .word "is" :: rest => set rest; return some .same
  | _ => return none

def comparison : Parser Expr := do
  let first ← g.binary
  let rest ← many do
    match ← compareOp? with
    | some op => return some (op, ← g.binary)
    | none => return none
  return if rest.isEmpty then first else .compare first rest

def negation : Parser Expr := do
  if ← word? "not" then return .unary .not (← g.inversion)
  g.comparison

def joinedBy (w : String) (isAnd : Bool) (operand : Parser Expr) : Parser Expr := do
  let first ← operand
  let rest ← many do
    if ← word? w then return some (← operand) else return none
  return if rest.isEmpty then first else .logical isAnd (first :: rest)

def conjunction : Parser Expr := joinedBy "and" true g.negation

def alternatives : Parser Expr := joinedBy "or" false g.conjunction

inductive Parameter where
  | plain | withDefault | slash | star | starName | doubleStar
  deriving DecidableEq

def parameter : Parser Parameter := do
  if ← symbol? "/" then return .slash
  if ← symbol? "**" then
    discard name
    return .doubleStar
  if ← symbol? "*" then
    if ← atName then
      discard name
      return .starName
    return .star
  discard name
  if ← symbol? "=" then
    discard g.expression
    return .withDefault
  return .plain

structure ParameterState where
  named : Bool := false
  defaults : Bool := false
  slashed : Bool := false
  starred : Bool := false
  /-- A bare star waits for a name after it. -/
  waiting : Bool := false

def acceptable (st : ParameterState) : List Parameter → Bool
  | [] => !st.waiting
  | .plain :: rest =>
      (st.starred || !st.defaults) && acceptable { st with named := true, waiting := false } rest
  | .withDefault :: rest =>
      acceptable { st with named := true, defaults := true, waiting := false } rest
  | .slash :: rest =>
    st.named && !st.slashed && !st.starred && acceptable { st with slashed := true } rest
  | .star :: rest => !st.starred && acceptable { st with starred := true, waiting := true } rest
  | .starName :: rest => !st.starred && acceptable { st with starred := true } rest
  | .doubleStar :: rest => !st.waiting && rest.isEmpty

def lambda : Parser Expr := do
  let params ← do
    if ← atSymbol ":" then pure []
    else commaSeparated ":" g.parameter
  symbol ":"
  discard g.expression
  if acceptable {} params then return .unsupported .lambda else failure

def conditional : Parser Expr := do
  if ← word? "lambda" then return ← g.lambda
  let yes ← g.alternatives
  if ← word? "if" then
    let test ← g.alternatives
    word "else"
    return .conditional test yes (← g.expression)
  return yes

/-- A name, a field, a subscript, or a group of targets in brackets; a star may stand before it. -/
def assignable : Parser Expr := do
  if ← symbol? "*" then
    if ← atSymbol "*" then failure
    discard g.target
    return starredForm
  let start ← get
  match g.primary.run start with
  | some (.field t w, rest) => set rest; return .field t w
  | some (.item t k, rest) => set rest; return .item t k
  | _ =>
      if ← symbol? "(" then
        if ← symbol? ")" then return .tuple []
        let first ← g.target
        if ← symbol? "," then
          if ← symbol? ")" then return .tuple [first]
          let rest ← commaSeparated ")" g.target
          symbol ")"
          return .tuple (first :: rest)
        if isStarred first then failure
        symbol ")"
        return first
      if ← symbol? "[" then
        if ← symbol? "]" then return .list []
        let items ← commaSeparated "]" g.target
        symbol "]"
        return .list items
      return .name (← name)

def nested : Grammar where
  expression := g.conditional
  disjunction := g.alternatives
  inversion := g.negation
  bitOr := g.binary
  factor := g.signed
  target := g.assignable

end Grammar

def failing : Grammar := ⟨failure, failure, failure, failure, failure, failure⟩

def grammar : Nat → Grammar
  | 0 => failing
  | levels + 1 => (grammar levels).nested

def expressions (g : Grammar) : Parser Expr := do
  let first ← g.expression
  let rest ← many do
    if ← symbol? "," then
      match ← get with
      | [] => return some none
      | .newline :: _ => return some none
      | _ => return some (some (← g.expression))
    else return none
  return if rest.isEmpty then first else .tuple (first :: rest.filterMap id)

def isNewline : Token → Bool
  | .newline => true
  | _ => false

def parse? (source : String) : Option Expr :=
  let cs := source.toList
  match tokens? cs with
  | none => none
  | some ts =>
      match (expressions (grammar (cs.length + 1))).run ts with
      | some (e, rest) => if rest.all isNewline then some e else none
      | none => none

end EffectTree.Expression
