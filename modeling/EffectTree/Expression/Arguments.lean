import EffectTree.Table
import EffectTree.Value.Arithmetic

/-!
# Arguments of calls

How the arguments of a call meet the parameters of a function. Functions differ in which keywords
they take and in how they report a wrong number of arguments.
-/

namespace EffectTree.Expression

structure Arguments where
  positional : List Value
  keywords : Table Value := []

def plural (n : Nat) : String := if n = 1 then "" else "s"

namespace Arguments

/-- Functions that know no keywords refuse them before anything else. -/
def withoutKeywords (args : Arguments) (function : String) : Except Fault (List Value) :=
  if args.keywords.isEmpty then .ok args.positional
  else .error (.mismatch (function ++ "() takes no keyword arguments"))

def nothing (args : Arguments) (function : String) : Except Fault Unit := do
  let vs ← args.withoutKeywords function
  if vs.isEmpty then return ()
  else throw (.mismatch (function ++ "() takes no arguments (" ++ toString vs.length ++ " given)"))

def one (args : Arguments) (function : String) : Except Fault Value := do
  match ← args.withoutKeywords function with
  | [v] => return v
  | vs => throw (.mismatch
      (function ++ "() takes exactly one argument (" ++ toString vs.length ++ " given)"))

/-- Between `least` and `most` arguments of a function without keywords. The name with its type
stands in the complaint about keywords, the plain name in those about the number. -/
def between (args : Arguments) (owner function : String) (least most : Nat) :
    Except Fault (List Value) := do
  let vs ← args.withoutKeywords (owner ++ function)
  if vs.length < least then throw (.mismatch (function ++ " expected at least " ++ toString least ++
    " argument" ++ plural least ++ ", got " ++ toString vs.length))
  else if most < vs.length then
    throw (.mismatch (function ++ " expected at most " ++ toString most ++
    " argument" ++ plural most ++ ", got " ++ toString vs.length))
  else return vs

def search (args : Arguments) (function : String) : Except Fault (Value × Value × Value) := do
  match ← args.withoutKeywords function with
  | [] => throw (.mismatch (function ++ "() takes at least 1 argument (0 given)"))
  | [part] => return (part, .null, .null)
  | [part, lower] => return (part, lower, .null)
  | [part, lower, upper] => return (part, lower, upper)
  | vs => throw (.mismatch
      (function ++ "() takes at most 3 arguments (" ++ toString vs.length ++ " given)"))

/-- The parameters of a function that takes keywords: how many of them come by position only, how
many are required, and their names. -/
structure Signature where
  function : String
  names : List String
  positionOnly : Nat := 0
  required : Nat := 0

/-- The value of each parameter, by position or by keyword. -/
def assign (args : Arguments) (names : List String) : List (Option Value) :=
  args.positional.map some ++
    ((names.drop args.positional.length).map fun name => args.keywords.get? name)

/-- The first parameter that is given both by position and by keyword, with its place. -/
def doubled? (args : Arguments) (s : Signature) : Option (String × Nat) :=
  (((s.names.take args.positional.length).zipIdx 1).drop s.positionOnly).find? fun (name, _) =>
    args.keywords.has name

def named (args : Arguments) (s : Signature) : Except Fault (List (Option Value)) := do
  let given := args.positional.length + args.keywords.length
  let size := s.names.length
  if size < given then
    throw (.mismatch (s.function ++ "() takes at most " ++ toString size ++ " " ++
      (if args.positional.isEmpty then "keyword " else "") ++ "argument" ++ plural size ++ " (" ++
      toString given ++ " given)"))
  if args.positional.length < s.positionOnly && s.positionOnly ≤ s.required then
    throw (.mismatch (s.function ++ "() takes at least " ++ toString s.positionOnly ++
      " positional argument" ++ plural s.positionOnly ++ " (" ++ toString args.positional.length ++
      " given)"))
  let usable := (s.names.zipIdx).map fun (name, i) => if i < s.positionOnly then "" else name
  let values := args.assign usable
  match (((s.names.zip values).zipIdx 1).take s.required).find? fun ((_, v), _) => v.isNone with
  | some ((name, _), i) =>
      throw (.mismatch (s.function ++ "() missing required argument '" ++ name ++ "' (pos " ++
        toString i ++ ")"))
  | none => pure ()
  match args.doubled? s with
  | some (name, i) =>
      throw (.mismatch ("argument for " ++ s.function ++ "() given by name ('" ++ name ++
        "') and position (" ++ toString i ++ ")"))
  | none => pure ()
  match args.keywords.find? fun entry => !usable.contains entry.1 with
  | some (name, _) =>
      throw (.mismatch ("'" ++ name ++ "' is an invalid keyword argument for " ++
        s.function ++ "()"))
  | none => return values

/-- The parameters of a function that the language defines itself; those with a default come
last. -/
structure Definition where
  function : String
  names : List String
  defaults : Nat := 0
  variadic : Bool := false

/-- The first keyword that names no parameter or one that is given already. -/
def keywordFault? (args : Arguments) (d : Definition) : Option Fault :=
  args.keywords.findSome? fun (name, _) =>
    if !d.names.contains name then
      some (.mismatch (d.function ++ "() got an unexpected keyword argument '" ++ name ++ "'"))
    else if (d.names.take args.positional.length).contains name then
      some (.mismatch (d.function ++ "() got multiple values for argument '" ++ name ++ "'"))
    else none

/-- The values of the parameters of a defined function; the missing ones have defaults. -/
def defined (args : Arguments) (d : Definition) : Except Fault (List (Option Value)) := do
  match args.keywordFault? d with
  | some e => throw e
  | none => pure ()
  let given := args.positional.length
  let size := d.names.length
  if !d.variadic && size < given then
    let least := size - d.defaults
    let count := if d.defaults = 0 then toString size
      else "from " ++ toString least ++ " to " ++ toString size
    throw (.mismatch (d.function ++ "() takes " ++ count ++ " positional argument" ++
      (if d.defaults = 0 then plural size else "s") ++ " but " ++ toString given ++
      (if given = 1 then " was" else " were") ++ " given"))
  let values := args.assign d.names
  let missing := ((d.names.zip values).take (size - d.defaults)).filterMap fun (name, v) =>
    if v.isNone then some ("'" ++ name ++ "'") else none
  if missing.isEmpty then return values
  else throw (.mismatch (d.function ++ "() missing " ++ toString missing.length ++
    " required positional argument" ++ plural missing.length ++ ": " ++
    " and ".intercalate missing))

end Arguments

def wholeNumber (v : Value) : Except Fault Int :=
  match v.integer? with
  | some i => .ok i
  | none => .error (.mismatch ("'" ++ v.typeName ++ "' object cannot be interpreted as an integer"))

/-- A whole number in the place of a truth value, which has to fit into half a word. -/
def flagNumber (v : Value) : Except Fault Bool := do
  let i ← wholeNumber v
  if -2147483648 ≤ i && i ≤ 2147483647 then return i ≠ 0
  else throw (.overflow "Python int too large to convert to C int")

/-- A whole number that fits into a word. -/
def sizedNumber (v : Value) : Except Fault Int := do
  let i ← wholeNumber v
  if -Value.maxIndex - 1 ≤ i && i ≤ Value.maxIndex then return i
  else throw (.overflow "Python int too large to convert to C ssize_t")

end EffectTree.Expression
