import EffectTree.Evaluation.ExitCode
import EffectTree.Evaluation.Opcode
import EffectTree.Evaluation.World

/-!
# Leaf effects

Effects that produce values, use cells, the console, files or the process, and effects that add to
the vocabulary. Each gets its arguments and gives the key of its result, if it has one.
-/

namespace EffectTree.Evaluation

open Machine

def valueOrNull (d? : Option Descriptor) : Descriptor := d?.getD (.literal .null)

def yielding (d : Descriptor) : Machine (Option String) := do return some (← store d)

/-- The message of a thrown payload: a text is its own message, a payload that is not literal has
the text of its descriptor, any other is written in JSON. -/
def thrownMessage (payload : Value) (text? : Option Value) : String :=
  match payload, text? with
  | .str s _, _ => s
  | .null, some text => text.display
  | v, _ => match Json.print v with
      | .ok s => s
      | .error _ => v.shown

def raise (d? : Option Descriptor) : Machine (Option String) := do
  match d? with
  | none => fail (.thrown .null (thrownMessage .null none))
  | some d =>
      let payload ← literal d
      let text ← render d
      fail (.thrown payload (thrownMessage payload (some text)))

def writeOutput : Value → Machine Unit
  | .str s _ => note (.output s)
  | v => fail (.mismatch ("string argument expected, got '" ++ v.typeName ++ "'"))

def writeDiagnostic (parts : List Value) : Machine Unit :=
  note (.diagnostic (" ".intercalate (parts.map Value.display) ++ "\n"))

/-- A literal text as it is, anything else rendered. -/
def textOf (d : Descriptor) : Machine Value := do
  match ← literal d with
  | .str s _ => return .ofStr s
  | _ => render d

def putString : Option Descriptor → Machine (Option String)
  | none => return none
  | some d => do
      writeOutput (← textOf d)
      return none

def optionalText : Option Descriptor → Machine Value
  | some d => textOf d
  | none => pure (.ofStr "")

def renderOr (absent : String) : Option Descriptor → Machine Value
  | some d => render d
  | none => pure (.ofStr absent)

def debug (label? value? : Option Descriptor) : Machine (Option String) := do
  let label ← optionalText label?
  let rendered ← renderOr "undefined" value?
  writeDiagnostic [label, rendered]
  yielding (.literal rendered)

def pathOf (opcode : String) (d? : Option Descriptor) : Machine FilePath := do
  match ← literalOf d? with
  | .str s _ => return FilePath.parse s
  | _ =>
      let rendered ← renderOr "nothing" d?
      fail (.refused (opcode ++ " expects a literal path, got " ++ rendered.display))

def readFile (d? : Option Descriptor) : Machine (Option String) := do
  let path ← pathOf "ReadFile" d?
  let text ← lift ((← get).files.readText path path.text)
  yielding (.literal (.ofStr text))

/-- Writes a text to a file; one that cannot be encoded leaves the file empty. -/
def writeText (path : FilePath) : Value → Machine (Option String)
  | .str s _ => do
      let problem := Text.unencodable? s
      let files ← lift ((← get).files.writeText path (if problem.isSome then "" else s))
      modify ({ · with files })
      match problem with
      | some text => fail (.unencodable text)
      | none => return none
  | v => fail (.mismatch ("data must be str, not " ++ v.typeName))

def writeFile (path? contents? : Option Descriptor) : Machine (Option String) := do
  let path ← pathOf "WriteFile" path?
  writeText path (← optionalText contents?)

def readLine : Machine (Option String) := do
  let w ← get
  let (answer?, input) := w.input.read w.settings.timeout
  set { w with input }
  match answer? with
  | none => throw .waiting
  | some answer => yielding (.literal (.ofStr (← lift answer)))

def environment (name : Value) : Machine (Option String) := do
  let environ := (← get).environ
  yielding (.literal (.ofStr (match name with
    | .null => ""
    | v => (environ.get? v.display).getD "")))

def define (name source : Value) : Machine (Option String) := do
  let (registry, records) ← lift ((← get).registry.define name source)
  modify ({ · with registry })
  records.forM fun r => note (.log r)
  return none

def expression (source : Value) : Machine (Option String) := do
  let compiled ← lift (Expression.compileValue source)
  let value ← lift (Expression.evaluate compiled.body [])
  yielding (← lift (Descriptor.describe value))

def runLeaf (effect : Leaf) (args : List Descriptor) : Machine (Option String) := do
  match effect with
  | .produce => yielding (valueOrNull args[0]?)
  | .raise => raise args[0]?
  | .createCell =>
      let key ← modifyGet (·.addCell (valueOrNull args[0]?))
      yielding (.literal (.ofStr key))
  | .readCell =>
      let key ← literalOf args[0]?
      yielding (← lift ((← get).cells.get key))
  | .writeCell =>
      let key ← literalOf args[0]?
      let cells ← lift ((← get).cells.set key (valueOrNull args[1]?))
      modify ({ · with cells })
      return none
  | .deleteCell =>
      let key ← literalOf args[0]?
      let (_, cells) ← lift ((← get).cells.delete key)
      modify ({ · with cells })
      return none
  | .print =>
      writeDiagnostic (← args.mapM render)
      return none
  | .putString => putString args[0]?
  | .debug => debug args[0]? args[1]?
  | .readFile => readFile args[0]?
  | .writeFile => writeFile args[0]? args[1]?
  | .readLine => readLine
  | .environment => environment (← literalOf args[0]?)
  | .arguments => yielding (.tuple ((← get).argv.map fun a => .literal (.ofStr a)))
  | .exit => throw (.exit (← lift (exitCode (← literalOf args[0]?))))
  | .define =>
      let name ← literalOf args[0]?
      let source ← literalOf args[1]?
      define name source
  | .expression => expression (← literalOf args[0]?)

end EffectTree.Evaluation
