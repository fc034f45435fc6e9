import EffectTree.Value.Show

/-!
# Faults

Everything that can go wrong while a program is read, resolved or evaluated, one constructor for
each cause, with the class and the message under which it is reported. Leaving the program through
`Exit` is not a fault.
-/

namespace EffectTree

inductive FileProblem where
  | notFound
  | isDirectory
  | notDirectory
  | nameTooLong
  deriving DecidableEq, Repr

inductive FaultKind where
  | general | artifact | missingEntry | resolution | cellDeleted | thrown | endOfInput
  | inputTimeout
  | unhandled | depth | expression
  | mismatch | invalid | key | index | noAttribute | zeroDivision | overflow | recursion
  | fileNotFound | isDirectory | notDirectory | fileSystem | undecodable | unencodable | lookup
  | json
  deriving DecidableEq, Repr

namespace FaultKind

def name : FaultKind → String
  | general => "TyeffError"
  | artifact => "ArtifactError"
  | missingEntry => "MissingEntryPointError"
  | resolution => "SpecializationError"
  | cellDeleted => "RefDeletedError"
  | thrown => "EffectFault"
  | endOfInput => "EndOfInputError"
  | inputTimeout => "InputTimeoutError"
  | unhandled => "UnhandledEffectError"
  | depth => "EvaluationDepthError"
  | expression => "ExpressionError"
  | mismatch => "TypeError"
  | invalid => "ValueError"
  | key => "KeyError"
  | index => "IndexError"
  | noAttribute => "AttributeError"
  | zeroDivision => "ZeroDivisionError"
  | overflow => "OverflowError"
  | recursion => "RecursionError"
  | fileNotFound => "FileNotFoundError"
  | isDirectory => "IsADirectoryError"
  | notDirectory => "NotADirectoryError"
  | fileSystem => "OSError"
  | undecodable => "UnicodeDecodeError"
  | unencodable => "UnicodeEncodeError"
  | lookup => "LookupError"
  | json => "JSONDecodeError"

def isMismatch (k : FaultKind) : Bool := k = .mismatch

def isArithmetic : FaultKind → Bool
  | zeroDivision | overflow => true
  | _ => false

def isOfOperands (k : FaultKind) : Bool := k.isMismatch || k.isArithmetic

/-- Faults about a value of the right type that is still not acceptable. -/
def isInvalid : FaultKind → Bool
  | invalid | undecodable | unencodable | json => true
  | _ => false

def isArtifact : FaultKind → Bool
  | artifact | missingEntry => true
  | _ => false

end FaultKind

inductive Fault where
  | mismatch (text : String)
  /-- A value of the right type that is not acceptable. -/
  | invalid (text : String)
  | missingKey (key : Value)
  | outOfBounds (text : String)
  | noAttribute (text : String)
  | divisionByZero (text : String)
  | overflow (text : String)
  /-- The nesting of resolutions or of effects is deeper than the evaluator supports. -/
  | recursion
  | expression (text : String)
  | unknownDefinition (name : Value)
  | cyclicDefinition (name : Value)
  | unknownSlot (key : Value)
  | unresolved (steps : Int)
  | cyclicFields (names : List String)
  | unknownOperator (name : Value)
  | operatorFailed (name : Value) (reason : String)
  | conditionArity
  | artifact (text : String)
  | missingEntry (path entry : String)
  | cellDeleted
  | thrown (payload : Value) (text : String)
  | endOfInput
  | inputTimeout (seconds : Value)
  | unhandled (tag : Value) (rendered : String)
  | depthExceeded (limit : Value)
  | refused (text : String)
  | file (problem : FileProblem) (path : String)
  | undecodable (text : String)
  | unencodable (text : String)
  | unknownName (text : String)
  | json (text : String)
  deriving Inhabited

namespace Fault

def kind : Fault → FaultKind
  | mismatch _ => .mismatch
  | invalid _ => .invalid
  | missingKey _ => .key
  | outOfBounds _ => .index
  | noAttribute _ => .noAttribute
  | divisionByZero _ => .zeroDivision
  | overflow _ => .overflow
  | recursion => .recursion
  | expression _ => .expression
  | unknownDefinition _ | cyclicDefinition _ | unknownSlot _ | unresolved _ | cyclicFields _
  | unknownOperator _ | operatorFailed .. | conditionArity => .resolution
  | artifact _ => .artifact
  | missingEntry .. => .missingEntry
  | cellDeleted => .cellDeleted
  | thrown .. => .thrown
  | endOfInput => .endOfInput
  | inputTimeout _ => .inputTimeout
  | unhandled .. => .unhandled
  | depthExceeded _ => .depth
  | refused _ => .general
  | file .notFound _ => .fileNotFound
  | file .isDirectory _ => .isDirectory
  | file .notDirectory _ => .notDirectory
  | file .nameTooLong _ => .fileSystem
  | undecodable _ => .undecodable
  | unencodable _ => .unencodable
  | unknownName _ => .lookup
  | json _ => .json

def fileText : FileProblem → String
  | .notFound => "[Errno 2] No such file or directory"
  | .isDirectory => "[Errno 21] Is a directory"
  | .notDirectory => "[Errno 20] Not a directory"
  | .nameTooLong => "[Errno 36] File name too long"

def message : Fault → String
  | mismatch text | invalid text | outOfBounds text | noAttribute text | divisionByZero text
  | overflow text | expression text | artifact text | refused text | undecodable text
  | unencodable text | unknownName text | json text => text
  | missingKey key => key.shown
  | recursion => "maximum recursion depth exceeded"
  | unknownDefinition name => "Unknown definition: " ++ name.shown
  | cyclicDefinition name => "Cyclic definition: " ++ name.shown
  | unknownSlot key => "Unknown result slot: " ++ key.shown
  | unresolved steps => "Descriptor did not resolve after " ++ Number.intText steps ++ " steps"
  | cyclicFields names => "Cyclic field reference: " ++ ", ".intercalate names
  | unknownOperator name => "Unknown operator: " ++ name.shown
  | operatorFailed name reason => "Operator " ++ name.shown ++ " failed: " ++ reason
  | conditionArity => "if expects exactly three arguments"
  | missingEntry path entry =>
      "No \"" ++ entry ++ "\" entrypoint defined in source file: " ++ path
  | cellDeleted => "Ref has been deleted"
  | thrown _ text => text
  | endOfInput => "End of input"
  | inputTimeout seconds => "No input within " ++ seconds.display ++ "s"
  | unhandled tag rendered => tag.display ++ " effect is not handled: " ++ rendered
  | depthExceeded limit => "Effect nesting exceeded max_depth=" ++ limit.display
  | file problem path => fileText problem ++ ": " ++ Text.quoted path

def unhashable (v : Value) : Fault := .mismatch ("unhashable type: '" ++ v.typeName ++ "'")

def notIterable (v : Value) : Fault := .mismatch ("'" ++ v.typeName ++ "' object is not iterable")

def operands (symbol : String) (a b : Value) : Fault :=
  .mismatch ("unsupported operand type(s) for " ++ symbol ++ ": '" ++ a.typeName ++ "' and '" ++
    b.typeName ++ "'")

def unordered (symbol : String) (a b : Value) : Fault :=
  .mismatch ("'" ++ symbol ++ "' not supported between instances of '" ++ a.typeName ++ "' and '" ++
    b.typeName ++ "'")

/-- A literal that is no integer of its base; a long one is cut off. -/
def notInteger (base : Int) (literal : String) : Fault :=
  .invalid ("invalid literal for int() with base " ++ Number.intText base ++ ": " ++
    String.ofList (literal.toList.take 200))

end Fault

def Value.requireHashable (v : Value) : Except Fault Unit :=
  match v.unhashable? with
  | some part => .error (.unhashable part)
  | none => .ok ()

end EffectTree
