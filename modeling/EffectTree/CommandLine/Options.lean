import EffectTree.Number.Reading
import EffectTree.Text.Property

/-!
# Options of the command line

Options stand before the path of an artifact. A long name may be cut short as long as one option is
meant, and take its value after an equals sign; single letters may stand together behind one
hyphen. What comes after `--` is never an option, and neither are negative numbers and texts with a
blank.
-/

namespace EffectTree.CommandLine

inductive Usage where
  | help
  | misuse
  deriving DecidableEq, Repr

def Usage.status : Usage → Nat
  | help => 0
  | misuse => 2

inductive Setting where
  | help | verbose | strict | maxDepth | format | dumpResults
  deriving DecidableEq, Repr

structure Opt where
  names : List String
  setting : Setting
  takesValue : Bool := false
  deriving DecidableEq, Repr

structure Choices where
  verbosity : Nat := 0
  strict : Bool := false
  maxDepth : Option Int := none
  json : Bool := false
  dumpResults : Bool := false
  /-- Whether there are arguments that mean nothing. -/
  unrecognized : Bool := false
  deriving DecidableEq, Repr

/-- Carries out an option with its value, which is empty for an option without one. -/
def Choices.take (c : Choices) (setting : Setting) (value : String) : Except Usage Choices :=
  match setting with
  | .help => .error .help
  | .verbose => .ok { c with verbosity := c.verbosity + 1 }
  | .strict => .ok { c with strict := true }
  | .maxDepth => match Number.readInt? 10 value with
      | some i => .ok { c with maxDepth := some i }
      | none => .error .misuse
  | .format => match value with
      | "text" => .ok { c with json := false }
      | "json" => .ok { c with json := true }
      | _ => .error .misuse
  | .dumpResults => .ok { c with dumpResults := true }

/-- What an argument is taken for. An option may have a text attached, after an equals sign or
directly after its letter. -/
inductive Mark where
  | argument
  | separator
  | unknown
  | option (o : Opt)
  | assigned (o : Opt) (value : String)
  | clustered (o : Opt) (letters : List Char)
  deriving DecidableEq, Repr

def named? (opts : List Opt) (name : String) : Option Opt := opts.find? (·.names.contains name)

def splitAssignment? : List Char → Option (List Char × List Char)
  | [] => none
  | '=' :: rest => some ([], rest)
  | c :: rest => (splitAssignment? rest).map fun (before, after) => (c :: before, after)

def isDecimal (c : Char) : Bool := (Text.decimalDigit? c).isSome

/-- Whether a text is a negative number; a line feed may follow it. -/
def isNegativeNumber (cs : List Char) : Bool :=
  let cs := if cs.getLast? = some '\n' then cs.dropLast else cs
  match cs with
  | '-' :: digits =>
      let fraction := digits.dropWhile isDecimal
      match fraction with
      | [] => !digits.isEmpty
      | '.' :: rest => !rest.isEmpty && rest.all isDecimal
      | _ => false
  | _ => false

/-- The options that an argument could mean, one for each name that fits. -/
def candidates (opts : List Opt) (cs : List Char) : List Mark :=
  opts.flatMap fun o => o.names.filterMap fun name =>
    match cs with
    | '-' :: '-' :: _ =>
        match splitAssignment? cs with
        | some (start, value) =>
            if start.isPrefixOf name.toList then some (.assigned o (String.ofList value)) else none
        | none => if cs.isPrefixOf name.toList then some (.option o) else none
    | _ =>
        if name.toList = cs.take 2 then some (.clustered o (cs.drop 2))
        else if cs.isPrefixOf name.toList then some (.option o) else none

def classify (opts : List Opt) (arg : String) : Except Usage Mark :=
  let cs := arg.toList
  if cs.head? ≠ some '-' then .ok .argument
  else match named? opts arg with
    | some o => .ok (.option o)
    | none =>
        if cs.length = 1 then .ok .argument
        else
          let assigned := (splitAssignment? cs).bind fun (name, value) =>
            (named? opts (String.ofList name)).map fun o => Mark.assigned o (String.ofList value)
          match assigned, candidates opts cs with
          | some mark, _ => .ok mark
          | none, [mark] => .ok mark
          | none, [] =>
              .ok (if isNegativeNumber cs || cs.contains ' ' then .argument else .unknown)
          | none, _ => .error .misuse

def marked (opts : List Opt) : List String → Except Usage (List (String × Mark))
  | [] => .ok []
  | "--" :: rest => .ok (("--", .separator) :: rest.map fun a => (a, .argument))
  | a :: rest => do
      let mark ← classify opts a
      return (a, mark) :: (← marked opts rest)

/-- The options that letters behind one hyphen stand for, and whether the letters end in an unknown
one. -/
def expandLetters (opts : List Opt) : List Char → Except Usage (List Opt × Bool)
  | [] => .ok ([], false)
  | c :: rest =>
      if c = '=' || c = '-' then .error .misuse
      else match named? opts (String.ofList ['-', c]) with
        | none => .ok ([], true)
        | some o => (expandLetters opts rest).map fun (os, open?) => (o :: os, open?)

def takeLetters (opts : List Opt) (c : Choices) (o : Opt) (letters : List Char) :
    Except Usage Choices := do
  let (others, unknown) ← expandLetters opts letters
  let c ← (o :: others).foldlM (fun c o => c.take o.setting "") c
  return if unknown then { c with unrecognized := true } else c

/-- Carries out the options at the front; `pending` is an option that waits for its value. -/
def readOptions (opts : List Opt) (c : Choices) :
    Option Opt → List (String × Mark) → Except Usage (Choices × List (String × Mark))
  | none, [] => .ok (c, [])
  | some _, [] => .error .misuse
  | some o, (value, .argument) :: rest => do readOptions opts (← c.take o.setting value) none rest
  | some _, _ => .error .misuse
  | none, (a, mark) :: rest => do
      match mark with
      | .argument | .separator => return (c, (a, mark) :: rest)
      | .unknown => readOptions opts { c with unrecognized := true } none rest
      | .option o =>
          if o.takesValue then readOptions opts c (some o) rest
          else readOptions opts (← c.take o.setting "") none rest
      | .assigned o value =>
          if o.takesValue then readOptions opts (← c.take o.setting value) none rest
            else throw .misuse
      | .clustered o letters => readOptions opts (← takeLetters opts c o letters) none rest

/-- Carries out the options among what is left over, which means nothing otherwise. -/
def readRest (opts : List Opt) (c : Choices) : List (String × Mark) → Except Usage Choices
  | [] => .ok c
  | (_, mark) :: rest => do
      match mark with
      | .argument | .separator | .unknown => readRest opts { c with unrecognized := true } rest
      | .option o => readRest opts (← c.take o.setting "") rest
      | .assigned .. => throw .misuse
      | .clustered o letters => readRest opts (← takeLetters opts c o letters) rest

end EffectTree.CommandLine
