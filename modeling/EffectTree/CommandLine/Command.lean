import EffectTree.CommandLine.Options

/-!
# Commands

A command line has options, then a command with options of its own, then the path of an artifact.
What follows the path of an artifact to run are the arguments of the program.
-/

namespace EffectTree.CommandLine

inductive Command where
  | run (path : String) (args : List String)
  | present (path : String)
  deriving DecidableEq, Repr

def helpOption : Opt := { names := ["-h", "--help"], setting := .help }

def globalOptions : List Opt :=
  [helpOption, { names := ["-v", "--verbose"], setting := .verbose }]

def runOptions : List Opt :=
  [helpOption, { names := ["--strict"], setting := .strict },
   { names := ["--max-depth"], setting := .maxDepth, takesValue := true },
   { names := ["--format"], setting := .format, takesValue := true },
   { names := ["--dump-results"], setting := .dumpResults }]

def presentOptions : List Opt := [helpOption]

/-- The first argument and what follows it; a separator next to it is dropped. -/
def firstArgument? : List (String × Mark) → Option (String × List (String × Mark))
  | (a, .argument) :: (_, .separator) :: rest => some (a, rest)
  | (a, .argument) :: rest => some (a, rest)
  | (_, .separator) :: (a, _) :: rest => some (a, rest)
  | _ => none

def parseCommand (c : Choices) (name : String) (args : List String) :
    Except Usage (Choices × Command) := do
  match name with
  | "run" =>
      let (c, rest) ← readOptions runOptions c none (← marked runOptions args)
      match firstArgument? rest with
      | some (path, rest) => return (c, .run path (rest.map (·.1)))
      | none => throw .misuse
  | "show" =>
      let (c, rest) ← readOptions presentOptions c none (← marked presentOptions args)
      match firstArgument? rest with
      | some (path, rest) => return (← readRest presentOptions c rest, .present path)
      | none => throw .misuse
  | _ => throw .misuse

def parse (args : List String) : Except Usage (Choices × Command) := do
  let (c, rest) ← readOptions globalOptions {} none (← marked globalOptions args)
  match rest with
  | (name, .argument) :: rest =>
      let (c, command) ← parseCommand c name (rest.map (·.1))
      if c.unrecognized then throw .misuse
      return (c, command)
  | _ => throw .misuse

end EffectTree.CommandLine
