import EffectTree.CommandLine.Command
import EffectTree.Run

/-!
# Carrying out commands

A command ends with an exit status or with a fault that nobody expects, or it waits for ever. Faults
of artifacts and of settings are reported and give the status 2.
-/

namespace EffectTree.CommandLine

open Evaluation

structure Surroundings where
  files : Files := {}
  modules : Artifact.Modules := .none
  environ : Table String := []
  input : LineReader := LineReader.ofText ""

inductive Ending where
  | usage (why : Usage)
  | exit (status : Int)
  | fault (cause : Fault)
  /-- The program waits for a line that does not come. -/
  | waiting

structure Report where
  ending : Ending
  output : String := ""
  diagnostics : String := ""
  files : Files
  /-- Whether a read was left without a line. -/
  starved : Bool := false

/-- The least rank of the log records that are written. -/
def rankFor (verbosity : Nat) (environ : Table String) : Nat :=
  match verbosity with
  | 0 => rankOf (logLevelName environ)
  | 1 => Level.info.rank
  | _ => Level.debug.rank

def settingsFor (c : Choices) (environ : Table String) : Except Fault Settings := do
  let s ← Settings.ofEnviron environ
  let s ← if c.strict then Settings.check { s with strict := .bool true } else pure s
  match c.maxDepth with
  | some limit => Settings.check { s with maxDepth := .ofInt limit }
  | none => return s

/-- A value that JSON can write, or its literal text. -/
def jsonSafe (v : Value) : Value :=
  match Json.print v with
  | .ok _ => v
  | .error _ => .ofStr v.shown

/-- The word for the outcome of a run that ends. -/
def statusWord (o : Outcome) : String :=
  if o.fault?.isSome then "error" else if o.exitCode?.isSome then "exit" else "ok"

/-- What is written of a run that ends with a status. -/
def summary (o : Outcome) (status : Int) (w : World) : Except Fault String := do
  let value ← o.value w
  let fields : List (Value × Value) :=
    [(.ofStr "status", .ofStr (statusWord o)), (.ofStr "exit_code", .ofInt status),
     (.ofStr "result", jsonSafe value)]
  let details : List (Value × Value) := match o.fault? with
    | some e => [(.ofStr "error", .ofStr e.kind.name), (.ofStr "message", .ofStr e.message)]
    | none => []
  Json.print (.ofDict (fields ++ details))

/-- How a command ends that has come to a run with a status. -/
def conclude (c : Choices) (o : Outcome) (status : Int) (w : World) : Ending × World :=
  if c.json then
    match summary o status w with
    | .ok text => (.exit status, w.note (.output (text ++ "\n")))
    | .error e => (.fault e, w)
  else (.exit status, w)

def runCommand (c : Choices) (path : String) (args : List String) (s : Surroundings) :
    Ending × World :=
  match settingsFor c s.environ with
  | .error e => (.fault e, { files := s.files })
  | .ok settings =>
      let invocation : Invocation :=
        { path, argv := args, environ := s.environ, settings := some settings, modules := s.modules
          input := s.input, dumpResults := c.dumpResults }
      match invocation.run s.files with
      | (.error e, w) => (.fault e, w)
      | (.ok o, w) => match o.status? with
          | some status => conclude c o status w
          | none => (.waiting, w)

def presentCommand (path : String) (s : Surroundings) : Ending × World :=
  let w : World := { files := s.files }
  match Artifact.load s.files s.modules path Artifact.entryName with
  | .error e => (.fault e, w)
  | .ok artifact =>
      let w := w.log artifact.loadedRecord
      let resolver : Resolver := { definitions := artifact.definitions }
      match resolver.render artifact.entry with
      | .error e => (.fault e, w)
      | .ok text => (.exit 0, w.note (.output (text.display ++ "\n")))

/-- The status of faults that are reported as misuse. -/
def misuseStatus : Int := 2

def execute (args : List String) (s : Surroundings) : Report :=
  match parse args with
  | .error why => { ending := .usage why, files := s.files }
  | .ok (c, command) =>
      let (ending, w) := match command with
        | .run path args => runCommand c path args s
        | .present path => presentCommand path s
      let (ending, w) : Ending × World := match ending with
        | .fault e =>
            if e.kind.isArtifact || e.kind.isInvalid then
              (.exit misuseStatus, w.note (.diagnostic ("Error: " ++ e.message ++ "\n")))
            else (.fault e, w)
        | ending => (ending, w)
      { ending
        output := w.transcript.output
        diagnostics := w.transcript.diagnosticsWithLog (rankFor c.verbosity s.environ)
        files := w.files
        starved := w.input.pending }

end EffectTree.CommandLine
