/-!
# Transcripts

What a run writes: text for the output, text for diagnostics and log records, in one order.
-/

namespace EffectTree

/-- How important a log record is. -/
inductive Level where
  | debug | info | warning | error
  deriving DecidableEq, Repr

namespace Level

def name : Level → String
  | debug => "DEBUG"
  | info => "INFO"
  | warning => "WARNING"
  | error => "ERROR"

def rank : Level → Nat
  | debug => 10
  | info => 20
  | warning => 30
  | error => 40

end Level

/-- The rank that the name of a level stands for; an unknown name stands for warnings. -/
def rankOf : String → Nat
  | "NOTSET" => 0
  | "DEBUG" => 10
  | "INFO" => 20
  | "WARN" => 30
  | "WARNING" => 30
  | "ERROR" => 40
  | "FATAL" => 50
  | "CRITICAL" => 50
  | _ => 30

inductive Channel where
  | loader | run | interpreter | handlers | registry | context
  deriving DecidableEq, Repr

def Channel.name : Channel → String
  | .loader => "tyeff.analysis.loader"
  | .run => "tyeff.run"
  | .interpreter => "tyeff.interpreter"
  | .handlers => "tyeff.handlers"
  | .registry => "tyeff.registry"
  | .context => "tyeff.context"

structure LogRecord where
  level : Level
  channel : Channel
  message : String
  deriving DecidableEq, Repr

def LogRecord.line (r : LogRecord) : String :=
  r.level.name ++ " " ++ r.channel.name ++ ": " ++ r.message ++ "\n"

inductive Event where
  | output (text : String)
  | diagnostic (text : String)
  | log (record : LogRecord)
  deriving DecidableEq, Repr

/-- Events, kept with the newest first. -/
structure Transcript where
  newestFirst : List Event := []
  deriving DecidableEq, Repr

namespace Transcript

def add (t : Transcript) (e : Event) : Transcript := ⟨e :: t.newestFirst⟩

def addRecords (t : Transcript) (records : List LogRecord) : Transcript :=
  records.foldl (fun t r => t.add (.log r)) t

def events (t : Transcript) : List Event := t.newestFirst.reverse

@[simp] theorem events_add (t : Transcript) (e : Event) : (t.add e).events = t.events ++ [e] := by
  simp [add, events]

def output (t : Transcript) : String :=
  String.join (t.events.filterMap fun
    | .output s => some s
    | _ => none)

@[simp] theorem output_add_output (t : Transcript) (s : String) :
    (t.add (.output s)).output = t.output ++ s := by
  simp [output]

@[simp] theorem output_add_log (t : Transcript) (r : LogRecord) :
    (t.add (.log r)).output = t.output := by
  simp [output]

def diagnostics (t : Transcript) : String :=
  String.join (t.events.filterMap fun
    | .diagnostic s => some s
    | _ => none)

@[simp] theorem diagnostics_add_diagnostic (t : Transcript) (s : String) :
    (t.add (.diagnostic s)).diagnostics = t.diagnostics ++ s := by
  simp [diagnostics]

@[simp] theorem diagnostics_add_log (t : Transcript) (r : LogRecord) :
    (t.add (.log r)).diagnostics = t.diagnostics := by
  simp [diagnostics]

/-- The log records of at least the given rank. -/
def records (t : Transcript) (rank : Nat) : List LogRecord :=
  t.events.filterMap fun
    | .log r => if rank ≤ r.level.rank then some r else none
    | _ => none

/-- Diagnostics with the log records of at least the given rank as lines between them. -/
def diagnosticsWithLog (t : Transcript) (rank : Nat) : String :=
  String.join (t.events.filterMap fun
    | .diagnostic s => some s
    | .log r => if rank ≤ r.level.rank then some r.line else none
    | _ => none)

end Transcript

end EffectTree
