import EffectTree.Number.Reading
import EffectTree.Table
import EffectTree.Text.Casing
import EffectTree.Value.Order

/-!
# Settings

How programs are evaluated: whether unknown effects are faults, how deeply effects may nest and how
long reading a line may take. Settings come from keywords, which keep their types, or from the
environment.
-/

namespace EffectTree

structure Settings where
  strict : Value := .bool false
  maxDepth : Value := .ofInt 200
  /-- Seconds to wait for a line; null waits forever. -/
  timeout : Value := .null

namespace Settings

/-- Refuses a nesting below one and a time that is not positive. -/
def check (s : Settings) : Except Fault Settings := do
  if ← Value.related .less s.maxDepth (.ofInt 1) then throw (.invalid "max_depth must be >= 1")
  match s.timeout with
  | .null => return s
  | v =>
      if ← Value.related .lessEq v (.ofInt 0) then
        throw (.invalid "readline_timeout must be > 0 or None")
      return s

def ofKeywords (keywords : List (String × Value)) : Except Fault Settings := do
  let s ← keywords.foldlM (fun (s : Settings) (name, v) =>
    match name with
    | "strict" => Except.ok { s with strict := v }
    | "max_depth" => .ok { s with maxDepth := v }
    | "readline_timeout" => .ok { s with timeout := v }
    | _ =>
      .error (.mismatch ("EvaluatorConfig.__init__() got an unexpected keyword argument '" ++
        name ++ "'")))
    {}
  s.check

def isOn (environ : Table String) (name : String) : Bool :=
  ["1", "true", "yes", "on"].contains (Text.lower ((environ.get? name).getD ""))

def given? (environ : Table String) (name : String) : Option String :=
  (environ.get? name).filter (!·.isEmpty)

def depthOf (s : String) : Except Fault Value :=
  match Number.readInt? 10 s with
  | some i => .ok (.ofInt i)
  | none => .error (.notInteger 10 (Text.quoted s))

def timeoutOf (s : String) : Except Fault Value :=
  match Number.readFloat? s with
  | some x => .ok (.ofFloat x)
  | none => .error (.invalid ("could not convert string to float: " ++ Text.quoted s))

def ofEnviron (environ : Table String) : Except Fault Settings := do
  let maxDepth ← match given? environ "TYEFF_MAX_DEPTH" with
    | some s => depthOf s
    | none => pure (.ofInt 200)
  let timeout ← match given? environ "TYEFF_READLINE_TIMEOUT" with
    | some s => timeoutOf s
    | none => pure .null
  check { strict := .bool (isOn environ "TYEFF_STRICT"), maxDepth, timeout }

def exceeded (s : Settings) (depth : Nat) : Bool :=
  match s.maxDepth.real? with
  | some limit => ((Value.Real.int depth).compare limit).any (· ≠ .lt)
  | none => false

/-- The most levels of nesting that are evaluated where the settings set no bound. -/
def maxLevels : Nat := 10000

/-- The number of levels that a limit allows: the least depth that reaches it. -/
def levels (s : Settings) : Nat :=
  match s.maxDepth.real? with
  | some (.int i) => i.toNat
  | some (.float x) => match Number.Binary64.truncate? x with
      | some i => if Number.Binary64.isInteger x then i.toNat else (i + 1).toNat
      | none => maxLevels
  | none => maxLevels

end Settings

def Settings.shown (s : Settings) : String :=
  "EvaluatorConfig(strict=" ++ s.strict.shown ++ ", max_depth=" ++ s.maxDepth.shown ++
    ", readline_timeout=" ++ s.timeout.shown ++ ")"

def logLevelName (environ : Table String) : String :=
  if Settings.isOn environ "TYEFF_DEBUG" then "DEBUG"
  else Text.upper ((environ.get? "TYEFF_LOG_LEVEL").getD "WARNING")

end EffectTree
