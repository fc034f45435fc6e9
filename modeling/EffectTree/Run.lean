import EffectTree.Artifact.Loader
import EffectTree.Evaluation.Interpreter

/-!
# Running artifacts

A run loads an artifact, evaluates its entry and reports a fault that escapes. What it writes and
changes is left in the world.
-/

namespace EffectTree

open Evaluation

/-- What a run is given. -/
structure Invocation where
  path : String
  argv : List String := []
  environ : Table String := []
  /-- Where no settings are given they come from the environment of the process. -/
  settings : Option Settings := none
  processEnviron : Table String := environ
  modules : Artifact.Modules := .none
  fixtures : Fixtures := {}
  input : LineReader := LineReader.ofText ""
  dumpResults : Bool := false

namespace Invocation

/-- A fault that escapes the program is logged and written as a diagnostic. -/
def report (i : Invocation) (o : Outcome) (w : World) : World :=
  match o.fault? with
  | none => w
  | some e =>
      (w.log ⟨.debug, .run, "Run of " ++ i.path ++ " failed: " ++ e.message⟩).note
        (.diagnostic ("Error: " ++ e.message ++ "\n"))

def dump (i : Invocation) (w : World) : Except Fault World :=
  if i.dumpResults then
    w.resolver.renderSlots.map fun text => w.note (.diagnostic (text ++ "\n"))
  else .ok w

/-- Evaluates the entry and reports what has come of it, if it does not wait for ever. -/
def evaluateEntry (i : Invocation) (entry : Descriptor) (w : World) :
    Except Fault Outcome × World :=
  match Evaluation.run entry w with
  | (.waiting, w) => (.ok .waiting, w)
  | (o, w) =>
      let w := i.report o w
      match i.dump w with
      | .ok w => (.ok o, w.close)
      | .error e => (.error e, w.close)

/-- Loads the artifact and evaluates its entry. -/
def run (i : Invocation) (files : Files) : Except Fault Outcome × World :=
  let w : World :=
    { argv := i.argv, environ := i.environ, input := i.input, files, fixtures := i.fixtures }
  match Artifact.load files i.modules i.path Artifact.entryName with
  | .error e => (.error e, w)
  | .ok artifact =>
      let w := { w with
        resolver := { definitions := artifact.definitions }
        fixtures := { w.fixtures with entry := artifact.entry.shown } }
      let w := w.log artifact.loadedRecord
      match w.resolver.render artifact.entry with
      | .error e => (.error e, w)
      | .ok text =>
          let w := w.log ⟨.debug, .run, "Entry point: " ++ text.display⟩
          match i.settings.elim (Settings.ofEnviron i.processEnviron) .ok with
          | .error e => (.error e, w)
          | .ok settings => i.evaluateEntry artifact.entry { w with settings }

end Invocation

end EffectTree
