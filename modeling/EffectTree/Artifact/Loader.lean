import EffectTree.Artifact.Decoder
import EffectTree.Artifact.Module
import EffectTree.Files
import EffectTree.Json.Parser
import EffectTree.Transcript

/-!
# Loading artifacts

An artifact is a JSON file with an entry, by default `main`, and an optional table of definitions,
or a source that is executed and comes to a module.
-/

namespace EffectTree

structure Artifact where
  /-- The absolute path of the file. -/
  path : String
  entry : Descriptor
  definitions : Table Descriptor

namespace Artifact

def entryName : String := "main"

def ofDocument (path entry : String) (document : Value) : Except Fault Artifact := do
  match document with
  | .dict members _ =>
      match member? entry members with
      | none => throw (.missingEntry path entry)
      | some root =>
          let definitions ← match member? "definitions" members with
            | none => pure []
            | some (.dict es _) => decodeFields es
            | some _ => throw (.artifact ("\"definitions\" must be an object in " ++ path))
          return { path, entry := ← decode root, definitions }
  | _ => throw (.artifact ("Expected a JSON object at the top of " ++ path))

def readDocument (files : Files) (p : FilePath) : Except Fault Value :=
  let place := p.resolved files.root
  match files.readText p place with
  | .error e => .error (.artifact ("Cannot read " ++ place ++ ": " ++ e.message))
  | .ok text => match Json.parse text with
      | .error e => .error (.artifact ("Invalid JSON in " ++ place ++ ": " ++ e.message))
      | .ok v => .ok v

def ofModule (path entry : String) (m : Module) : Except Fault Artifact := do
  match m.get? entry with
  | none => throw (.missingEntry path entry)
  | some root =>
      let definitions ← m.definitions entry
      match root.coerce with
      | .ok d => return { path, entry := d, definitions }
      | .error e =>
          throw (.artifact (Text.quoted entry ++ " in " ++ path ++ " is not a descriptor: " ++
            e.message))

def loadModule (modules : Modules) (place entry : String) : Except Fault Artifact :=
  match modules place with
  | .error message => .error (.artifact ("Error executing " ++ place ++ ": " ++ message))
  | .ok m => ofModule place entry m

def load (files : Files) (modules : Modules) (path entry : String) : Except Fault Artifact := do
  let p := FilePath.parse path
  let place := p.resolved files.root
  if !(← files.exists? p) then throw (.artifact ("Source file not found: " ++ place))
  if isModule place then loadModule modules place entry
  else ofDocument place entry (← readDocument files p)

def loadedRecord (a : Artifact) : LogRecord :=
  ⟨.debug, .loader, "Loaded " ++ a.path ++ " with " ++ toString a.definitions.length ++
    " definitions"⟩

end Artifact

end EffectTree
