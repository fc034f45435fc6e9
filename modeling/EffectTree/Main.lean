import EffectTree.CommandLine.Report

/-!
# The program

Carries out the command line of the process on the files below the working directory. A command is a
function of its surroundings, so that it can be carried out again from the start when it asks for a
line of input that has not been read yet.
-/

namespace EffectTree.Main

def readTree (place : String) : Nat → List String → Files → IO Files
  | 0, _, files => return files
  | levels + 1, parts, files => do
      let dir ← IO.FS.realPath ("/".intercalate (place :: parts))
      let mut files := files
      for entry in ← dir.readDir do
        let path := parts ++ [entry.fileName]
        if ← entry.path.isDir then
          files ← readTree place levels path (files.put path .directory)
        else
          try
            let content ← IO.FS.readBinFile entry.path
            files := files.put path (.file content.toList)
          catch _ => pure ()
      return files

def writeChanges (place : String) (now before : Files) : IO Unit := do
  for (path, octets) in now.changedSince before do
    IO.FS.writeBinFile (place ++ "/" ++ path) ⟨octets.toArray⟩

def readEnviron : IO (Table String) := do
  try
    let content ← IO.FS.readBinFile "/proc/self/environ"
    let text := Text.utf8DecodeLossy content.toList
    return (text.splitOn (String.ofList [Char.ofNat 0])).filterMap fun entry =>
      match entry.splitOn "=" with
      | name :: first :: rest => some (name, "=".intercalate (first :: rest))
      | _ => none
  catch _ => return []

/-- Carries out a command line, reading a line of input each time one is asked for. -/
partial def settle (input : IO.FS.Stream) (args : List String) (s : CommandLine.Surroundings) :
    IO CommandLine.Report := do
  let report := CommandLine.execute args s
  if report.starved && !s.input.ended then
    let line ← input.getLine
    let reader := if line.isEmpty then s.input.finish else s.input.receive (Text.utf8Encode line)
    settle input args { s with input := reader }
  else return report

end EffectTree.Main

open EffectTree in
def main (args : List String) : IO UInt32 := do
  let place := toString (← IO.currentDir)
  let files ← Main.readTree place 64 [] { root := place }
  let report ← Main.settle (← IO.getStdin) args
    { files, environ := ← Main.readEnviron, input := LineReader.silent }
  Main.writeChanges place report.files files
  IO.print report.output
  IO.eprint report.diagnostics
  match report.ending with
  | .usage why =>
      IO.eprintln "usage: tyeff [-h] [-v] \x7brun,show\x7d ..."
      return why.status.toUInt32
  | .exit status => return (status.emod 256).toNat.toUInt32
  | .fault e =>
      IO.eprintln (e.kind.name ++ ": " ++ e.message)
      return 1
  | .waiting => throw (IO.userError "the input has ended and still a line is waited for")
