import EffectTree.Fault
import EffectTree.Text.Utf8

/-!
# Files

A tree of files and directories under one working directory. Relative paths are looked up component
by component; a path that leaves the working directory finds only the directories around it.
-/

namespace EffectTree

/-- A path as it is written: its components without empty ones and single dots. -/
structure FilePath where
  absolute : Bool
  parts : List String
  deriving DecidableEq, Repr

namespace FilePath

def parse (s : String) : FilePath where
  absolute := s.startsWith "/"
  parts := (s.splitOn "/").filter fun part => part ≠ "" && part ≠ "."

/-- The text of a path; an empty one is a dot. -/
def text (p : FilePath) : String :=
  if p.absolute then "/" ++ "/".intercalate p.parts
  else if p.parts.isEmpty then "." else "/".intercalate p.parts

/-- Components with the double dots resolved, the last first. -/
def resolveParts : List String → List String → List String
  | acc, [] => acc
  | acc, ".." :: rest => resolveParts acc.tail rest
  | acc, part :: rest => resolveParts (part :: acc) rest

def resolved (p : FilePath) (root : String) : String :=
  let parts := (resolveParts [] p.parts).reverse
  if p.absolute then "/" ++ "/".intercalate parts else "/".intercalate (root :: parts)

end FilePath

inductive FileNode where
  | file (octets : List UInt8)
  | directory
  deriving DecidableEq

/-- Files and directories under their paths, which are lists of components. -/
structure Files where
  /-- The absolute text of the working directory. -/
  root : String := ""
  nodes : List (List String × FileNode) := []

namespace Files

def get? (fs : Files) (path : List String) : Option FileNode :=
  if path.isEmpty then some .directory else (fs.nodes.find? (·.1 = path)).map (·.2)

def putNode (path : List String) (node : FileNode) : List (List String × FileNode) →
    List (List String × FileNode)
  | [] => [(path, node)]
  | entry :: rest =>
    if entry.1 = path then (path, node) :: rest else entry :: putNode path node rest

def put (fs : Files) (path : List String) (node : FileNode) : Files :=
  { fs with nodes := putNode path node fs.nodes }

def withParents (fs : Files) (path : List String) : Files :=
  ((List.range path.length).map path.take).foldl
    (fun fs dir => if (fs.get? dir).isSome then fs else fs.put dir .directory) fs

def add (fs : Files) (path : String) (node : FileNode) : Files :=
  let parts := (FilePath.parse path).parts
  (fs.withParents parts).put parts node

def maxName : Nat := 255

/-- Where a path leads: outside of the tree, or to a place that may or may not hold something. -/
inductive Place where
  | outside
  | inside (path : List String)

/-- Follows components from a place, the one reached so far with its last component first. All but
the last have to be directories. -/
def follow (fs : Files) : List String → Nat → List String → Except FileProblem Place
  | reached, 0, [] => .ok (.inside reached.reverse)
  | _, _ + 1, [] => .ok .outside
  | reached, above, ".." :: rest =>
      match fs.get? reached.reverse with
      | some (.file _) => .error .notDirectory
      | none => .error .notFound
      | some .directory =>
          match reached with
          | [] => follow fs [] (above + 1) rest
          | _ :: upper => follow fs upper above rest
  | _, _ + 1, _ :: _ => .error .notFound
  | reached, 0, part :: rest =>
      match fs.get? reached.reverse with
      | some (.file _) => .error .notDirectory
      | none => .error .notFound
      | some .directory =>
          if maxName < part.utf8ByteSize then .error .nameTooLong
          else follow fs (part :: reached) 0 rest

def locate (fs : Files) (p : FilePath) : Except FileProblem Place :=
  if p.absolute then
    if p.parts.isEmpty then .ok .outside
    else if p.parts.any fun part => maxName < part.utf8ByteSize then .error .nameTooLong
    else .error .notFound
  else fs.follow [] 0 p.parts

def find (fs : Files) (p : FilePath) : Except FileProblem FileNode :=
  match fs.locate p with
  | .error e => .error e
  | .ok .outside => .ok .directory
  | .ok (.inside path) => match fs.get? path with
      | some node => .ok node
      | none => .error .notFound

def unifyEnds : List Char → List Char
  | [] => []
  | '\r' :: '\n' :: rest => '\n' :: unifyEnds rest
  | '\r' :: rest => '\n' :: unifyEnds rest
  | c :: rest => c :: unifyEnds rest

def embeddedNull : Fault := .invalid "embedded null byte"

/-- The text of a file; `shown` is how messages write its path. -/
def readText (fs : Files) (p : FilePath) (shown : String) : Except Fault String :=
  if let some problem := Text.unencodablePath? shown then .error (.unencodable problem)
  else if shown.toList.contains (Char.ofNat 0) then .error embeddedNull
  else match fs.find p with
    | .error e => .error (.file e shown)
    | .ok .directory => .error (.file .isDirectory shown)
    | .ok (.file octets) => match Text.utf8Decode octets with
        | .ok s => .ok (String.ofList (unifyEnds s.toList))
        | .error e => .error (.undecodable e.message)

def writeText (fs : Files) (p : FilePath) (text : String) : Except Fault Files :=
  if let some problem := Text.unencodablePath? p.text then .error (.unencodable problem)
  else if p.text.toList.contains (Char.ofNat 0) then .error embeddedNull
  else match fs.locate p with
    | .error e => .error (.file e p.text)
    | .ok .outside => .error (.file .isDirectory p.text)
    | .ok (.inside path) => match fs.get? path with
        | some .directory => .error (.file .isDirectory p.text)
        | _ => .ok (fs.put path (.file (Text.utf8Encode text)))

/-- Whether something is there; a name that is too long is a fault. -/
def exists? (fs : Files) (p : FilePath) : Except Fault Bool :=
  match fs.find p with
  | .ok _ => .ok true
  | .error .nameTooLong => .error (.file .nameTooLong (p.resolved fs.root))
  | .error _ => .ok false

/-- The files that are not in an earlier tree with the same content. -/
def changedSince (fs earlier : Files) : List (String × List UInt8) :=
  fs.nodes.filterMap fun (path, node) => match node with
    | .directory => none
    | .file octets => match earlier.get? path with
        | some (.file before) =>
          if before = octets then none else some ("/".intercalate path, octets)
        | _ => some ("/".intercalate path, octets)

end Files

end EffectTree
