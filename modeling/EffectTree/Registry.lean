import EffectTree.Evaluation.Context
import EffectTree.Expression.Compile
import EffectTree.Transcript

/-!
# Custom effects

A registry maps the names of custom effects to their handlers. Handlers are compiled from
expressions while a program runs, or given by the host. Entries are never removed; a name that is
defined again keeps its place and has the new handler.
-/

namespace EffectTree

open Evaluation

inductive Product where
  | value (v : Value)
  | descriptor (d : Descriptor)

/-- What comes of a call: the changes that the handler asks for, in order, and how it ends. -/
structure Reply where
  requests : List Request := []
  answer : Except Stop Product

def Reply.ofExcept (answer : Except Fault Product) : Reply := { answer := answer.mapError .fault }

inductive Handler where
  | compiled (body : Expression.Compiled)
  /-- A handler of the host; one that is awaited replies when it is done. -/
  | native (apply : List Value → Context → Reply)

namespace Handler

/-- A handler of the host that has no use for the context but for the arguments of the program. -/
def ofFunction (apply : List Value → List String → Except Fault Product) : Handler :=
  .native fun args c => .ofExcept (apply args c.argv)

def call (handler : Handler) (args : List Value) (c : Context) : Reply :=
  match handler with
  | .compiled body => .ofExcept ((body.call [.ofList args, .context c.text]).map .value)
  | .native apply => apply args c

end Handler

structure Registry where
  entries : List (Value × Handler) := []

namespace Registry

def get? (registry : Registry) (name : Value) : Option Handler :=
  (registry.entries.find? fun entry => entry.1.agrees name).map (·.2)

def names (registry : Registry) : List Value := registry.entries.map (·.1)

def size (registry : Registry) : Nat := registry.entries.length

def contains (registry : Registry) (name : Value) : Except Fault Bool :=
  name.requireHashable.map fun _ => (registry.get? name).isSome

/-- Whether an effect is a custom one; the absent tag never is. -/
def has (registry : Registry) : Value → Except Fault Bool
  | .null => .ok false
  | name => registry.contains name

def putEntry (name : Value) (handler : Handler) : List (Value × Handler) → List (Value × Handler)
  | [] => [(name, handler)]
  | entry :: rest =>
      if entry.1.agrees name then (entry.1, handler) :: rest
        else entry :: putEntry name handler rest

def put (registry : Registry) (name : Value) (handler : Handler) : Registry :=
  ⟨putEntry name handler registry.entries⟩

def register (registry : Registry) (name : Value) (handler? : Option Handler) :
    Except Fault (Registry × List LogRecord) := do
  match handler? with
  | none => throw (.mismatch ("Handler for " ++ name.shown ++ " must be callable"))
  | some handler =>
      let known ← registry.contains name
      let records := if known then
        [⟨.info, .registry, "Redefining custom effect " ++ name.display⟩] else []
      return (registry.put name handler, records)

/-- Compiles a source and registers it under a name that is a text and not empty. -/
def define (registry : Registry) (name source : Value) : Except Fault (Registry × List LogRecord) :=
  do
  match name with
  | .str s _ =>
      if s.isEmpty then throw (unnamed name)
      let body ← Expression.compileValue source
      let (registry, records) ← registry.register name (some (.compiled body))
      return (registry, records ++
        [⟨.debug, .registry, "Defined custom effect " ++ s ++ ": " ++ source.display⟩])
  | _ => throw (unnamed name)
where
  unnamed (name : Value) : Fault :=
    .expression ("Effect name must be a non-empty string, got " ++ name.shown)

def find (registry : Registry) (name : Value) : Except Fault Handler := do
  name.requireHashable
  match registry.get? name with
  | some handler => return handler
  | none => throw (.missingKey name)

end Registry

end EffectTree
