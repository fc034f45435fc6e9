import EffectTree.Descriptor.Show
import EffectTree.Resolution.Head

/-!
# Rendering

A descriptor as text: literals in JSON, tuples in brackets, records in braces, effects as a tag with
arguments in angle brackets. A definition inside itself is written by its name. An effect without
arguments is written as its tag, whatever value that is.
-/

namespace EffectTree

namespace Resolution

def joinTexts (separator : String) (parts : List Value) : Except Fault String :=
  (go 0 parts).map separator.intercalate
where
  go (i : Nat) : List Value → Except Fault (List String)
    | [] => .ok []
    | .str s _ :: rest => (go (i + 1) rest).map (s :: ·)
    | v :: _ => .error (.mismatch ("sequence item " ++ toString i ++ ": expected str instance, " ++
        v.typeName ++ " found"))

def memberName (name : String) : String :=
  if Text.isIdentifier name then name else Json.stringText name

/-- The definitions around a descriptor, or the name of the one that it is inside already. -/
def surroundings (seen : List Value) : Descriptor → Except Fault (Value ⊕ List Value)
  | .ref name => name.requireHashable.map fun _ =>
      if seen.any (·.agrees name) then .inl name else .inr (name :: seen)
  | _ => .ok (.inr seen)

def renderParts (render : Descriptor → Except Fault Value) (parts : List Descriptor) :
    Except Fault String := do
  joinTexts ", " (← parts.mapM render)

def renderMember (render : Descriptor → Except Fault Value) (entry : String × Descriptor) :
    Except Fault String :=
  (render entry.2).map fun value => memberName entry.1 ++ ": " ++ value.display

/-- Renders a descriptor in head form, with a given way to render its parts. -/
def renderHead (render : Descriptor → Except Fault Value) : Descriptor → Except Fault Value
  | .literal v => (Json.print v).map .ofStr
  | .unknown => .ok (.ofStr "unknown")
  | .tuple items => (renderParts render items).map fun text => .ofStr ("[" ++ text ++ "]")
  | .record [] => .ok (.ofStr "\x7b\x7d")
  | .record fields => (fields.mapM (renderMember render)).map fun members =>
      .ofStr ("\x7b " ++ "; ".intercalate members ++ " \x7d")
  | .effect tag args =>
      let tag := if tag.truthy then tag else .ofStr "anonymous"
      if args.isEmpty then .ok tag
      else (renderParts render args).map fun text => .ofStr (tag.display ++ "<" ++ text ++ ">")
  | .var name => (Json.print name).map fun text => .ofStr ("this[" ++ text ++ "]")
  | .op name args =>
    (renderParts render args).map fun text => .ofStr (name.display ++ "<" ++ text ++ ">")
  | other => .ok (.ofStr other.shown)

/-- Renders down to the given number of levels; `seen` holds the names of the definitions around. -/
def renderAt (r : Resolver) : Nat → List Value → Descriptor → Except Fault Value
  | 0, _, _ => .error .recursion
  | levels + 1, seen, d =>
      match surroundings seen d with
      | .error e => .error e
      | .ok (.inl name) => .ok name
      | .ok (.inr seen) =>
          match r.head d with
          | .error e => .error e
          | .ok head => renderHead (renderAt r levels seen) head

end Resolution

namespace Resolver

open Resolution

def render (r : Resolver) (d : Descriptor) : Except Fault Value := renderAt r r.nesting [] d

/-- The result slots, one in each line. -/
def renderSlots (r : Resolver) : Except Fault String := do
  let lines ← r.slots.mapM fun entry => do
    let value ← r.render entry.2
    return "  " ++ entry.1 ++ ": " ++ value.display ++ ";"
  return "\n".intercalate (["results = \x7b"] ++ lines ++ ["\x7d"])

end Resolver

end EffectTree
