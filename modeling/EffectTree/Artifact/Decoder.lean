import EffectTree.Descriptor.Basic
import EffectTree.Value.Sequence

/-!
# Descriptors written in JSON

Arrays are tuples, objects records and scalars literals. An object with one member whose name starts
with `$` is a special form: an effect, a variable, a reference, a projection and so on.
-/

namespace EffectTree.Artifact

/-- The names of an object that start with `$`. -/
def specialKeys (entries : List (Value × Value)) : List String :=
  entries.filterMap fun entry => match entry.1 with
    | .str name _ => if name.startsWith "$" then some name else none
    | _ => none

def member? (name : String) (entries : List (Value × Value)) : Option Value :=
  Value.lookup? (.ofStr name) entries

def isKey (name : String) : Value → Bool
  | .str s _ => s = name
  | _ => false

/-- The descriptor of a continuation declares an input even if the object does not. -/
def withInput (fields : Table Descriptor) : Table Descriptor :=
  if fields.has "input" then fields else fields ++ [("input", .unknown)]

mutual

def decode : Value → Except Fault Descriptor
  | .list xs _ => (decodeItems xs).map .tuple
  | .dict es mark =>
      let shown := Value.shown (.ofDict es)
      match specialKeys es with
      | [] => (decodeFields es).map .record
      | [key] =>
          let value := (member? key es).getD .null
          if key = "$effect" then (decodeArgs shown es).map (.effect value)
          else if key = "$var" then .ok (.var value)
          else if key = "$ref" then .ok (.ref value)
          else if key = "$result" then .ok (.result value)
          else if key = "$index" then
            match member? "field" es with
            | none => .error (.artifact ("\"$index\" requires a \"field\": " ++ shown))
            | some field => (decodeAt key es).map (.index · field mark)
          else if key = "$and" then (decodePartsAt key es).map .inter
          else if key = "$op" then (decodeArgs shown es).map (.op value)
          else if key = "$unknown" then .ok .unknown
          else if key = "$record" then (decodeFieldsAt key es).map .record
          else if key = "$kind" then (decodeFieldsAt key es).map fun fields =>
            .record (withInput fields)
          else if key = "$lit" then .ok (.literal value)
          else .error (.artifact ("Unknown descriptor form " ++ Text.quoted key ++ ": " ++ shown))
      | keys => .error (.artifact ("Ambiguous descriptor with keys " ++
          Value.shown (.ofList (keys.map .ofStr)) ++ ": " ++ shown))
  | v => .ok (.literal v)

def decodeItems : List Value → Except Fault (List Descriptor)
  | [] => .ok []
  | x :: xs =>
      match decode x with
      | .error e => .error e
      | .ok d => (decodeItems xs).map (d :: ·)

def decodeFields : List (Value × Value) → Except Fault (List (String × Descriptor))
  | [] => .ok []
  | (k, v) :: rest =>
      match decode v with
      | .error e => .error e
      | .ok d => (decodeFields rest).map ((k.display, d) :: ·)

/-- The arguments of a form: the items of its member `args`, none without one. -/
def decodeArgs (shown : String) : List (Value × Value) → Except Fault (List Descriptor)
  | [] => .ok []
  | (k, v) :: rest =>
      if isKey "args" k then
        match v with
        | .list xs _ => decodeItems xs
        | _ => .error (.artifact ("\"args\" must be an array: " ++ shown))
      else decodeArgs shown rest

def decodeAt (key : String) : List (Value × Value) → Except Fault Descriptor
  | [] => .ok .unknown
  | (k, v) :: rest => if isKey key k then decode v else decodeAt key rest

/-- The parts of an intersection: items of an array, characters of a text, names of an object. -/
def decodePartsAt (key : String) : List (Value × Value) → Except Fault (List Descriptor)
  | [] => .ok []
  | (k, v) :: rest =>
      if isKey key k then
        match v with
        | .list xs _ => decodeItems xs
        | v => v.items.map fun parts => parts.map .literal
      else decodePartsAt key rest

def decodeFieldsAt (key : String) : List (Value × Value) → Except Fault (List (String × Descriptor))
  | [] => .ok []
  | (k, v) :: rest =>
      if isKey key k then
        match v with
        | .dict es _ => decodeFields es
        | v => .error (.artifact ("Record fields must be an object: " ++ v.shown))
      else decodeFieldsAt key rest

end

def decodeTable (v : Value) : Except Fault (Table Descriptor) :=
  match v with
  | .dict es _ => decodeFields es
  | _ => .ok []

end EffectTree.Artifact
