import EffectTree.Artifact.Decoder

/-!
# Writing descriptors in JSON

Every descriptor has a JSON value that stands for it. Literals and records are always written as
special forms, so that neither their data nor their field names are taken for forms themselves.
-/

namespace EffectTree.Artifact

def memberOf (name : String) (value : Value) : Value × Value := (.ofKey name, value)

def form (key : String) (value : Value) : Value := .ofDict [memberOf key value]

mutual

/-- The JSON value that stands for a descriptor. Which projection it is stays known by the
object. -/
def encode : Descriptor → Value
  | .literal v => form "$lit" v
  | .unknown => form "$unknown" (.bool true)
  | .tuple items => .ofList (encodeItems items)
  | .record fields => form "$record" (.ofDict (encodeFields fields))
  | .effect tag args =>
    .ofDict [memberOf "$effect" tag, memberOf "args" (.ofList (encodeItems args))]
  | .var name => form "$var" name
  | .ref name => form "$ref" name
  | .result key => form "$result" key
  | .index target field mark =>
    .dict [memberOf "$index" (encode target), memberOf "field" field] mark
  | .inter parts => form "$and" (.ofList (encodeItems parts))
  | .op name args => .ofDict [memberOf "$op" name, memberOf "args" (.ofList (encodeItems args))]

def encodeItems : List Descriptor → List Value
  | [] => []
  | d :: ds => encode d :: encodeItems ds

def encodeFields : List (String × Descriptor) → List (Value × Value)
  | [] => []
  | (name, d) :: rest => memberOf name (encode d) :: encodeFields rest

end

end EffectTree.Artifact
