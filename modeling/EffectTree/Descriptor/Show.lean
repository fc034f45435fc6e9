import EffectTree.Descriptor.Basic

/-!
# The literal text of descriptors

A descriptor spelled out with its parts, which is how one that cannot be resolved further is
written.
-/

namespace EffectTree.Descriptor

def tupleText : List String → String
  | [x] => "(" ++ x ++ ",)"
  | xs => "(" ++ ", ".intercalate xs ++ ")"

mutual

def shown : Descriptor → String
  | literal v => "Literal(value=" ++ v.shown ++ ")"
  | unknown => "Unknown()"
  | tuple items => "TupleDesc(items=" ++ tupleText (shownList items) ++ ")"
  | record fields =>
      "Record(fields=frozendict.frozendict(\x7b" ++
        ", ".intercalate (shownFields fields) ++ "\x7d))"
  | effect tag args =>
    "EffectNode(tag=" ++ tag.shown ++ ", args=" ++ tupleText (shownList args) ++ ")"
  | var name => "Var(name=" ++ name.shown ++ ")"
  | ref name => "Ref(name=" ++ name.shown ++ ")"
  | result key => "ResultRef(key=" ++ key.shown ++ ")"
  | index target field _ => "Index(target=" ++ shown target ++ ", field=" ++ field.shown ++ ")"
  | inter parts => "Intersection(parts=" ++ tupleText (shownList parts) ++ ")"
  | op name args => "Op(name=" ++ name.shown ++ ", args=" ++ tupleText (shownList args) ++ ")"

def shownList : List Descriptor → List String
  | [] => []
  | d :: ds => shown d :: shownList ds

def shownFields : List (String × Descriptor) → List String
  | [] => []
  | (name, d) :: rest => (Text.quoted name ++ ": " ++ shown d) :: shownFields rest

end

end EffectTree.Descriptor
