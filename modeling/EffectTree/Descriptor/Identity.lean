import EffectTree.Descriptor.Basic

/-!
# Sameness

Whether two values or descriptors are one and the same tree, marks included, which is finer than
equality: `1` and `1.0` are different, and a NaN is the same as itself.
-/

namespace EffectTree

mutual

def Value.same : Value → Value → Bool
  | .null, v => match v with | .null => true | _ => false
  | .bool a, v => match v with | .bool b => a = b | _ => false
  | .int a m, v => match v with | .int b n => a = b && m = n | _ => false
  | .float a m, v => match v with | .float b n => a = b && m = n | _ => false
  | .complex a b m, v => match v with | .complex c d n => a = c && b = d && m = n | _ => false
  | .str a m, v => match v with | .str b n => a = b && m = n | _ => false
  | .bytes a m, v => match v with | .bytes b n => a = b && m = n | _ => false
  | .list xs m, v => match v with | .list ys n => Value.sameItems xs ys && m = n | _ => false
  | .tuple xs m, v => match v with | .tuple ys n => Value.sameItems xs ys && m = n | _ => false
  | .set xs s m, v => match v with
      | .set ys t n => Value.sameItems xs ys && s = t && m = n
      | _ => false
  | .dict xs m, v => match v with | .dict ys n => Value.sameEntries xs ys && m = n | _ => false
  | .ellipsis, v => match v with | .ellipsis => true | _ => false
  | .builtin f, v => match v with | .builtin g => f = g | _ => false
  | .generic f xs s m, v => match v with
      | .generic g ys t n => f = g && Value.sameItems xs ys && s = t && m = n
      | _ => false
  | .union xs m, v => match v with | .union ys n => Value.sameItems xs ys && m = n | _ => false
  | .context s, v => match v with | .context t => s = t | _ => false

def Value.sameItems : List Value → List Value → Bool
  | [], ys => ys.isEmpty
  | x :: xs, ys => match ys with
      | y :: rest => Value.same x y && Value.sameItems xs rest
      | [] => false

def Value.sameEntries : List (Value × Value) → List (Value × Value) → Bool
  | [], ys => ys.isEmpty
  | (k, v) :: xs, ys => match ys with
      | (k', v') :: rest => Value.same k k' && Value.same v v' && Value.sameEntries xs rest
      | [] => false

end

mutual

theorem Value.same_iff : (a b : Value) → (a.same b = true ↔ a = b)
  | .null, b => by cases b <;> simp [Value.same]
  | .bool _, b => by cases b <;> simp [Value.same]
  | .int .., b => by cases b <;> simp [Value.same]
  | .float .., b => by cases b <;> simp [Value.same]
  | .complex .., b => by cases b <;> simp [Value.same, and_assoc]
  | .str .., b => by cases b <;> simp [Value.same]
  | .bytes .., b => by cases b <;> simp [Value.same]
  | .list xs _, b => by cases b <;> simp [Value.same, Value.sameItems_iff xs]
  | .tuple xs _, b => by cases b <;> simp [Value.same, Value.sameItems_iff xs]
  | .set xs _ _, b => by cases b <;> simp [Value.same, Value.sameItems_iff xs, and_assoc]
  | .dict xs _, b => by cases b <;> simp [Value.same, Value.sameEntries_iff xs]
  | .ellipsis, b => by cases b <;> simp [Value.same]
  | .builtin _, b => by cases b <;> simp [Value.same]
  | .generic _ xs _ _, b => by cases b <;> simp [Value.same, Value.sameItems_iff xs, and_assoc]
  | .union xs _, b => by cases b <;> simp [Value.same, Value.sameItems_iff xs]
  | .context _, b => by cases b <;> simp [Value.same]

theorem Value.sameItems_iff : (xs ys : List Value) → (Value.sameItems xs ys = true ↔ xs = ys)
  | [], ys => by cases ys <;> simp [Value.sameItems]
  | x :: xs, ys => by cases ys <;> simp [Value.sameItems, Value.same_iff x, Value.sameItems_iff xs]

theorem Value.sameEntries_iff :
    (xs ys : List (Value × Value)) → (Value.sameEntries xs ys = true ↔ xs = ys)
  | [], ys => by cases ys <;> simp [Value.sameEntries]
  | (k, v) :: xs, ys => by
      cases ys with
      | nil => simp [Value.sameEntries]
      | cons entry rest =>
        simp [Value.sameEntries, Value.same_iff k, Value.same_iff v, Value.sameEntries_iff xs,
          Prod.ext_iff]

end

namespace Descriptor

mutual

def same : Descriptor → Descriptor → Bool
  | literal a, d => match d with | literal b => a.same b | _ => false
  | unknown, d => match d with | unknown => true | _ => false
  | tuple xs, d => match d with | tuple ys => sameList xs ys | _ => false
  | record xs, d => match d with | record ys => sameFields xs ys | _ => false
  | effect a xs, d => match d with | effect b ys => a.same b && sameList xs ys | _ => false
  | var a, d => match d with | var b => a.same b | _ => false
  | ref a, d => match d with | ref b => a.same b | _ => false
  | result a, d => match d with | result b => a.same b | _ => false
  | index t a m, d => match d with | index u b n => same t u && a.same b && m = n | _ => false
  | inter xs, d => match d with | inter ys => sameList xs ys | _ => false
  | op a xs, d => match d with | op b ys => a.same b && sameList xs ys | _ => false

def sameList : List Descriptor → List Descriptor → Bool
  | [], ys => ys.isEmpty
  | x :: xs, ys => match ys with
      | y :: rest => same x y && sameList xs rest
      | [] => false

def sameFields : List (String × Descriptor) → List (String × Descriptor) → Bool
  | [], ys => ys.isEmpty
  | (k, x) :: xs, ys => match ys with
      | (k', y) :: rest => k = k' && same x y && sameFields xs rest
      | [] => false

end

mutual

theorem same_iff : (a b : Descriptor) → (a.same b = true ↔ a = b)
  | literal _, b => by cases b <;> simp [same, Value.same_iff]
  | unknown, b => by cases b <;> simp [same]
  | tuple xs, b => by cases b <;> simp [same, sameList_iff xs]
  | record xs, b => by cases b <;> simp [same, sameFields_iff xs]
  | effect _ xs, b => by cases b <;> simp [same, Value.same_iff, sameList_iff xs]
  | var _, b => by cases b <;> simp [same, Value.same_iff]
  | ref _, b => by cases b <;> simp [same, Value.same_iff]
  | result _, b => by cases b <;> simp [same, Value.same_iff]
  | index t _ _, b => by cases b <;> simp [same, Value.same_iff, same_iff t, and_assoc]
  | inter xs, b => by cases b <;> simp [same, sameList_iff xs]
  | op _ xs, b => by cases b <;> simp [same, Value.same_iff, sameList_iff xs]

theorem sameList_iff : (xs ys : List Descriptor) → (sameList xs ys = true ↔ xs = ys)
  | [], ys => by cases ys <;> simp [sameList]
  | x :: xs, ys => by cases ys <;> simp [sameList, same_iff x, sameList_iff xs]

theorem sameFields_iff : (xs ys : List (String × Descriptor)) → (sameFields xs ys = true ↔ xs = ys)
  | [], ys => by cases ys <;> simp [sameFields]
  | (k, x) :: xs, ys => by
      cases ys with
      | nil => simp [sameFields]
      | cons entry rest => simp [sameFields, same_iff x, sameFields_iff xs, Prod.ext_iff]

end

end Descriptor

end EffectTree
