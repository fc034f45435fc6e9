import EffectTree.Descriptor.Basic

/-!
# Substitution

Free variables are replaced by the descriptors of a scope. Inside a record the names that it
declares are taken out of the scope. A projection that a substitution goes through is a new
thing.
-/

namespace EffectTree.Descriptor

abbrev Scope := List (String × Descriptor)

def Scope.find? (scope : Scope) : Value → Option Descriptor
  | .str name _ => Table.get? scope name
  | _ => none

theorem Scope.find?_nil (name : Value) : Scope.find? [] name = none := by
  cases name <;> rfl

def Scope.without (scope : Scope) (fields : List (String × Descriptor)) : Scope :=
  scope.filter fun entry => !Table.has fields entry.1

mutual

def substitute (scope : Scope) : Descriptor → Descriptor
  | var name => (scope.find? name).getD (var name)
  | tuple items => tuple (substituteList scope items)
  | record fields => record (substituteFields (scope.without fields) fields)
  | effect tag args => effect tag (substituteList scope args)
  | index target field mark =>
      index (substitute scope target) field (if scope.isEmpty then mark else .fresh)
  | inter parts => inter (substituteList scope parts)
  | op name args => op name (substituteList scope args)
  | d => d

def substituteList (scope : Scope) : List Descriptor → List Descriptor
  | [] => []
  | d :: ds => substitute scope d :: substituteList scope ds

def substituteFields (scope : Scope) : List (String × Descriptor) → List (String × Descriptor)
  | [] => []
  | (name, d) :: rest => (name, substitute scope d) :: substituteFields scope rest

end

mutual

theorem substitute_nil : (d : Descriptor) → substitute [] d = d
  | var _ => by simp [substitute, Scope.find?_nil]
  | tuple items => by rw [substitute, substituteList_nil items]
  | record fields => by rw [substitute, Scope.without, List.filter_nil, substituteFields_nil fields]
  | effect _ args => by rw [substitute, substituteList_nil args]
  | index target _ _ => by simp [substitute, substitute_nil target]
  | inter parts => by rw [substitute, substituteList_nil parts]
  | op _ args => by rw [substitute, substituteList_nil args]
  | literal _ | unknown | ref _ | result _ => by simp [substitute]

theorem substituteList_nil : (ds : List Descriptor) → substituteList [] ds = ds
  | [] => rfl
  | d :: ds => by rw [substituteList, substitute_nil d, substituteList_nil ds]

theorem substituteFields_nil :
    (fields : List (String × Descriptor)) → substituteFields [] fields = fields
  | [] => rfl
  | (_, d) :: rest => by rw [substituteFields, substitute_nil d, substituteFields_nil rest]

end

mutual

/-- The first variable that a substitution meets whose name cannot be a key. Nothing is looked up in
an empty scope. -/
def badLookup? (scope : Scope) : Descriptor → Option Value
  | var name => if scope.isEmpty then none else name.unhashable?
  | tuple items => badLookupList? scope items
  | record fields => badLookupFields? (scope.without fields) fields
  | effect _ args => badLookupList? scope args
  | index target _ _ => badLookup? scope target
  | inter parts => badLookupList? scope parts
  | op _ args => badLookupList? scope args
  | _ => none

def badLookupList? (scope : Scope) : List Descriptor → Option Value
  | [] => none
  | d :: ds => match badLookup? scope d with
      | some v => some v
      | none => badLookupList? scope ds

def badLookupFields? (scope : Scope) : List (String × Descriptor) → Option Value
  | [] => none
  | (_, d) :: rest => match badLookup? scope d with
      | some v => some v
      | none => badLookupFields? scope rest

end

/-- Substitution that refuses a variable whose name cannot be a key. -/
def replace (scope : Scope) (d : Descriptor) : Except Fault Descriptor :=
  match badLookup? scope d with
  | some v => .error (.unhashable v)
  | none => .ok (substitute scope d)

end EffectTree.Descriptor
