import EffectTree.Descriptor.Coercion
import EffectTree.Descriptor.Identity
import EffectTree.Operator
import EffectTree.Resolution.Projection

/-!
# Resolution

The head of a descriptor is found by expanding references, projections, intersections and operators
at its top until nothing changes. Each search is limited in its number of steps, and searches nest
only as deeply as the resolver can hold. A descriptor decodes to a value if all of its heads are
literals, tuples and records.
-/

namespace EffectTree

/-- The named definitions and result slots that descriptors refer to, and the limits of a search. -/
structure Resolver where
  definitions : Table Descriptor := []
  slots : Table Descriptor := []
  maxSteps : Int := 10000
  /-- How many searches can be held inside each other. -/
  nesting : Nat := 2000

namespace Resolution

inductive Obstacle where
  | notLiteral
  | fault (cause : Fault)

/-- The outcome of one step: the descriptor is already in head form, or it expands. -/
inductive Step where
  | stable
  | next (d : Descriptor)

def decodeLevels : Nat := 257

/-- A table entry under a name, or the fault that there is none. -/
def named (table : Table Descriptor) (missing : Value → Fault) (name : Value) :
    Except Fault Descriptor :=
  match name with
  | .str s _ => match table.get? s with
      | some d => .ok d
      | none => .error (missing name)
  | v => match v.unhashable? with
      | some part => .error (.unhashable part)
      | none => .error (missing v)

/-- Decodes with a given search for heads, down to the given number of levels. -/
def decodeWith (head : Descriptor → Except Fault Descriptor) :
    Nat → Descriptor → Except Obstacle Value
  | 0, _ => .error .notLiteral
  | levels + 1, d =>
      match head d with
      | .error e => .error (.fault e)
      | .ok (.literal v) => .ok v
      | .ok (.tuple items) => (items.mapM (decodeWith head levels)).map .ofList
      | .ok (.record fields) =>
          (fields.mapM fun entry =>
            (decodeWith head levels (.index (.record fields) (.ofStr entry.1) .fresh)).map fun v =>
              (Value.ofStr entry.1, v)).map .ofDict
      | .ok _ => .error .notLiteral

/-- Goes on with what has been decoded; what is not literal stays as it is. -/
def whenDecoded {α : Type} (decoded : Except Obstacle α) (next : α → Except Fault Step) :
    Except Fault Step :=
  match decoded with
  | .error .notLiteral => .ok .stable
  | .error (.fault e) => .error e
  | .ok a => next a

/-- The step of a conditional: only its condition is decoded. -/
def conditionalStep (decode : Descriptor → Except Obstacle Value) :
    List Descriptor → Except Fault Step
  | [condition, yes, no] =>
    whenDecoded (decode condition) fun v => .ok (.next (if v.truthy then yes else no))
  | _ => .error .conditionArity

def outcomeStep (operator : Operator) (name : Value) (values : List Value) : Except Fault Step :=
  match operator.apply values >>= Descriptor.ofValue with
  | .ok d => .ok (.next d)
  | .error e => .error (if Operator.reports e then .operatorFailed name e.message else e)

/-- The step of any other operator: it stays as it is until all operands decode. -/
def operatorStep (decode : Descriptor → Except Obstacle Value) (name : Value)
    (args : List Descriptor) : Except Fault Step :=
  match name with
  | .str s _ => match Operator.ofName? s with
      | none => .error (.unknownOperator name)
      | some operator => whenDecoded (args.mapM decode) (outcomeStep operator name)
  | v => match v.unhashable? with
      | some part => .error (.unhashable part)
      | none => .error (.unknownOperator v)

/-- Whether what a projection or a reference to a result finds is the descriptor itself, which is
then not expanded further. -/
def isItself (d part : Descriptor) : Bool :=
  match d with
  | .index _ _ mark => mark ≠ .fresh && part.same d
  | .result _ => part.same d
  | _ => false

def partStep (d : Descriptor) : Option Descriptor → Step
  | none => .next .unknown
  | some part => if isItself d part then .stable else .next part

/-- A record is neither a projection nor a reference, so it is always expanded to. -/
@[simp] theorem partStep_record (d : Descriptor) (fields : List (String × Descriptor)) :
    partStep d (some (.record fields)) = .next (.record fields) := by
  cases d <;> simp [partStep, isItself, Descriptor.same]

/-- Whether a definition only refers to itself. -/
def refersTo (name : Value) : Descriptor → Bool
  | .ref name' => name'.eqv name
  | _ => false

/-- One expansion at the top of a descriptor, with a given search for the heads of its parts. -/
def step (r : Resolver) (head : Descriptor → Except Fault Descriptor) (d : Descriptor) :
    Except Fault Step :=
  match d with
  | .ref name =>
      match named r.definitions .unknownDefinition name with
      | .error e => .error e
      | .ok target =>
        if refersTo name target then .error (.cyclicDefinition name) else .ok (.next target)
  | .result key => (named r.slots .unknownSlot key).map fun slot => partStep d (some slot)
  | .index target field _ => (head target >>= (project · field)).map (partStep d)
  | .inter parts =>
      (parts.foldlM (fun merged part => (head part).map (merge merged)) .unknown).map .next
  | .op name args =>
      let decode := decodeWith head decodeLevels
      match name with
      | .str "if" _ => conditionalStep decode args
      | _ => operatorStep decode name args
  | _ => .ok .stable

/-- Steps until the descriptor is stable, at most the given number of times. -/
def iterate (limit : Int) (step : Descriptor → Except Fault Step) :
    Nat → Descriptor → Except Fault Descriptor
  | 0, _ => .error (.unresolved limit)
  | n + 1, d =>
      match step d with
      | .error e => .error e
      | .ok .stable => .ok d
      | .ok (.next d') => iterate limit step n d'

/-- The head of a descriptor with searches nested at most `nesting` levels. -/
def headAt (r : Resolver) : Nat → Descriptor → Except Fault Descriptor
  | 0, _ => .error .recursion
  | nesting + 1, d => iterate r.maxSteps (step r (headAt r nesting)) r.maxSteps.toNat d

end Resolution

namespace Resolver

open Resolution

def head (r : Resolver) (d : Descriptor) : Except Fault Descriptor := headAt r r.nesting d

def decode (r : Resolver) (d : Descriptor) : Except Obstacle Value :=
  decodeWith r.head decodeLevels d

/-- The value of a descriptor, null if it is not literal. -/
def literalValue (r : Resolver) (d : Descriptor) : Except Fault Value :=
  match r.decode d with
  | .ok v => .ok v
  | .error .notLiteral => .ok .null
  | .error (.fault e) => .error e

/-- The tag and the arguments of an effect; any other descriptor has the tag null and no
arguments. -/
def effectOf (r : Resolver) (d : Descriptor) : Except Fault (Value × List Descriptor) :=
  (r.head d).map fun
    | .effect tag args => (tag, args)
    | _ => (.null, [])

def tagOf (r : Resolver) (d : Descriptor) : Except Fault Value := (r.effectOf d).map (·.1)

def argumentsOf (r : Resolver) (d : Descriptor) : Except Fault (List Descriptor) :=
  (r.effectOf d).map (·.2)

def elementsOf (r : Resolver) (d : Descriptor) : Except Fault (Option (List Descriptor)) :=
  (r.head d).map fun
    | .tuple items => some items
    | _ => none

def specialize (r : Resolver) (generic : Descriptor) (fields : Table Descriptor) :
    Except Fault Descriptor :=
  r.head (.inter [generic, .record fields])

/-- The head of a field of a descriptor, if it has the field. -/
def projectField (r : Resolver) (d : Descriptor) (field : Value) :
    Except Fault (Option Descriptor) := do
  match ← project (← r.head d) field with
  | none => return none
  | some part => return some (← r.head part)

end Resolver

end EffectTree
