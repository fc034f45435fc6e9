import Mathlib
import EffectTree.Proofs.LazyValues

/-!
# The core calculus

Programs made of pure values, sequences, continuations, faults and output, over expressions with one
current input, and their meaning on values: a program ends with a value, with none or by raising a
message, and it has written an output. The meaning has gaps where an operator fails, where something
else than a text is raised or written, where a value nests too deeply, and where there is no current
input.
-/
namespace EffectTree.Core
open Descriptor Resolution

inductive Expr where
  | scalar (v : { v : Value // v.isScalar = true })
  | tuple (items : List Expr)
  | input
  | op (name : String) (args : List Expr)

inductive Program where
  | produce (e : Expr)
  | gather (ps : List Program)
  | block (ps : List Program)
  | bind (p k : Program)
  | recover (p k : Program)
  | raise (e : Expr)
  | putString (e : Expr)

/-- The variable that stands for the current input. -/
def inputVar : Descriptor := .var (.ofStr "input")

mutual

/-- An expression with a descriptor in the place of the current input. -/
def Expr.describe (x : Descriptor) : Expr → Descriptor
  | .scalar v => .literal v.1
  | .tuple items => .tuple (describeExprs x items)
  | .input => x
  | .op name args => .op (.ofStr name) (describeExprs x args)

def describeExprs (x : Descriptor) : List Expr → List Descriptor
  | [] => []
  | e :: es => e.describe x :: describeExprs x es

end

/-- A record that takes an input and returns an effect. -/
def continuation (body : Descriptor) : Descriptor := .record [("input", .unknown), ("return", body)]

mutual

/-- A program with a descriptor in the place of the current input. -/
def Program.describe (x : Descriptor) : Program → Descriptor
  | .produce e => .effect (.ofStr "Pure") [e.describe x]
  | .gather ps => .effect (.ofStr "Seq") [.tuple (describePrograms x ps)]
  | .block ps => .effect (.ofStr "Do") [.tuple (describePrograms x ps)]
  | .bind p k => .effect (.ofStr "Bind") [p.describe x, continuation (k.describe inputVar)]
  | .recover p k => .effect (.ofStr "Try") [p.describe x, continuation (k.describe inputVar)]
  | .raise e => .effect (.ofStr "Throw") [e.describe x]
  | .putString e => .effect (.ofStr "PutString") [e.describe x]

def describePrograms (x : Descriptor) : List Program → List Descriptor
  | [] => []
  | p :: ps => p.describe x :: describePrograms x ps

end

def Program.descriptor (p : Program) : Descriptor := p.describe inputVar

/-- Where a program has no meaning. -/
inductive Gap where
  | operatorFailed
  | notText
  | tooDeep
  | noInput
  deriving DecidableEq

/-- How deeply the values of a program may nest. -/
def maxHeight : Nat := 256

def built (v : Value) : Except Gap Value := if v.height ≤ maxHeight then .ok v else .error .tooDeep

mutual

/-- The value of an expression for a current input. -/
def Expr.eval (input : Option Value) : Expr → Except Gap Value
  | .scalar v => .ok v.1
  | .tuple items => do built (.ofList (← evalAll input items))
  | .input => match input with
      | some v => .ok v
      | none => .error .noInput
  | .op name args =>
      if name = "if" then chooseBranch input args
      else match Operator.ofName? name with
        | none => .error .operatorFailed
        | some operator => do
            match operator.apply (← evalAll input args) with
            | .ok v => built v
            | .error _ => .error .operatorFailed

def evalAll (input : Option Value) : List Expr → Except Gap (List Value)
  | [] => .ok []
  | e :: es => do return (← e.eval input) :: (← evalAll input es)

def chooseBranch (input : Option Value) : List Expr → Except Gap Value
  | [condition, yes, no] => do
      if (← condition.eval input).truthy then yes.eval input else no.eval input
  | _ => .error .operatorFailed

end

/-- What a program does: it ends with a result or raises a message, and it has written an output. -/
structure Reply (α : Type) where
  ending : Except String α
  output : String := ""

namespace Reply

variable {α β : Type}

def andThen (r : Reply α) (f : α → Except Gap (Reply β)) : Except Gap (Reply β) :=
  match r.ending with
  | .error message => .ok ⟨.error message, r.output⟩
  | .ok a => (f a).map fun s => ⟨s.ending, r.output ++ s.output⟩

def orElse (r : Reply α) (f : String → Except Gap (Reply α)) : Except Gap (Reply α) :=
  match r.ending with
  | .ok a => .ok ⟨.ok a, r.output⟩
  | .error message => (f message).map fun s => ⟨s.ending, r.output ++ s.output⟩

end Reply

def textOf : Value → Except Gap String
  | .str s _ => .ok s
  | _ => .error .notText

mutual

/-- What a program does with a current input. Its result is a value or none. -/
def Program.run (input : Option Value) : Program → Except Gap (Reply (Option Value))
  | .produce e => do return { ending := .ok (some (← e.eval input)) }
  | .gather ps => do
      (← runAll input ps).andThen fun vs =>
        do return { ending := .ok (some (← built (.ofList vs))) }
  | .block ps => do (← runAll input ps).andThen fun vs => return { ending := .ok vs.getLast? }
  | .bind p k => do (← p.run input).andThen fun v? => k.run (some (v?.getD .null))
  | .recover p k => do (← p.run input).orElse fun message => k.run (some (.ofStr message))
  | .raise e => do return { ending := .error (← textOf (← e.eval input)) }
  | .putString e => do return { ending := .ok none, output := ← textOf (← e.eval input) }

/-- What programs do one after another. Their result is the list of the values that there are. -/
def runAll (input : Option Value) : List Program → Except Gap (Reply (List Value))
  | [] => .ok { ending := .ok [] }
  | p :: ps => do
      (← p.run input).andThen fun v? => do
        (← runAll input ps).andThen fun vs => return { ending := .ok (v?.toList ++ vs) }

end

variable {slots : Table Descriptor} {x : Descriptor} {input : Option Value}

/-- The descriptor stands for the current input if there is one. -/
def Feeds (slots : Table Descriptor) (x : Descriptor) (input : Option Value) : Prop :=
  ∀ v ∈ input, Denotes slots x v ∧ v.height ≤ maxHeight

lemma Feeds.mono {slots' : Table Descriptor}
    (hslots : ∀ key d, slots.get? key = some d → slots'.get? key = some d)
    (h : Feeds slots x input) :
    Feeds slots' x input :=
  fun v hv => ⟨(h v hv).1.mono hslots, (h v hv).2⟩

lemma built_eq_ok {v w : Value} (h : built v = .ok w) : w = v ∧ v.height ≤ maxHeight := by
  unfold built at h
  split at h
  · cases h
    exact ⟨rfl, by assumption⟩
  · cases h

mutual

/-- The descriptor of an expression stands for its value. -/
theorem Expr.describe_denotes (hx : Feeds slots x input) :
    (e : Expr) → {v : Value} → e.eval input = .ok v →
    Denotes slots (e.describe x) v ∧ v.height ≤ maxHeight
  | .scalar s, v, h => by
      cases h
      exact ⟨denotes_literal s.2, by rw [Value.height_of_isScalar s.2]; exact Nat.zero_le _⟩
  | .input, v, h => by
      cases input with
      | none => cases h
      | some w =>
        cases h
        exact hx v rfl
  | .tuple items, v, h => by
      obtain ⟨vs, hvs, h⟩ := Except.bind_eq_ok.mp h
      obtain ⟨rfl, hheight⟩ := built_eq_ok h
      exact ⟨denotes_tuple (describeExprs_denotes hx items hvs).1, hheight⟩
  | .op name args, v, h => by
      rw [Expr.eval] at h
      split at h
      · rename_i hname
        subst hname
        exact chooseBranch_denotes hx args h
      · rename_i hif
        split at h
        · cases h
        · rename_i operator hoperator
          obtain ⟨vs, hvs, h⟩ := Except.bind_eq_ok.mp h
          obtain ⟨hargs, hheights⟩ := describeExprs_denotes hx args hvs
          split at h
          · rename_i w happly
            obtain ⟨rfl, hheight⟩ := built_eq_ok h
            exact ⟨denotes_operator hif hoperator hargs
              (fun w hw => Nat.lt_succ_of_le (hheights w hw)) happly,
              hheight⟩
          · cases h

theorem describeExprs_denotes (hx : Feeds slots x input) : (es : List Expr) → {vs : List Value} →
    evalAll input es = .ok vs →
    List.Forall₂ (Denotes slots) (describeExprs x es) vs ∧ ∀ v ∈ vs, v.height ≤ maxHeight
  | [], vs, h => by
      cases h
      exact ⟨.nil, by simp⟩
  | e :: es, vs, h => by
      obtain ⟨v, hv, h⟩ := Except.bind_eq_ok.mp h
      obtain ⟨rest, hrest, h⟩ := Except.bind_eq_ok.mp h
      cases h
      obtain ⟨hd, hheight⟩ := e.describe_denotes hx hv
      obtain ⟨hds, hheights⟩ := describeExprs_denotes hx es hrest
      exact ⟨.cons hd hds, by simpa using ⟨hheight, hheights⟩⟩

theorem chooseBranch_denotes (hx : Feeds slots x input) : (args : List Expr) → {v : Value} →
    chooseBranch input args = .ok v →
    Denotes slots (.op (.ofStr "if") (describeExprs x args)) v ∧ v.height ≤ maxHeight
  | [condition, yes, no], v, h => by
      obtain ⟨c, hc, h⟩ := Except.bind_eq_ok.mp h
      obtain ⟨hcondition, hheight⟩ := condition.describe_denotes hx hc
      have hbranch : Denotes slots (if c.truthy then yes.describe x else no.describe x) v ∧
          v.height ≤ maxHeight := by
        split at h
        · rename_i htrue
          rw [if_pos htrue]
          exact yes.describe_denotes hx h
        · rename_i hfalse
          rw [if_neg hfalse]
          exact no.describe_denotes hx h
      exact ⟨denotes_conditional hcondition (Nat.lt_succ_of_le hheight) hbranch.1, hbranch.2⟩
  | [], _, h | [_], _, h | [_, _], _, h | _ :: _ :: _ :: _ :: _, _, h => nomatch h

end

mutual

lemma Expr.freeVars_describe (x : Descriptor) : (e : Expr) → (e.describe x).freeVars ⊆ x.freeVars
  | .scalar _ => List.nil_subset _
  | .input => List.Subset.refl _
  | .tuple items => freeVars_describeExprs x items
  | .op _ args => freeVars_describeExprs x args

lemma freeVars_describeExprs (x : Descriptor) : (es : List Expr) →
    freeVarsList (describeExprs x es) ⊆ x.freeVars
  | [] => List.nil_subset _
  | e :: es => List.append_subset.mpr ⟨e.freeVars_describe x, freeVars_describeExprs x es⟩

end

mutual

lemma Expr.badVar?_describe (hx : x.badVar? = none) : (e : Expr) → (e.describe x).badVar? = none
  | .scalar _ => rfl
  | .input => hx
  | .tuple items => badVar?_describeExprs hx items
  | .op _ args => badVar?_describeExprs hx args

lemma badVar?_describeExprs (hx : x.badVar? = none) : (es : List Expr) →
    badVarList? (describeExprs x es) = none
  | [] => rfl
  | e :: es =>
    by rw [describeExprs, badVarList?, e.badVar?_describe hx, badVar?_describeExprs hx es]

end

lemma Expr.describe_settled (hx : Settled x) (e : Expr) : Settled (e.describe x) :=
  ⟨e.badVar?_describe hx.hashable, fun name hname => hx.free name (e.freeVars_describe x hname)⟩

lemma inputVar_settled : Settled inputVar :=
  ⟨rfl, fun _ hname => List.mem_singleton.mp hname⟩

lemma freeVars_continuation {body : Descriptor}
    (h : ∀ name ∈ body.freeVars, name = .ofStr "input") :
    (continuation body).freeVars = [] := by
  simp only [continuation, freeVars, freeVarsFields, List.nil_append, List.append_nil,
    List.filter_eq_nil_iff]
  intro name hname
  rw [h name hname]
  simp [declares, Table.has, Value.ofStr]

mutual

lemma Program.freeVars_describe (x : Descriptor) :
    (p : Program) → (p.describe x).freeVars ⊆ x.freeVars
  | .produce e | .raise e | .putString e =>
    List.append_subset.mpr ⟨e.freeVars_describe x, List.nil_subset _⟩
  | .gather ps | .block ps =>
    List.append_subset.mpr ⟨freeVars_describePrograms x ps, List.nil_subset _⟩
  | .bind p k | .recover p k => by
      have hk := freeVars_continuation fun name hname =>
        List.mem_singleton.mp (k.freeVars_describe inputVar hname)
      simp only [Program.describe, freeVars, freeVarsList, hk, List.append_nil]
      exact p.freeVars_describe x

lemma freeVars_describePrograms (x : Descriptor) : (ps : List Program) →
    freeVarsList (describePrograms x ps) ⊆ x.freeVars
  | [] => List.nil_subset _
  | p :: ps => List.append_subset.mpr ⟨p.freeVars_describe x, freeVars_describePrograms x ps⟩

end

mutual

lemma Program.badVar?_describe {x : Descriptor} (hx : x.badVar? = none) : (p : Program) →
    (p.describe x).badVar? = none
  | .produce e | .raise e | .putString e => by
      rw [Program.describe, badVar?, badVarList?, e.badVar?_describe hx, badVarList?]
  | .gather ps | .block ps => by
      rw [Program.describe, badVar?, badVarList?, badVar?, badVar?_describePrograms hx ps,
        badVarList?]
  | .bind p k | .recover p k => by
      have hk := k.badVar?_describe inputVar_settled.hashable
      simp [Program.describe, continuation, badVar?, badVarList?, badVarFields?,
        p.badVar?_describe hx, hk]

lemma badVar?_describePrograms {x : Descriptor} (hx : x.badVar? = none) : (ps : List Program) →
    badVarList? (describePrograms x ps) = none
  | [] => rfl
  | p :: ps =>
    by rw [describePrograms, badVarList?, p.badVar?_describe hx, badVar?_describePrograms hx ps]

end

section Input

variable {scope : Scope}

mutual

lemma Expr.substitute_describe (h : scope.find? (.ofStr "input") = some x) : (e : Expr) →
    substitute scope (e.describe inputVar) = e.describe x
  | .scalar _ => rfl
  | .input => by simp [Expr.describe, inputVar, substitute, h]
  | .tuple items =>
    by rw [Expr.describe, substitute, substitute_describeExprs h items, Expr.describe]
  | .op _ args => by rw [Expr.describe, substitute, substitute_describeExprs h args, Expr.describe]

lemma substitute_describeExprs (h : scope.find? (.ofStr "input") = some x) : (es : List Expr) →
    substituteList scope (describeExprs inputVar es) = describeExprs x es
  | [] => rfl
  | e :: es => by
      rw [describeExprs, substituteList, e.substitute_describe h, substitute_describeExprs h es,
        describeExprs]

end

mutual

/-- Putting a descriptor in for the input of a program leaves its continuations as they are. -/
lemma Program.substitute_describe (h : scope.find? (.ofStr "input") = some x)
    (hk : ∀ body, substitute scope (continuation body) = continuation body) : (p : Program) →
    substitute scope (p.describe inputVar) = p.describe x
  | .produce e | .raise e | .putString e => by
      rw [Program.describe, substitute, substituteList, e.substitute_describe h, substituteList,
        Program.describe]
  | .gather ps | .block ps => by
      rw [Program.describe, substitute, substituteList, substitute,
        substitute_describePrograms h hk ps,
        substituteList, Program.describe]
  | .bind p k | .recover p k => by
      rw [Program.describe, substitute, substituteList, p.substitute_describe h hk,
        substituteList, hk,
        substituteList, Program.describe]

lemma substitute_describePrograms (h : scope.find? (.ofStr "input") = some x)
    (hk : ∀ body, substitute scope (continuation body) = continuation body) : (ps : List Program) →
    substituteList scope (describePrograms inputVar ps) = describePrograms x ps
  | [] => rfl
  | p :: ps => by
      rw [describePrograms, substituteList, p.substitute_describe h hk,
        substitute_describePrograms h hk ps,
        describePrograms]

end

end Input

mutual

lemma Expr.describe_of_closed : (e : Expr) → (e.describe inputVar).freeVars = [] →
    e.describe x = e.describe inputVar
  | .scalar _, _ => rfl
  | .input, h => nomatch h
  | .tuple items, h => congrArg Descriptor.tuple (describeExprs_of_closed items h)
  | .op name args, h => congrArg (Descriptor.op (.ofStr name)) (describeExprs_of_closed args h)

lemma describeExprs_of_closed : (es : List Expr) → freeVarsList (describeExprs inputVar es) = [] →
    describeExprs x es = describeExprs inputVar es
  | [], _ => rfl
  | e :: es, h => by
      obtain ⟨he, hes⟩ := List.append_eq_nil_iff.mp h
      rw [describeExprs, e.describe_of_closed he, describeExprs_of_closed es hes, describeExprs]

end

mutual

lemma Program.describe_of_closed : (p : Program) → (p.describe inputVar).freeVars = [] →
    p.describe x = p.describe inputVar
  | .produce e, h | .raise e, h | .putString e, h => by
      rw [Program.describe, e.describe_of_closed (List.append_eq_nil_iff.mp h).1, Program.describe]
  | .gather ps, h | .block ps, h => by
      rw [Program.describe, describePrograms_of_closed ps (List.append_eq_nil_iff.mp h).1,
        Program.describe]
  | .bind p k, h | .recover p k, h => by
      rw [Program.describe, p.describe_of_closed (List.append_eq_nil_iff.mp h).1, Program.describe]

lemma describePrograms_of_closed :
    (ps : List Program) → freeVarsList (describePrograms inputVar ps) = [] →
    describePrograms x ps = describePrograms inputVar ps
  | [], _ => rfl
  | p :: ps, h => by
      obtain ⟨hp, hps⟩ := List.append_eq_nil_iff.mp h
      rw [describePrograms, p.describe_of_closed hp, describePrograms_of_closed ps hps,
        describePrograms]

end

end EffectTree.Core
