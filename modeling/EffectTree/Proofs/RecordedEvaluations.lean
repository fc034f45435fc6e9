import EffectTree.Proofs.RelatedEvaluations

/-!
# Recorded evaluations

An evaluation that records each operation that it performs, with the state in which it does. It ends
as the evaluation without records does. The record tells how it ends: an evaluation fails with the
fault of an operation in its record and in no other way.
-/
namespace EffectTree.Expression

/-- An operation with the state in which it is performed. -/
abbrev Step := Operation × Frame

namespace Step

def fault? (step : Step) : Option Fault :=
  match (step.1.run step.2).1 with
  | .ok _ => none
  | .error e => some e

theorem fault?_eq_some_iff {step : Step} {e : Fault} :
    step.fault? = some e ↔ (step.1.run step.2).1 = .error e := by
  unfold fault?
  split <;> simp_all

def isVisit : Step → Bool
  | (.visit _, _) => true
  | _ => false

end Step

/-- An evaluation with the record of its operations. -/
def Recorded (α : Type) : Type := Frame → (Except Fault α × Frame) × List Step

namespace Recorded

def pure {α : Type} (a : α) : Recorded α := fun frame => ((.ok a, frame), [])

def bind {α β : Type} (x : Recorded α) (f : α → Recorded β) : Recorded β := fun frame =>
  match x frame with
  | ((.ok a, after), steps) => ((f a after).1, steps ++ (f a after).2)
  | ((.error e, after), steps) => ((.error e, after), steps)

def perform (o : Operation) : Recorded o.Result := fun frame => (o.run frame, [(o, frame)])

def inScope {α : Type} (action : Recorded α) : Recorded α := fun frame =>
  let ((r, after), steps) := action { frame with scopes := [] :: frame.scopes }
  ((r, { after with scopes := after.scopes.drop 1 }), steps)

end Recorded

instance : Evaluator Recorded where
  pure := Recorded.pure
  bind := Recorded.bind
  perform := Recorded.perform
  inScope := Recorded.inScope

/-- The operations of an evaluation under bindings of names. -/
def performed (e : Expr) (bindings : Table Value) : List Step :=
  let (e, frame) := prepared e bindings
  (counted (m := Recorded) e (eval e) frame).2

theorem recorded_end (e : Expr) (frame : Frame) :
    (counted (m := Recorded) e (eval e) frame).1 = counted (m := Eval) e (eval e) frame := by
  have h : Respects (m := Recorded) (n := Eval) (fun _ _ x y => ∀ frame, (x frame).1 = y frame)
      (fun _ _ x y => ∀ frame, (x frame).1 = y frame) := by
    refine .of_all (fun _ _ => rfl) (fun {α β x y f g} hx hf frame => ?_) (fun _ _ => rfl)
      fun hx frame => ?_
    · rw [bind_run, ← hx]
      change (Recorded.bind x f frame).1 = _
      unfold Recorded.bind
      rcases x frame with ⟨⟨_ | a, after⟩, steps⟩
      · rfl
      · exact hf a after
    · simp only [Evaluator.inScope, Recorded.inScope, ← hx]
  exact h.evaluation e frame

def faultOf {α : Type} : Except Fault α → Option Fault
  | .ok _ => none
  | .error e => some e

@[simp] theorem faultOf_map {α β : Type} (f : α → β) (r : Except Fault α) :
    faultOf (r.map f) = faultOf r := by
  cases r <;> rfl

theorem mem_faultOf {α : Type} {r : Except Fault α} {e : Fault} :
    e ∈ (faultOf r).toList ↔ r = .error e := by
  cases r <;> simp [faultOf, eq_comm]

/-- An evaluation fails as one of its operations does. -/
theorem faults_recorded (e : Expr) (frame : Frame) :
    (counted (m := Recorded) e (eval e) frame).2.filterMap Step.fault? =
      (faultOf (counted (m := Recorded) e (eval e) frame).1.1).toList := by
  refine Respects.closed (m := Recorded)
    (P := fun {α} (x : Recorded α) => ∀ frame, (x frame).2.filterMap Step.fault? =
      (faultOf (x frame).1.1).toList)
    (fun _ _ => rfl) (fun {α β x f} hx hf frame => ?_) (fun o frame => ?_)
      (fun hx frame => hx _) e frame
  · have hx := hx frame
    change (Recorded.bind x f frame).2.filterMap _ = (faultOf (Recorded.bind x f frame).1.1).toList
    unfold Recorded.bind
    rcases hend : x frame with ⟨⟨_ | a, after⟩, steps⟩
    · simpa [hend, faultOf] using hx
    · have hsteps : steps.filterMap Step.fault? = [] := by simpa [hend, faultOf] using hx
      simp only [List.filterMap_append, hsteps, List.nil_append]
      exact hf a after
  · change [(o, frame)].filterMap Step.fault? = (faultOf (o.run frame).1).toList
    simp only [List.filterMap_cons, List.filterMap_nil, Step.fault?, faultOf]
    rcases (o.run frame).1 with _ | _ <;> rfl

/-- Evaluating an expression ends in a fault exactly if an operation does. -/
theorem evaluate_eq_error_iff (e : Expr) (bindings : Table Value) (f : Fault) :
    evaluate e bindings = .error f ↔ ∃ step ∈ performed e bindings, step.fault? = some f := by
  have hfaults : (performed e bindings).filterMap Step.fault? =
      (faultOf (evaluate e bindings)).toList := by
    change _ = (faultOf ((counted (m := Eval) _ _ (prepared e bindings).2).1.map
      Value.release)).toList
    rw [faultOf_map, ← recorded_end]
    exact faults_recorded ..
  rw [← List.mem_filterMap, hfaults, mem_faultOf]

end EffectTree.Expression
