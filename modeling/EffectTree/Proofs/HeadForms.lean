import EffectTree.Proofs.GrowingResolution
import EffectTree.Proofs.PlainData

/-!
# Forms of heads

A search for a head ends where a step leaves a descriptor as it is. That is so for everything but
references, intersections, operators with literal operands, projections and references to results;
these last two are left as they are where they find themselves.
-/
namespace EffectTree

namespace Resolution

variable {decode : Descriptor → Except Obstacle Value}

theorem whenDecoded_stable {α : Type} {decoded : Except Obstacle α} {next : α → Except Fault Step}
    (hnext : ∀ a, next a ≠ .ok .stable) (h : whenDecoded decoded next = .ok .stable) :
    decoded = .error .notLiteral := by
  cases decoded with
  | ok a => exact absurd h (hnext a)
  | error e =>
    cases e with
    | notLiteral => rfl
    | fault e => cases h

theorem outcomeStep_ne_stable (operator : Operator) (name : Value) (values : List Value) :
    outcomeStep operator name values ≠ .ok .stable := by
  unfold outcomeStep
  split <;> simp

/-- An operator and operands of which one that it needs is not literal: the condition of a
conditional, and otherwise the first one that does not decode. -/
inductive Waits (decode : Descriptor → Except Obstacle Value) : Value → List Descriptor → Prop
  | condition {mark : Mark} {condition yes no : Descriptor}
      (h : decode condition = .error .notLiteral) :
      Waits decode (.str "if" mark) [condition, yes, no]
  | operand {name : String} {mark : Mark} {operator : Operator} {before after : List Descriptor}
      {arg : Descriptor}
      {values : List Value} (hname : Operator.ofName? name = some operator)
      (hbefore : before.mapM decode = .ok values)
      (harg : decode arg = .error .notLiteral) :
        Waits decode (.str name mark) (before ++ arg :: after)

theorem conditionalStep_stable {args : List Descriptor} (mark : Mark)
    (h : conditionalStep decode args = .ok .stable) : Waits decode (.str "if" mark) args := by
  unfold conditionalStep at h
  split at h
  · exact .condition (whenDecoded_stable (fun _ => by simp) h)
  · cases h

theorem operatorStep_stable {name : Value} {args : List Descriptor}
    (h : operatorStep decode name args = .ok .stable) : Waits decode name args := by
  unfold operatorStep at h
  split at h
  · split at h
    · cases h
    · rename_i operator hname
      have hargs := whenDecoded_stable (outcomeStep_ne_stable operator _) h
      obtain ⟨before, arg, after, values, rfl, hbefore, harg⟩ := Except.mapM_eq_error hargs
      exact .operand hname hbefore harg
  · split at h <;> cases h

theorem Waits.kept {lost : Fault → Prop} {decode' : Descriptor → Except Obstacle Value}
    (h : ∀ d, Kept (Obstacle.IsLost lost) (decode d) (decode' d)) {name : Value}
    {args : List Descriptor} (hwaits : Waits decode name args) : Waits decode' name args := by
  cases hwaits with
  | condition hcondition => exact .condition ((h _).error hcondition not_false)
  | operand hname hbefore harg =>
    exact .operand hname ((Kept.mapM h _).ok hbefore) ((h _).error harg not_false)

/-- A search that finds something has ended with a step that leaves it as it is. -/
theorem stable_of_iterate {limit : Int} {step : Descriptor → Except Fault Step} {n : Nat}
    {d found : Descriptor} (h : iterate limit step n d = .ok found) :
    step found = .ok .stable ∧ iterate limit step n found = .ok found := by
  induction n generalizing d with
  | zero => cases h
  | succ n ih =>
    have hstable : step found = .ok .stable := by
      rw [iterate] at h
      split at h
      · cases h
      · rename_i hstable
        cases h
        exact hstable
      · exact (ih h).1
    exact ⟨hstable, iterate_stable hstable⟩

theorem partStep_stable {target : Descriptor} {field : Value} {mark : Mark}
    {part? : Option Descriptor} (h : partStep (.index target field mark) part? = .stable) :
    mark ≠ .fresh ∧ part? = some (.index target field mark) := by
  cases part? with
  | none => cases h
  | some part =>
    simp only [partStep] at h
    split at h
    · rename_i hitself
      simpa [isItself, Descriptor.same_iff] using hitself
    · cases h

theorem slotStep_stable {key : Value} {slot : Descriptor}
    (h : partStep (.result key) (some slot) = .stable) :
    slot = .result key := by
  simp only [partStep] at h
  split at h
  · rename_i hitself
    simpa [isItself, Descriptor.same_iff] using hitself
  · cases h

end Resolution

namespace Resolver

open Resolution

variable {r : Resolver}

/-- A descriptor with nothing to expand at its top. -/
inductive HeadNormal (r : Resolver) : Descriptor → Prop
  | literal (v : Value) : HeadNormal r (.literal v)
  | unknown : HeadNormal r .unknown
  | tuple (items : List Descriptor) : HeadNormal r (.tuple items)
  | record (fields : List (String × Descriptor)) : HeadNormal r (.record fields)
  | effect (tag : Value) (args : List Descriptor) : HeadNormal r (.effect tag args)
  | var (name : Value) : HeadNormal r (.var name)
  | op {name : Value} {args : List Descriptor} (h : Waits r.decode name args) :
      HeadNormal r (.op name args)

/-- A projection that is itself the part that it finds in the head of its target, or a reference to
a result that is itself in the slot to which it refers. -/
inductive FindsItself (r : Resolver) : Descriptor → Prop
  | index {target whole : Descriptor} {field : Value} {mark : Mark} (hmark : mark ≠ .fresh)
      (hwhole : r.head target = .ok whole)
      (hpart : project whole field = .ok (some (.index target field mark))) :
      FindsItself r (.index target field mark)
  | result {key : Value} (hslot : named r.slots .unknownSlot key = .ok (.result key)) :
      FindsItself r (.result key)

theorem stable_form {n : Nat} (hn : n ≤ r.nesting) {d : Descriptor}
    (h : step r (headAt r n) d = .ok .stable) :
    r.HeadNormal d ∨ r.FindsItself d := by
  have hhead (d : Descriptor) : Kept (· = .recursion) (headAt r n d) (r.head d) :=
    headAt_kept (outgrows_self r) hn d
  have hdecode (d : Descriptor) := decodeWith_kept hhead decodeLevels d
  cases d with
  | literal v => exact .inl (.literal v)
  | unknown => exact .inl .unknown
  | tuple items => exact .inl (.tuple items)
  | record fields => exact .inl (.record fields)
  | effect tag args => exact .inl (.effect tag args)
  | var name => exact .inl (.var name)
  | op name args =>
    refine .inl (.op (Waits.kept hdecode ?_))
    simp only [step] at h
    split at h
    · exact conditionalStep_stable _ h
    · exact operatorStep_stable h
  | ref name =>
    simp only [step] at h
    split at h
    · cases h
    · split at h <;> cases h
  | result key =>
    obtain ⟨slot, hslot, hstable⟩ := Except.map_eq_ok.mp h
    exact .inr (.result (slotStep_stable hstable ▸ hslot))
  | inter parts =>
    obtain ⟨merged, -, hmerged⟩ := Except.map_eq_ok.mp h
    cases hmerged
  | index target field mark =>
    obtain ⟨part?, hpart, hstable⟩ := Except.map_eq_ok.mp h
    obtain ⟨whole, hwhole, hproject⟩ := Except.bind_eq_ok.mp hpart
    obtain ⟨hmark, rfl⟩ := partStep_stable hstable
    exact .inr (.index hmark ((hhead target).ok hwhole) hproject)

/-- A descriptor that is found is its own head, and there is nothing to expand at its top, unless it
is a projection or a reference to a result that finds itself. -/
theorem head_form {d found : Descriptor} (h : r.head d = .ok found) :
    r.head found = .ok found ∧ (r.HeadNormal found ↔ ¬ r.FindsItself found) := by
  unfold head headAt at h
  split at h
  · cases h
  · rename_i n hn
    obtain ⟨hstable, hself⟩ := stable_of_iterate h
    refine ⟨by rw [head, hn]; exact hself, fun hnormal => ?_,
      (stable_form (by omega) hstable).resolve_right⟩
    rintro (_ | _) <;> cases hnormal

def circularField : Descriptor := .index (.ref (.ofStr "R")) (.ofStr "x") (.placed 3)

def circular : Resolver := { definitions := [("R", .record [("x", circularField)])] }

def circularUse : Descriptor := .index (.ref (.ofStr "R")) (.ofStr "x") (.placed 1)

theorem circularUse_head_form :
    circular.head circularUse = .ok circularField ∧
      circular.head circularField = .ok circularField ∧
      (circular.HeadNormal circularField ↔ ¬ circular.FindsItself circularField) :=
  ⟨rfl, head_form (d := circularUse) rfl⟩

example : ({ slots := [("k", .result (.ofStr "k"))] } : Resolver).head (.result (.ofStr "k")) =
    .ok (.result (.ofStr "k")) := rfl

/-- Its head is a projection, so there still is something to expand. -/
theorem circular_head_not_normal :
    circular.head circularUse = .ok circularField ∧ ¬ ∀ (r : Resolver) (d found : Descriptor),
      r.head d = .ok found → r.HeadNormal found ∧ r.head found = .ok found := by
  refine ⟨rfl, fun hlaw => ?_⟩
  cases (hlaw circular circularUse circularField rfl).1

end Resolver

end EffectTree
