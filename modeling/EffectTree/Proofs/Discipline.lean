import EffectTree.Proofs.Mentions
import EffectTree.Proofs.ValueFaults
import EffectTree.Resolution.Render

/-!
# Disciplines

A discipline says what descriptors may mention while certain results are there. If the definitions
and the slots keep to it, so does everything that resolution finds for a descriptor that does; and
if it lets nothing but results that are there be referred to, resolution never comes upon a slot
that is missing.
-/
namespace EffectTree

/-- What may be mentioned while the results under some keys are there. More results permit more, and
each of them may be referred to. -/
structure Discipline where
  permits : Set String → Mention → Prop
  mono : ∀ {keys keys' : Set String} {m : Mention}, keys ⊆ keys' → permits keys m → permits keys' m
  known : ∀ {keys : Set String} {key : String}, key ∈ keys → permits keys (.result (.ofStr key))

namespace Discipline

variable (D : Discipline)

/-- A descriptor that mentions only what is permitted. -/
def Allows (keys : Set String) (d : Descriptor) : Prop := ∀ m ∈ d.mentions, D.permits keys m

/-- Nothing but results that are there may be referred to. -/
def Settled : Prop :=
  ∀ keys key, D.permits keys (.result key) → ∃ name mark, key = .str name mark ∧ name ∈ keys

/-- The faults that can come up: a missing slot only where the discipline does not exclude it. -/
def Admits (e : Fault) : Prop := D.Settled → ∀ key, e ≠ .unknownSlot key

def AdmitsObstacle : Resolution.Obstacle → Prop
  | .notLiteral => True
  | .fault e => D.Admits e

/-- The definitions and the slots keep to the discipline, and each result has a slot. -/
structure Governs (keys : Set String) (r : Resolver) : Prop where
  definitions : ∀ entry ∈ r.definitions, D.Allows keys entry.2
  slots : ∀ entry ∈ r.slots, D.Allows keys entry.2
  present : ∀ key ∈ keys, (Table.get? r.slots key).isSome

/-- Any variable may be mentioned as well. -/
def loosened : Discipline where
  permits keys m := D.permits keys m ∨ ∃ name, m = .free name
  mono h := Or.imp_left (D.mono h)
  known h := .inl (D.known h)

/-- Anything may be mentioned. -/
def lenient : Discipline where
  permits _ _ := True
  mono _ _ := trivial
  known _ := trivial

variable {D} {keys keys' : Set String} {d : Descriptor} {r : Resolver}

theorem Allows.mono (h : keys ⊆ keys') (hd : D.Allows keys d) : D.Allows keys' d :=
  fun m hm => D.mono h (hd m hm)

theorem Allows.of_subset {d' : Descriptor} (hd : D.Allows keys d) (h : d'.mentions ⊆ d.mentions) :
    D.Allows keys d' :=
  fun m hm => hd m (h hm)

theorem allows_of_nil (h : d.mentions = []) : D.Allows keys d := fun m hm => by simp [h] at hm

@[simp] theorem allows_literal (v : Value) : D.Allows keys (.literal v) := allows_of_nil rfl

@[simp] theorem allows_unknown : D.Allows keys .unknown := allows_of_nil rfl

@[simp] theorem allows_index {field : Value} {mark : Mark} :
    D.Allows keys (.index d field mark) ↔ D.Allows keys d := .rfl

@[simp] theorem allows_tuple {items : List Descriptor} :
    D.Allows keys (.tuple items) ↔ ∀ d ∈ items, D.Allows keys d := by
  simp only [Allows, Descriptor.mem_mentions_tuple, forall_exists_index, and_imp]
  exact ⟨fun h d hd m hm => h m d hd hm, fun h m d hd hm => h d hd m hm⟩

@[simp] theorem allows_inter {parts : List Descriptor} :
    D.Allows keys (.inter parts) ↔ ∀ d ∈ parts, D.Allows keys d := by
  simp only [Allows, Descriptor.mem_mentions_inter, forall_exists_index, and_imp]
  exact ⟨fun h d hd m hm => h m d hd hm, fun h m d hd hm => h d hd m hm⟩

@[simp] theorem allows_op {name : Value} {args : List Descriptor} :
    D.Allows keys (.op name args) ↔ ∀ d ∈ args, D.Allows keys d := by
  simp only [Allows, Descriptor.mem_mentions_op, forall_exists_index, and_imp]
  exact ⟨fun h d hd m hm => h m d hd hm, fun h m d hd hm => h d hd m hm⟩

theorem Allows.args {tag : Value} {args : List Descriptor} (h : D.Allows keys (.effect tag args)) :
    ∀ d ∈ args, D.Allows keys d :=
  fun d hd m hm => h m (Descriptor.mem_mentions_effect.mpr (.inr ⟨d, hd, hm⟩))

theorem allows_record {fields : List (String × Descriptor)}
    (h : ∀ entry ∈ fields, D.Allows keys entry.2) :
    D.Allows keys (.record fields) := by
  intro m hm
  obtain ⟨⟨entry, hentry, hm⟩, -⟩ := Descriptor.mem_mentions_record.mp hm
  exact h entry hentry m hm

theorem Allows.merge {d' : Descriptor} (hd : D.Allows keys d) (hd' : D.Allows keys d') :
    D.Allows keys (Resolution.merge d d') :=
  fun m hm => (Resolution.mem_mentions_merge d' hm).elim (hd m) (hd' m)

theorem Governs.mono {D' : Discipline} (h : ∀ d, D.Allows keys d → D'.Allows keys d)
    (hr : D.Governs keys r) :
    D'.Governs keys r :=
  ⟨fun entry hentry => h _ (hr.definitions entry hentry), fun entry hentry =>
    h _ (hr.slots entry hentry), hr.present⟩

theorem admits_of_isOfValues {e : Fault} (h : e.isOfValues = true) : D.Admits e := by
  rintro - key rfl
  cases h

theorem ends_of_ofValues {α : Type} {x : Except Fault α} (h : OfValues x) :
    Ends (fun _ => True) D.Admits x :=
  h.mono (fun _ _ => trivial) fun _ => admits_of_isOfValues

theorem admits_unhashable (v : Value) : D.Admits (.unhashable v) := admits_of_isOfValues rfl

open Resolution

/-- The faults of projecting: a value of the wrong kind or fields in a cycle. -/
abbrev IsOfProjecting (e : Fault) : Prop := e.isOfValues = true ∨ ∃ names, e = .cyclicFields names

/-- Closing a value over its siblings fails only for names that cannot be keys and for cycles. -/
theorem closeRounds_faults (fields : Table Descriptor) (rounds : Nat) (pending : List String)
    (value : Descriptor) :
    Ends (fun _ => True) IsOfProjecting (closeRounds fields rounds pending value) := by
  induction rounds generalizing pending value with
  | zero => exact .inr ⟨_, rfl⟩
  | succ rounds ih =>
    rw [closeRounds]
    split
    · exact .inl rfl
    · dsimp only
      split
      · trivial
      · exact ih _ _

theorem tupleIndex_ofValues (field : Value) : OfValues (tupleIndex field) := by
  unfold tupleIndex
  (repeat' split) <;> simp

theorem project_faults (d : Descriptor) (field : Value) :
    Ends (fun _ => True) IsOfProjecting (project d field) := by
  cases d with
  | record fields =>
    cases field with
    | str name mark =>
      simp only [project]
      split
      · trivial
      · exact (closeRounds_faults fields _ _ _).map fun _ _ => trivial
    | _ =>
      simp only [project]
      split
      · exact .inl rfl
      · trivial
  | tuple items =>
    simp only [project]
    split
    · trivial
    · split
      · exact .inl ((tupleIndex_ofValues field).of_error ‹_›)
      · trivial
      · split_ifs <;> trivial
  | _ => trivial

theorem project_admits (d : Descriptor) (field : Value) :
    Ends (fun _ => True) D.Admits (project d field) := by
  refine (project_faults d field).mono (fun _ h => h) fun e he => ?_
  rcases he with hvalues | ⟨names, rfl⟩
  · exact admits_of_isOfValues hvalues
  · exact fun _ _ h => Fault.noConfusion h

theorem project_ends (hd : D.Allows keys d) (field : Value) :
    Ends (fun part? => ∀ part ∈ part?, D.Allows keys part) D.Admits (project d field) := by
  have h := project_admits (D := D) d field
  cases hp : project d field with
  | ok part? =>
    rintro part rfl
    exact hd.of_subset (project_mentions hp)
  | error e =>
    rw [hp] at h
    exact h

theorem named_ends {table : Table Descriptor} {missing : Value → Fault} {name : Value}
    (htable : ∀ entry ∈ table, D.Allows keys entry.2)
    (hmissing : (∀ s mark, name = .str s mark → Table.get? table s = none) →
      D.Admits (missing name)) :
    Ends (D.Allows keys) D.Admits (named table missing name) := by
  unfold named
  split
  · split
    · exact htable _ (Table.mem_of_get? ‹_›)
    · rename_i s mark hget
      refine hmissing fun s' mark' heq => ?_
      cases heq
      exact hget
  · rename_i hname
    split
    · exact admits_unhashable _
    · exact hmissing fun s mark heq => absurd heq (hname s mark)

def AllowsStep (D : Discipline) (keys : Set String) : Step → Prop
  | .stable => True
  | .next d => D.Allows keys d

theorem partStep_allows {part : Descriptor} (h : D.Allows keys part) :
    D.AllowsStep keys (partStep d (some part)) := by
  rw [partStep]
  split
  · trivial
  · exact h

theorem outcomeStep_ends (operator : Operator) (name : Value) (values : List Value) :
    Ends (D.AllowsStep keys) D.Admits (outcomeStep operator name values) := by
  have h : OfValues (operator.apply values >>= Descriptor.ofValue) :=
    .bind (Operator.apply_ofValues operator values) Descriptor.ofValue_ofValues
  unfold outcomeStep
  split
  · rename_i d hd
    obtain ⟨v, -, hv⟩ := Except.bind_eq_ok.mp hd
    exact allows_of_nil (Descriptor.ofValue_mentions hv)
  · rename_i e he
    change D.Admits _
    split
    · exact fun _ _ h => Fault.noConfusion h
    · exact admits_of_isOfValues (h.of_error he)

section Search

variable (hr : D.Governs keys r) {head : Descriptor → Except Fault Descriptor}
  (hhead : ∀ d, D.Allows keys d → Ends (D.Allows keys) D.Admits (head d))
include hhead

theorem decodeWith_ends {levels : Nat} (hd : D.Allows keys d) :
    Ends (fun _ => True) D.AdmitsObstacle (decodeWith head levels d) := by
  -- On the levels left to decode; each level takes one head, and the parts are decoded a level
  -- down.
  induction levels generalizing d with
  | zero => trivial
  | succ levels ih =>
    have h := hhead d hd
    rw [decodeWith]
    split
    · rename_i e he
      rw [he] at h
      exact h
    · trivial
    · rename_i items hitems
      rw [hitems] at h
      exact (Ends.mapM (R := fun _ => True) fun d hd => ih (allows_tuple.mp h d hd)).map
        fun _ _ => trivial
    · rename_i fields hfields
      rw [hfields] at h
      refine (Ends.mapM (R := fun _ => True) fun entry _ => ?_).map fun _ _ => trivial
      exact (ih (allows_index.mpr h)).map fun _ _ => trivial
    · trivial

theorem conditionalStep_ends {args : List Descriptor} (hargs : ∀ d ∈ args, D.Allows keys d) :
    Ends (D.AllowsStep keys) D.Admits (conditionalStep (decodeWith head decodeLevels) args) := by
  unfold conditionalStep
  split
  · rename_i condition yes no
    have h : Ends (fun _ => True) D.AdmitsObstacle (decodeWith head decodeLevels condition) :=
      decodeWith_ends hhead (hargs condition (by simp))
    unfold whenDecoded
    split
    · trivial
    · rename_i e he
      rw [he] at h
      exact h
    · change D.Allows keys _
      split
      · exact hargs yes (by simp)
      · exact hargs no (by simp)
  · exact fun _ _ h => Fault.noConfusion h

theorem operatorStep_ends (name : Value) {args : List Descriptor}
    (hargs : ∀ d ∈ args, D.Allows keys d) :
    Ends (D.AllowsStep keys) D.Admits (operatorStep (decodeWith head decodeLevels) name args) := by
  have h : Ends (fun _ => True) D.AdmitsObstacle (args.mapM (decodeWith head decodeLevels)) :=
    (Ends.mapM (R := fun _ => True) fun d hd => decodeWith_ends hhead (hargs d hd)).mono
      (fun _ _ => trivial)
      fun _ he => he
  unfold operatorStep
  split
  · split
    · exact fun _ _ h => Fault.noConfusion h
    · rename_i operator _
      unfold whenDecoded
      split
      · trivial
      · rename_i e he
        rw [he] at h
        exact h
      · exact outcomeStep_ends operator _ _
  · split
    · exact admits_unhashable _
    · exact fun _ _ h => Fault.noConfusion h

include hr

theorem step_ends (hd : D.Allows keys d) : Ends (D.AllowsStep keys) D.Admits (step r head d) := by
  cases d with
  | ref name =>
    have h : Ends (D.Allows keys) D.Admits (named r.definitions .unknownDefinition name) :=
      named_ends hr.definitions fun _ _ _ h => Fault.noConfusion h
    rw [step]
    split
    · rename_i e he
      rw [he] at h
      exact h
    · rename_i target htarget
      rw [htarget] at h
      split
      · exact fun _ _ h => Fault.noConfusion h
      · exact h
  | result key =>
    refine (named_ends hr.slots fun hmissing hsettled => ?_).map fun _ => partStep_allows
    obtain ⟨name, mark, rfl, hname⟩ := hsettled keys key (hd _ (List.mem_singleton.mpr rfl))
    have hslot := hr.present name hname
    rw [hmissing name mark rfl] at hslot
    exact absurd hslot (by simp)
  | index target field mark =>
    refine (Ends.bind (hhead target hd) fun t ht => project_ends ht field).map fun part? hpart => ?_
    cases part? with
    | none => exact allows_unknown
    | some part => exact partStep_allows (hpart part rfl)
  | inter parts =>
    refine (Ends.foldlM allows_unknown fun merged part hpart hmerged => ?_).map fun _ h => h
    exact (hhead part (allows_inter.mp hd part hpart)).map fun _ h => hmerged.merge h
  | op name args =>
    unfold step
    dsimp only
    split
    · exact conditionalStep_ends hhead (allows_op.mp hd)
    · exact operatorStep_ends hhead name (allows_op.mp hd)
  | _ => trivial

end Search

theorem iterate_ends {limit : Int} {step : Descriptor → Except Fault Step}
    (hstep : ∀ d, D.Allows keys d → Ends (D.AllowsStep keys) D.Admits (step d)) {n : Nat}
    (hd : D.Allows keys d) :
    Ends (D.Allows keys) D.Admits (iterate limit step n d) := by
  induction n generalizing d with
  | zero => exact fun _ _ h => Fault.noConfusion h
  | succ n ih =>
    have h := hstep d hd
    rw [iterate]
    split
    · rename_i e he
      rw [he] at h
      exact h
    · exact hd
    · rename_i d' hd'
      rw [hd'] at h
      exact ih h

section Resolver

variable (hr : D.Governs keys r)
include hr

/-- Whatever is found for a descriptor that keeps to the discipline keeps to it. -/
theorem headAt_ends {nesting : Nat} (hd : D.Allows keys d) :
    Ends (D.Allows keys) D.Admits (headAt r nesting d) := by
  induction nesting generalizing d with
  | zero => exact fun _ _ h => Fault.noConfusion h
  | succ nesting ih => exact iterate_ends (fun _ hd => step_ends hr (fun _ hd => ih hd) hd) hd

theorem head_ends (hd : D.Allows keys d) : Ends (D.Allows keys) D.Admits (r.head d) :=
  headAt_ends hr hd

theorem literalValue_ends (hd : D.Allows keys d) :
    Ends (fun _ => True) D.Admits (r.literalValue d) := by
  have h : Ends (fun _ => True) D.AdmitsObstacle (r.decode d) :=
    decodeWith_ends (fun _ hd => head_ends hr hd) hd
  unfold Resolver.literalValue
  split
  · trivial
  · trivial
  · rename_i e he
    rw [he] at h
    exact h

theorem effectOf_ends (hd : D.Allows keys d) :
    Ends (fun effect => ∀ d ∈ effect.2, D.Allows keys d) D.Admits (r.effectOf d) := by
  refine (head_ends hr hd).map fun head hhead => ?_
  cases head with
  | effect tag args => exact hhead.args
  | _ => exact fun _ h => absurd h List.not_mem_nil

theorem elementsOf_ends (hd : D.Allows keys d) :
    Ends (fun items? => ∀ items ∈ items?, ∀ d ∈ items, D.Allows keys d) D.Admits
      (r.elementsOf d) := by
  refine (head_ends hr hd).map fun head hhead => ?_
  cases head with
  | tuple items =>
    rintro _ ⟨⟩
    exact allows_tuple.mp hhead
  | _ => rintro _ ⟨⟩

theorem specialize_ends (hd : D.Allows keys d) {fields : Table Descriptor}
    (hfields : ∀ entry ∈ fields, D.Allows keys entry.2) :
    Ends (D.Allows keys) D.Admits (r.specialize d fields) :=
  head_ends hr (allows_inter.mpr (by simpa using ⟨hd, allows_record hfields⟩))

theorem projectField_ends (hd : D.Allows keys d) (field : Value) :
    Ends (fun part? => ∀ part ∈ part?, D.Allows keys part) D.Admits (r.projectField d field) := by
  refine (head_ends hr hd).bind fun head hhead => (project_ends hhead field).bind
    fun part? hpart => ?_
  cases part? with
  | none => rintro _ ⟨⟩
  | some part =>
    refine (head_ends hr (hpart part rfl)).bind fun head hhead => ?_
    rintro _ ⟨⟩
    exact hhead

end Resolver

theorem loosened_settled (h : D.Settled) : D.loosened.Settled := by
  rintro keys key (hkey | ⟨name, hname⟩)
  · exact h keys key hkey
  · cases hname

theorem joinTexts_ofValues (separator : String) (parts : List Value) :
    OfValues (joinTexts separator parts) := by
  have hgo (i : Nat) : OfValues (joinTexts.go i parts) := by
    induction parts generalizing i with
    | nil => simp [joinTexts.go]
    | cons v rest ih => cases v <;> simp [joinTexts.go, ih]
  simp [joinTexts, hgo]

theorem renderParts_ends {render : Descriptor → Except Fault Value} {parts : List Descriptor}
    (h : ∀ d ∈ parts, Ends (fun _ => True) D.Admits (render d)) :
    Ends (fun _ => True) D.Admits (renderParts render parts) :=
  (Ends.mapM h).bind fun _ _ => ends_of_ofValues (joinTexts_ofValues _ _)

/-- A head is rendered with the texts of its parts, those of the fields of a record as they
stand. -/
theorem renderHead_ends {render : Descriptor → Except Fault Value} {head : Descriptor}
    (hfree : ∀ name, D.permits keys (.free name)) (hhead : D.Allows keys head)
    (h : ∀ d, D.Allows keys d → Ends (fun _ => True) D.Admits (render d)) :
    Ends (fun _ => True) D.Admits (renderHead render head) := by
  cases head with
  | literal v => exact (ends_of_ofValues (Json.print_ofValues v)).map fun _ _ => trivial
  | var name => exact (ends_of_ofValues (Json.print_ofValues name)).map fun _ _ => trivial
  | tuple items =>
    exact (renderParts_ends fun d hd => h d (allows_tuple.mp hhead d hd)).map fun _ _ => trivial
  | op name args =>
    exact (renderParts_ends fun d hd => h d (allows_op.mp hhead d hd)).map fun _ _ => trivial
  | effect tag args =>
    unfold renderHead
    dsimp only
    split
    · trivial
    · exact (renderParts_ends fun d hd => h d (hhead.args d hd)).map fun _ _ => trivial
  | record fields =>
    have hfields : ∀ entry ∈ fields, Ends (fun _ => True) D.Admits (renderMember render entry) := by
      intro entry hentry
      refine (h _ fun m hm => ?_).map fun _ _ => trivial
      cases m with
      | free name => exact hfree name
      | result key => exact hhead _ (Descriptor.mem_mentions_record.mpr ⟨⟨entry, hentry, hm⟩, rfl⟩)
      | effect tag => exact hhead _ (Descriptor.mem_mentions_record.mpr ⟨⟨entry, hentry, hm⟩, rfl⟩)
    cases fields with
    | nil => trivial
    | cons entry rest => exact (Ends.mapM hfields).map fun _ _ => trivial
  | unknown | ref | result | index | inter => trivial

theorem surroundings_ofValues (seen : List Value) (d : Descriptor) :
    OfValues (surroundings seen d) := by
  cases d <;> simp [surroundings]

theorem renderAt_ends (hr : D.Governs keys r) (hfree : ∀ name, D.permits keys (.free name))
    {levels : Nat} {seen : List Value} (hd : D.Allows keys d) :
    Ends (fun _ => True) D.Admits (renderAt r levels seen d) := by
  induction levels generalizing seen d with
  | zero => exact fun _ _ h => Fault.noConfusion h
  | succ levels ih =>
    have hhead := head_ends hr hd
    rw [renderAt]
    split
    · exact admits_of_isOfValues ((surroundings_ofValues seen d).of_error ‹_›)
    · trivial
    · split
      · rename_i e he
        rw [he] at hhead
        exact hhead
      · rename_i head hfound
        rw [hfound] at hhead
        exact renderHead_ends hfree hhead fun _ hd => ih hd

/-- Rendering looks into records without closing their fields, so it comes upon the variables that
they bind; these do not matter for what it can fail with. -/
theorem render_ends (hr : D.Governs keys r) (hd : D.Allows keys d) :
    Ends (fun _ => True) D.Admits (r.render d) := by
  have hallows : ∀ d, D.Allows keys d → D.loosened.Allows keys d := fun _ hd m hm => .inl (hd m hm)
  refine (renderAt_ends (D := D.loosened) (hr.mono hallows) (fun name => .inr ⟨name, rfl⟩)
    (hallows d hd)).mono
    (fun _ _ => trivial) fun e he hsettled => he (loosened_settled hsettled)

theorem renderSlots_ends (hr : D.Governs keys r) : Ends (fun _ => True) D.Admits r.renderSlots := by
  have hlines : Ends (fun lines : List String => ∀ line ∈ lines, True) D.Admits
      (r.slots.mapM fun entry => do
        let value ← r.render entry.2
        return "  " ++ entry.1 ++ ": " ++ value.display ++ ";") :=
    Ends.mapM fun entry hentry => (render_ends hr (hr.slots entry hentry)).map fun _ _ => trivial
  exact hlines.map fun _ _ => trivial

end Discipline

end EffectTree
