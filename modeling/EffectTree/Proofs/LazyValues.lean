import Mathlib
import EffectTree.Proofs.PlainData
import EffectTree.Resolution.Head
import EffectTree.Store.Results

/-!
# The values that lazy descriptors stand for

A descriptor stands for a plain value if every search with enough steps and enough room for searches
inside each other finds the heads of that value. The bounds depend on the descriptor; more slots do
no harm. Operators, conditionals and references to results are steps towards descriptors that stand
for the same value.
-/
namespace EffectTree

namespace Value

mutual

/-- How many lists a value nests inside each other, not counting empty ones. -/
def height : Value → Nat
  | list xs _ => heights xs
  | _ => 0

def heights : List Value → Nat
  | [] => 0
  | x :: xs => max (height x + 1) (heights xs)

end

lemma height_of_isScalar {v : Value} (h : v.isScalar = true) : v.height = 0 := by
  cases v <;> first | rfl | simp [isScalar] at h

end Value

namespace Resolution

open Descriptor

/-- The resolver finds the given slots and takes at least the given number of steps. -/
structure Serves (slots : Table Descriptor) (N : Nat) (r : Resolver) : Prop where
  slots : ∀ key d, slots.get? key = some d → Table.get? r.slots key = some d
  steps : N ≤ r.maxSteps.toNat

lemma Serves.mono {slots : Table Descriptor} {M N : Nat} {r : Resolver} (h : Serves slots N r)
    (hMN : M ≤ N) :
    Serves slots M r := ⟨h.slots, hMN.trans h.steps⟩

/-- From some bounds on, every search expands the first descriptor to the second. -/
def StepsTo (slots : Table Descriptor) (d d' : Descriptor) : Prop :=
  ∃ N, ∀ r, Serves slots N r → ∀ n ≥ N, step r (headAt r n) d = .ok (.next d')

/-- From some bounds on, every search ends with the given head. -/
def HeadsTo (slots : Table Descriptor) (d head : Descriptor) : Prop :=
  ∃ N, ∀ r, Serves slots N r → ∀ n ≥ N, ∀ steps ≥ N,
    iterate r.maxSteps (step r (headAt r n)) steps d = .ok head

mutual

/-- The heads of a descriptor and of its parts are those of a plain value. -/
def Denotes (slots : Table Descriptor) (d : Descriptor) : Value → Prop
  | .list vs mark => mark = .fresh ∧ ∃ ds, HeadsTo slots d (.tuple ds) ∧ DenotesAll slots ds vs
  | v => v.isScalar = true ∧ HeadsTo slots d (.literal v)

def DenotesAll (slots : Table Descriptor) (ds : List Descriptor) : List Value → Prop
  | [] => ds = []
  | v :: vs => ∃ d rest, ds = d :: rest ∧ Denotes slots d v ∧ DenotesAll slots rest vs

end

variable {slots : Table Descriptor} {d d' : Descriptor} {v : Value}

lemma denotesAll_iff {ds : List Descriptor} {vs : List Value} :
    DenotesAll slots ds vs ↔ List.Forall₂ (Denotes slots) ds vs := by
  induction vs generalizing ds with
  | nil => simp [DenotesAll]
  | cons v vs ih => simp only [DenotesAll, ih, List.forall₂_cons_right_iff, and_comm, and_assoc]

lemma denotes_list {vs : List Value} :
    Denotes slots d (.ofList vs) ↔ ∃ ds, HeadsTo slots d (.tuple ds) ∧
      List.Forall₂ (Denotes slots) ds vs := by
  simp only [Denotes, denotesAll_iff, true_and]

lemma denotes_scalar (h : v.isScalar = true) :
    Denotes slots d v ↔ HeadsTo slots d (.literal v) := by
  cases v with
  | null | bool | int | float | str => simp [Denotes, Value.isScalar]
  | complex | bytes | list | tuple | set | dict | ellipsis | builtin | generic | union | context =>
    simp [Value.isScalar] at h

mutual

lemma Denotes.isPlain {d : Descriptor} : {v : Value} → Denotes slots d v → v.isPlain = true
  | .list vs mark, h => by
      obtain ⟨hmark, ds, -, hds⟩ := h
      simpa [Value.isPlain, hmark] using DenotesAll.isPlain hds
  | .null, _ | .bool _, _ | .int .., _ | .float .., _ | .str .., _ => rfl
  | .complex .., h | .bytes .., h | .tuple .., h | .set .., h | .dict .., h | .ellipsis, h
  | .builtin _, h
  | .generic .., h | .union .., h | .context _, h => by simp [Denotes, Value.isScalar] at h

lemma DenotesAll.isPlain {ds : List Descriptor} : {vs : List Value} → DenotesAll slots ds vs →
    ∀ v ∈ vs, v.isPlain = true
  | [], _ => by simp
  | v :: vs, h => by
      obtain ⟨d, rest, -, hd, hrest⟩ := h
      simpa using ⟨hd.isPlain, DenotesAll.isPlain hrest⟩

end

lemma HeadsTo.of_step {head : Descriptor} (hstep : StepsTo slots d d') (h : HeadsTo slots d' head) :
    HeadsTo slots d head := by
  obtain ⟨M, hM⟩ := hstep
  obtain ⟨N, hN⟩ := h
  refine ⟨max M N + 1, fun r hr n hn steps hsteps => ?_⟩
  obtain ⟨k, rfl⟩ : ∃ k, steps = k + 1 := ⟨steps - 1, by omega⟩
  rw [iterate, hM r (hr.mono (by omega)) n (by omega)]
  exact hN r (hr.mono (by omega)) n (by omega) k (by omega)

lemma Denotes.of_step (hstep : StepsTo slots d d') (h : Denotes slots d' v) :
    Denotes slots d v := by
  cases v with
  | list vs mark =>
    obtain ⟨hmark, ds, hhead, hds⟩ := h
    exact ⟨hmark, ds, hhead.of_step hstep, hds⟩
  | null | bool | int | float | complex | str | bytes | tuple | set | dict | ellipsis | builtin
  | generic |
    union | context => exact ⟨h.1, h.2.of_step hstep⟩

lemma headsTo_literal (v : Value) : HeadsTo slots (.literal v) (.literal v) :=
  ⟨1, fun r _ n _ steps hsteps => by
    obtain ⟨k, rfl⟩ : ∃ k, steps = k + 1 := ⟨steps - 1, by omega⟩
    rfl⟩

lemma headsTo_tuple (ds : List Descriptor) : HeadsTo slots (.tuple ds) (.tuple ds) :=
  ⟨1, fun r _ n _ steps hsteps => by
    obtain ⟨k, rfl⟩ : ∃ k, steps = k + 1 := ⟨steps - 1, by omega⟩
    rfl⟩

lemma denotes_literal (h : v.isScalar = true) : Denotes slots (.literal v) v :=
  (denotes_scalar h).mpr (headsTo_literal v)

lemma denotes_tuple {ds : List Descriptor} {vs : List Value}
    (h : List.Forall₂ (Denotes slots) ds vs) :
    Denotes slots (.tuple ds) (.ofList vs) :=
  denotes_list.mpr ⟨ds, headsTo_tuple ds, h⟩

lemma HeadsTo.found {head : Descriptor} (h : HeadsTo slots d head) :
    ∃ N, ∀ r, Serves slots N r → ∀ n ≥ N, headAt r n d = .ok head := by
  obtain ⟨N, hN⟩ := h
  refine ⟨N + 1, fun r hr n hn => ?_⟩
  obtain ⟨k, rfl⟩ : ∃ k, n = k + 1 := ⟨n - 1, by omega⟩
  exact hN r (hr.mono (by omega)) k (by omega) _ ((Nat.le_succ N).trans hr.steps)

lemma HeadsTo.decodes (h : HeadsTo slots d (.literal v)) :
    ∃ N, ∀ r, Serves slots N r → ∀ n ≥ N, ∀ levels > v.height,
      decodeWith (headAt r n) levels d = .ok v := by
  obtain ⟨N, hN⟩ := h.found
  refine ⟨N, fun r hr n hn levels hlevels => ?_⟩
  obtain ⟨k, rfl⟩ : ∃ k, levels = k + 1 := ⟨levels - 1, by omega⟩
  rw [decodeWith, hN r hr n hn]

mutual

/-- What stands for a value decodes to it in as many levels as the value has. -/
theorem Denotes.decodes {d : Descriptor} : {v : Value} → Denotes slots d v →
    ∃ N, ∀ r, Serves slots N r →
      ∀ n ≥ N, ∀ levels > v.height, decodeWith (headAt r n) levels d = .ok v
  | .list vs mark, h => by
      obtain ⟨rfl, ds, hhead, hds⟩ := h
      obtain ⟨M, hM⟩ := hhead.found
      obtain ⟨N, hN⟩ := DenotesAll.decodes hds
      refine ⟨max M N, fun r hr n hn levels hlevels => ?_⟩
      obtain ⟨k, rfl⟩ : ∃ k, levels = k + 1 := ⟨levels - 1, by omega⟩
      have hk : k ≥ Value.heights vs := Nat.le_of_lt_succ hlevels
      rw [decodeWith, hM r (hr.mono (by omega)) n (by omega)]
      simp only [hN r (hr.mono (by omega)) n (by omega) k hk, Except.map]
  | .null, h | .bool _, h | .int .., h | .float .., h | .str .., h => h.2.decodes
  | .complex .., h | .bytes .., h | .tuple .., h | .set .., h | .dict .., h | .ellipsis, h
  | .builtin _, h
  | .generic .., h | .union .., h | .context _, h => h.2.decodes

theorem DenotesAll.decodes {ds : List Descriptor} : {vs : List Value} → DenotesAll slots ds vs →
    ∃ N, ∀ r, Serves slots N r → ∀ n ≥ N, ∀ levels ≥ Value.heights vs,
      ds.mapM (decodeWith (headAt r n) levels) = .ok vs
  | [], h => by
      cases h
      exact ⟨0, fun _ _ _ _ _ _ => rfl⟩
  | v :: vs, h => by
      obtain ⟨d, rest, rfl, hd, hrest⟩ := h
      obtain ⟨M, hM⟩ := hd.decodes
      obtain ⟨N, hN⟩ := DenotesAll.decodes hrest
      refine ⟨max M N, fun r hr n hn levels hlevels => ?_⟩
      rw [Value.heights] at hlevels
      rw [List.mapM_cons, hM r (hr.mono (by omega)) n (by omega) levels (by omega),
        hN r (hr.mono (by omega)) n (by omega) levels (by omega)]
      rfl

end

mutual

theorem ofValue_denotes :
    {v : Value} → v.isPlain = true → ∃ d, ofValue v = .ok d ∧ Denotes slots d v
  | .list vs mark, h => by
      simp only [Value.isPlain, Bool.and_eq_true, decide_eq_true_eq, Value.arePlain_iff] at h
      obtain ⟨ds, hds, hall⟩ := ofItems_denotes h.2
      exact ⟨.tuple ds, by rw [ofValue, hds]; rfl, h.1, ds, headsTo_tuple ds, hall⟩
  | .null, _ | .bool _, _ | .int .., _ | .float .., _ | .str .., _ => ⟨_, rfl, denotes_literal rfl⟩
  | .complex .., h | .bytes .., h | .tuple .., h | .set .., h | .dict .., h | .ellipsis, h
  | .builtin _, h
  | .generic .., h | .union .., h | .context _, h => by simp [Value.isPlain] at h

theorem ofItems_denotes : {vs : List Value} → (∀ v ∈ vs, v.isPlain = true) →
    ∃ ds, ofItems vs = .ok ds ∧ DenotesAll slots ds vs
  | [], _ => ⟨[], rfl, rfl⟩
  | v :: vs, h => by
      obtain ⟨d, hd, hv⟩ := ofValue_denotes (h v (by simp))
      have hplain : ∀ w ∈ vs, w.isPlain = true := fun w hw => h w (by simp [hw])
      obtain ⟨ds, hds, hvs⟩ := ofItems_denotes hplain
      exact ⟨d :: ds, by rw [ofItems, hd]; simp only [hds, Except.map], d, ds, rfl, hv, hvs⟩

end

lemma heights_le {vs : List Value} {n : Nat} (h : ∀ v ∈ vs, v.height < n) :
    Value.heights vs ≤ n := by
  induction vs with
  | nil => exact Nat.zero_le n
  | cons v vs ih => exact max_le (h v (by simp)) (ih fun w hw => h w (by simp [hw]))

/-- An operator expands to the descriptor of what it makes of the values of its operands. -/
lemma stepsTo_operator {name : String} {operator : Operator} {args : List Descriptor}
    {vs : List Value}
    (hif : name ≠ "if") (hname : Operator.ofName? name = some operator)
    (hargs : List.Forall₂ (Denotes slots) args vs) (hheights : ∀ w ∈ vs, w.height < decodeLevels)
    (happly : operator.apply vs = .ok v) (hv : ofValue v = .ok d) :
    StepsTo slots (.op (.ofStr name) args) d := by
  obtain ⟨N, hN⟩ := (denotesAll_iff.mpr hargs).decodes
  refine ⟨N, fun r hr n hn => ?_⟩
  have hdecode := hN r hr n hn decodeLevels (heights_le hheights)
  have hvalue : (operator.apply vs >>= ofValue) = .ok d := by rw [happly]; exact hv
  simp only [step, Value.ofStr]
  split
  · rename_i heq
    simp only [Value.str.injEq] at heq
    exact absurd heq.1 hif
  · simp only [operatorStep, hname, hdecode, whenDecoded, outcomeStep, hvalue]

theorem denotes_operator {name : String} {operator : Operator} {args : List Descriptor}
    {vs : List Value}
    (hif : name ≠ "if") (hname : Operator.ofName? name = some operator)
    (hargs : List.Forall₂ (Denotes slots) args vs) (hheights : ∀ w ∈ vs, w.height < decodeLevels)
    (happly : operator.apply vs = .ok v) : Denotes slots (.op (.ofStr name) args) v := by
  have hplain := Operator.apply_isPlain (DenotesAll.isPlain (denotesAll_iff.mpr hargs)) happly
  obtain ⟨d, hd, hdv⟩ := ofValue_denotes hplain
  exact hdv.of_step (stepsTo_operator hif hname hargs hheights happly hd)

theorem denotes_conditional {condition yes no : Descriptor} {c : Value}
    (hc : Denotes slots condition c) (hheight : c.height < decodeLevels)
    (hv : Denotes slots (if c.truthy then yes else no) v) :
    Denotes slots (.op (.ofStr "if") [condition, yes, no]) v := by
  refine hv.of_step ?_
  obtain ⟨N, hN⟩ := hc.decodes
  refine ⟨N, fun r hr n hn => ?_⟩
  have hdecode := hN r hr n hn decodeLevels hheight
  simp only [step, Value.ofStr, conditionalStep, hdecode, whenDecoded]

/-- A descriptor with no names that cannot be keys and with no free name but the one of the
input. -/
structure Settled (d : Descriptor) : Prop where
  hashable : d.badVar? = none
  free : ∀ name ∈ d.freeVars, name = .ofStr "input"

lemma Settled.of_closed (hbad : d.badVar? = none) (hfree : d.freeVars = []) : Settled d :=
  ⟨hbad, fun name hname => by simp [hfree] at hname⟩

lemma pendingNames_eq_nil {fields : Table Descriptor}
    (h : ∀ name ∈ d.freeVars, declares fields name = false) :
    pendingNames fields d = [] := by
  simp only [pendingNames, List.filterMap_eq_nil_iff]
  intro name hname
  have hdecl := h name hname
  cases name <;> simp_all [declares]

lemma closeOver_of_not_declares {fields : Table Descriptor} (hbad : d.badVar? = none)
    (h : ∀ name ∈ d.freeVars, declares fields name = false) : closeOver d fields = .ok d := by
  simp [closeOver, closeRounds, hbad, pendingNames_eq_nil h]

lemma closeOver_slot (h : Settled d) : closeOver d [("output", d)] = .ok d := by
  refine closeOver_of_not_declares h.hashable fun name hname => ?_
  rw [h.free name hname]
  rfl

lemma stepsTo_result {key : String} {fields : List (String × Descriptor)}
    (h : slots.get? key = some (.record fields)) :
    StepsTo slots (.result (.ofStr key)) (.record fields) :=
  ⟨0, fun r hr n _ => by simp [step, named, Value.ofStr, hr.slots key _ h, Except.map]⟩

lemma headsTo_record (fields : List (String × Descriptor)) :
    HeadsTo slots (.record fields) (.record fields) :=
  ⟨1, fun r _ n _ steps hsteps => by
    obtain ⟨k, rfl⟩ : ∃ k, steps = k + 1 := ⟨steps - 1, by omega⟩
    rfl⟩

lemma stepsTo_reference {key : String} (h : Settled d)
    (hslot : slots.get? key = some (Store.Results.slot d)) :
    StepsTo slots (Store.Results.reference (.ofStr key)) d := by
  obtain ⟨N, hN⟩ := ((headsTo_record _).of_step (stepsTo_result hslot)).found
  refine ⟨N, fun r hr n hn => ?_⟩
  have hhead := hN r hr n hn
  have hproject : project (.record [("output", d)]) (.ofStr "output") = .ok (some d) := by
    simp [project, Value.ofStr, Table.get?, closeOver_slot h, Except.map]
  simp only [Store.Results.reference, step, hhead]
  exact congrArg (Except.map (partStep _)) hproject

theorem denotes_reference {key : String} (h : Settled d)
    (hslot : slots.get? key = some (Store.Results.slot d)) (hv : Denotes slots d v) :
    Denotes slots (Store.Results.reference (.ofStr key)) v :=
  hv.of_step (stepsTo_reference h hslot)

lemma Serves.of_slots {slots' : Table Descriptor} {N : Nat} {r : Resolver}
    (hslots : ∀ key d, slots.get? key = some d → slots'.get? key = some d) (h : Serves slots' N r) :
    Serves slots N r :=
  ⟨fun key d hd => h.slots key d (hslots key d hd), h.steps⟩

lemma HeadsTo.mono {slots' : Table Descriptor} {head : Descriptor}
    (hslots : ∀ key d, slots.get? key = some d → slots'.get? key = some d)
    (h : HeadsTo slots d head) :
    HeadsTo slots' d head := by
  obtain ⟨N, hN⟩ := h
  exact ⟨N, fun r hr => hN r (hr.of_slots hslots)⟩

mutual

lemma Denotes.mono {slots' : Table Descriptor}
    (hslots : ∀ key d, slots.get? key = some d → slots'.get? key = some d) {d : Descriptor} :
    {v : Value} → Denotes slots d v → Denotes slots' d v
  | .list _ _, ⟨hmark, ds, hhead, hds⟩ => ⟨hmark, ds, hhead.mono hslots, hds.mono hslots⟩
  | .null, h | .bool _, h | .int .., h | .float .., h | .str .., h => ⟨h.1, h.2.mono hslots⟩
  | .complex .., h | .bytes .., h | .tuple .., h | .set .., h | .dict .., h | .ellipsis, h
  | .builtin _, h
  | .generic .., h | .union .., h | .context _, h => ⟨h.1, h.2.mono hslots⟩

lemma DenotesAll.mono {slots' : Table Descriptor}
    (hslots : ∀ key d, slots.get? key = some d → slots'.get? key = some d) {ds : List Descriptor} :
    {vs : List Value} → DenotesAll slots ds vs → DenotesAll slots' ds vs
  | [], h => h
  | _ :: _, ⟨d, rest, hds, hd, hrest⟩ => ⟨d, rest, hds, hd.mono hslots, hrest.mono hslots⟩

end

end Resolution

end EffectTree
