import EffectTree.Resolution.Render

/-!
# Resolvers that grow

A resolver may get more definitions and slots, more steps and more nesting. What has been found
before is found again; only a fault may go away. Which faults may is a parameter, since a search
that only nests deeper loses no fault but that of the nesting.
-/
namespace EffectTree

/-- The second outcome is the first one, unless the first one is an error that may get lost. -/
inductive Kept {ε α : Type} (lost : ε → Prop) : Except ε α → Except ε α → Prop
  | same (x : Except ε α) : Kept lost x x
  | lost {e : ε} (y : Except ε α) : lost e → Kept lost (.error e) y

namespace Kept

variable {ε α β : Type} {lost : ε → Prop} {x y : Except ε α}

theorem eq_of_not_lost (h : Kept lost x y) (hx : ∀ e, x = .error e → ¬ lost e) : y = x := by
  cases h with
  | same => rfl
  | lost y hlost => exact absurd hlost (hx _ rfl)

theorem ok {a : α} (h : Kept lost x y) (hx : x = .ok a) : y = .ok a :=
  (h.eq_of_not_lost fun e he => by rw [hx] at he; cases he).trans hx

theorem error {e : ε} (h : Kept lost x y) (hx : x = .error e) (he : ¬ lost e) : y = .error e := by
  refine (h.eq_of_not_lost fun e' he' => ?_).trans hx
  rw [hx] at he'
  cases he'
  exact he

theorem bind {f g : α → Except ε β} (h : Kept lost x y) (hfg : ∀ a, Kept lost (f a) (g a)) :
    Kept lost (x >>= f) (y >>= g) := by
  cases h with
  | same =>
    cases x with
    | ok a => exact hfg a
    | error e => exact .same _
  | lost y he => exact .lost _ he

theorem map (h : Kept lost x y) (f : α → β) : Kept lost (x.map f) (y.map f) := by
  cases h with
  | same => exact .same _
  | lost y he => exact .lost _ he

theorem mapM {f g : α → Except ε β} (hfg : ∀ a, Kept lost (f a) (g a)) (xs : List α) :
    Kept lost (xs.mapM f) (xs.mapM g) := by
  induction xs with
  | nil => exact .same _
  | cons a xs ih =>
    rw [List.mapM_cons, List.mapM_cons]
    exact (hfg a).bind fun _ => ih.bind fun _ => .same _

theorem foldlM {f g : β → α → Except ε β} (hfg : ∀ b a, Kept lost (f b a) (g b a)) (xs : List α)
    (b : β) :
    Kept lost (xs.foldlM f b) (xs.foldlM g b) := by
  induction xs generalizing b with
  | nil => exact .same _
  | cons a xs ih =>
    rw [List.foldlM_cons, List.foldlM_cons]
    exact (hfg b a).bind ih

end Kept

namespace Resolution

section Iterate

variable {limit : Int} {step : Descriptor → Except Fault Step} {n : Nat} {d d' : Descriptor}

theorem iterate_next (h : step d = .ok (.next d')) :
    iterate limit step (n + 1) d = iterate limit step n d' := by
  rw [iterate, h]

theorem iterate_stable (h : step d = .ok .stable) : iterate limit step (n + 1) d = .ok d := by
  rw [iterate, h]

theorem iterate_error {e : Fault} (h : step d = .error e) :
    iterate limit step (n + 1) d = .error e := by
  rw [iterate, h]

end Iterate

/-- What a step leaves as it is, is its own head. -/
theorem headAt_of_stable {r : Resolver} {n : Nat} {d : Descriptor} (hsteps : 0 < r.maxSteps)
    (h : step r (headAt r n) d = .ok .stable) : headAt r (n + 1) d = .ok d := by
  obtain ⟨k, hk⟩ : ∃ k, r.maxSteps.toNat = k + 1 := ⟨r.maxSteps.toNat - 1, by omega⟩
  rw [headAt, hk]
  exact iterate_stable h

/-- Two steps are enough for what expands to its head at once. -/
theorem headAt_of_next {r : Resolver} {n : Nat} {d d' : Descriptor} (hsteps : 1 < r.maxSteps)
    (h : step r (headAt r n) d = .ok (.next d')) (h' : step r (headAt r n) d' = .ok .stable) :
    headAt r (n + 1) d = .ok d' := by
  obtain ⟨k, hk⟩ : ∃ k, r.maxSteps.toNat = k + 1 + 1 := ⟨r.maxSteps.toNat - 2, by omega⟩
  rw [headAt, hk, iterate_next h]
  exact iterate_stable h'

def Obstacle.IsLost (lost : Fault → Prop) : Obstacle → Prop
  | .notLiteral => False
  | .fault e => lost e

section Searches

variable {lost : Fault → Prop} {head head' : Descriptor → Except Fault Descriptor}
  (hhead : ∀ d, Kept lost (head d) (head' d))
include hhead

theorem decodeWith_kept (levels : Nat) (d : Descriptor) :
    Kept (Obstacle.IsLost lost) (decodeWith head levels d) (decodeWith head' levels d) := by
  induction levels generalizing d with
  | zero => exact .same _
  | succ levels ih =>
    have h := hhead d
    simp only [decodeWith]
    generalize head d = x, head' d = y at h
    cases h with
    | lost y he => exact .lost _ he
    | same =>
      cases x with
      | error e => exact .same _
      | ok found =>
        cases found with
        | tuple items => exact (Kept.mapM ih items).map _
        | record fields => exact (Kept.mapM (fun entry => (ih _).map _) fields).map _
        | literal | unknown | effect | var | ref | result | index | inter | op => exact .same _

omit hhead in
theorem whenDecoded_kept {α : Type} {x y : Except Obstacle α} {next : α → Except Fault Step}
    (h : Kept (Obstacle.IsLost lost) x y) :
    Kept lost (whenDecoded x next) (whenDecoded y next) := by
  cases h with
  | same => exact .same _
  | @lost e y he =>
    cases e with
    | notLiteral => exact he.elim
    | fault e => exact .lost _ he

theorem conditionalStep_kept (args : List Descriptor) :
    Kept lost (conditionalStep (decodeWith head decodeLevels) args)
      (conditionalStep (decodeWith head' decodeLevels) args) := by
  unfold conditionalStep
  split
  · exact whenDecoded_kept (decodeWith_kept hhead _ _)
  · exact .same _

theorem operatorStep_kept (name : Value) (args : List Descriptor) :
    Kept lost (operatorStep (decodeWith head decodeLevels) name args)
      (operatorStep (decodeWith head' decodeLevels) name args) := by
  unfold operatorStep
  split
  · split
    · exact .same _
    · exact whenDecoded_kept (Kept.mapM (decodeWith_kept hhead _) args)
  · exact .same _

end Searches

/-- The second resolver finds what the first one finds and has no fewer steps; where the first one
would run out of nesting or of steps, it may get further. -/
structure Outgrows (lost : Fault → Prop) (r r' : Resolver) : Prop where
  definitions : ∀ name, Kept lost (named r.definitions .unknownDefinition name)
    (named r'.definitions .unknownDefinition name)
  slots : ∀ key, Kept lost (named r.slots .unknownSlot key) (named r'.slots .unknownSlot key)
  noFewer : r.maxSteps ≤ r'.maxSteps
  steps : r.maxSteps = r'.maxSteps ∨ lost (.unresolved r.maxSteps)
  recursion : lost .recursion

theorem outgrows_self (r : Resolver) : Outgrows (· = .recursion) r r where
  definitions _ := .same _
  slots _ := .same _
  noFewer := Int.le_refl _
  steps := .inl rfl
  recursion := rfl

section Growth

variable {lost : Fault → Prop} {r r' : Resolver} (hr : Outgrows lost r r')
include hr

theorem step_kept {head head' : Descriptor → Except Fault Descriptor}
    (hhead : ∀ d, Kept lost (head d) (head' d)) (d : Descriptor) :
    Kept lost (step r head d) (step r' head' d) := by
  cases d with
  | ref name =>
    have h := hr.definitions name
    simp only [step]
    generalize named r.definitions .unknownDefinition name = x,
      named r'.definitions .unknownDefinition name = y at h
    cases h with
    | same => exact .same _
    | lost y he => exact .lost _ he
  | result key => exact (hr.slots key).map _
  | index target field mark => exact ((hhead target).bind fun _ => .same _).map _
  | inter parts => exact (Kept.foldlM (fun merged part => (hhead part).map _) parts _).map _
  | op name args =>
    simp only [step]
    split
    · exact conditionalStep_kept hhead args
    · exact operatorStep_kept hhead name args
  | literal | unknown | tuple | record | effect | var => exact .same _

omit hr in
theorem iterate_kept {limit limit' : Int} {step step' : Descriptor → Except Fault Step}
    (hstep : ∀ d, Kept lost (step d) (step' d)) {n m : Nat} (hnm : n ≤ m)
    (hlimit : limit = limit' ∧ n = m ∨ lost (.unresolved limit)) (d : Descriptor) :
    Kept lost (iterate limit step n d) (iterate limit' step' m d) := by
  -- On the smaller number of steps: where it runs out, the fault names its limit and so may be
  -- lost.
  induction n generalizing m d with
  | zero =>
    rcases hlimit with ⟨rfl, rfl⟩ | hlost
    · exact .same _
    · exact .lost _ hlost
  | succ n ih =>
    obtain ⟨m, rfl⟩ : ∃ k, m = k + 1 := ⟨m - 1, by omega⟩
    have h := hstep d
    have hrest (d : Descriptor) : Kept lost (iterate limit step n d) (iterate limit' step' m d) :=
      ih (by omega) (hlimit.imp_left fun ⟨heq, hnm⟩ => ⟨heq, by omega⟩) d
    simp only [iterate]
    generalize step d = x, step' d = y at h
    cases h with
    | lost y he => exact .lost _ he
    | same =>
      rcases x with e | (_ | d')
      · exact .same _
      · exact .same _
      · exact hrest d'

theorem headAt_kept {n m : Nat} (hnm : n ≤ m) (d : Descriptor) :
    Kept lost (headAt r n d) (headAt r' m d) := by
  induction n generalizing m d with
  | zero => exact .lost _ hr.recursion
  | succ n ih =>
    obtain ⟨m, rfl⟩ : ∃ k, m = k + 1 := ⟨m - 1, by omega⟩
    have hinner : ∀ d, Kept lost (headAt r n d) (headAt r' m d) := ih (by omega)
    refine iterate_kept (step_kept hr hinner) (Int.toNat_le_toNat hr.noFewer) ?_ d
    exact hr.steps.imp_left fun heq => ⟨heq, by rw [heq]⟩

end Growth

section Rendering

variable {lost : Fault → Prop} {render render' : Descriptor → Except Fault Value}
  (hrender : ∀ d, Kept lost (render d) (render' d))
include hrender

theorem renderParts_kept (parts : List Descriptor) :
    Kept lost (renderParts render parts) (renderParts render' parts) :=
  (Kept.mapM hrender parts).bind fun _ => .same _

theorem renderHead_kept (head : Descriptor) :
    Kept lost (renderHead render head) (renderHead render' head) := by
  have hparts := renderParts_kept hrender
  cases head with
  | tuple items => exact (hparts items).map _
  | record fields =>
    cases fields with
    | nil => exact .same _
    | cons entry rest =>
      exact (Kept.mapM (fun entry => (hrender entry.2).map _) (entry :: rest)).map _
  | effect tag args =>
    unfold renderHead
    dsimp only
    split
    · exact .same _
    · exact (hparts args).map _
  | op name args => exact (hparts args).map _
  | literal | unknown | var | ref | result | index | inter => exact .same _

omit hrender in
/-- With the heads, the texts are kept, also where there is more room for what is inside. -/
theorem renderAt_kept {r r' : Resolver} (hlost : lost .recursion)
    (hhead : ∀ d, Kept lost (r.head d) (r'.head d)) {n m : Nat} (hnm : n ≤ m) (seen : List Value)
    (d : Descriptor) : Kept lost (renderAt r n seen d) (renderAt r' m seen d) := by
  induction n generalizing m seen d with
  | zero => exact .lost _ hlost
  | succ n ih =>
    obtain ⟨m, rfl⟩ : ∃ k, m = k + 1 := ⟨m - 1, by omega⟩
    rw [renderAt, renderAt]
    split
    · exact .same _
    · exact .same _
    · rename_i inner _
      have hfound := hhead d
      generalize r.head d = x, r'.head d = y at hfound
      cases hfound with
      | lost y he => exact .lost _ he
      | same =>
        cases x with
        | error e => exact .same _
        | ok head => exact renderHead_kept (ih (by omega) inner) head

end Rendering

end Resolution

namespace Resolver

open Resolution

/-- The second resolver has the definitions and the slots of the first one and limits that are no
lower. -/
structure Extends (r r' : Resolver) : Prop where
  definitions : ∀ name d, Table.get? r.definitions name = some d →
    Table.get? r'.definitions name = some d
  slots : ∀ key d, Table.get? r.slots key = some d → Table.get? r'.slots key = some d
  maxSteps : r.maxSteps ≤ r'.maxSteps
  nesting : r.nesting ≤ r'.nesting

namespace Extends

variable {r r' r'' : Resolver}

theorem refl (r : Resolver) : r.Extends r :=
  ⟨fun _ _ h => h, fun _ _ h => h, Int.le_refl _, Nat.le_refl _⟩

theorem trans (h : r.Extends r') (h' : r'.Extends r'') : r.Extends r'' where
  definitions name d hd := h'.definitions name d (h.definitions name d hd)
  slots key d hd := h'.slots key d (h.slots key d hd)
  maxSteps := Int.le_trans h.maxSteps h'.maxSteps
  nesting := Nat.le_trans h.nesting h'.nesting

/-- Only a name that is missing may be there in a larger table. -/
theorem named_kept {table table' : Table Descriptor}
    (h : ∀ name d, table.get? name = some d → table'.get? name = some d) (missing : Value → Fault)
    (name : Value) :
    Kept (fun _ => True) (named table missing name) (named table' missing name) := by
  cases name with
  | str name mark =>
    cases hname : table.get? name with
    | none =>
      rw [named, hname]
      exact .lost _ trivial
    | some d =>
      rw [named, named, hname, h name d hname]
      exact .same _
  | null | bool | int | float | complex | bytes | list | tuple | set | dict | ellipsis | builtin
  | generic | union
  | context => exact .same _

variable (h : r.Extends r')
include h

theorem outgrows : Outgrows (fun _ => True) r r' where
  definitions := named_kept h.definitions _
  slots := named_kept h.slots _
  noFewer := h.maxSteps
  steps := .inr trivial
  recursion := trivial

theorem head_kept (d : Descriptor) : Kept (fun _ => True) (r.head d) (r'.head d) :=
  headAt_kept h.outgrows h.nesting d

theorem decode_kept (d : Descriptor) :
    Kept (Obstacle.IsLost fun _ => True) (r.decode d) (r'.decode d) :=
  decodeWith_kept h.head_kept _ d

theorem projectField_kept (d : Descriptor) (field : Value) :
    Kept (fun _ => True) (r.projectField d field) (r'.projectField d field) := by
  refine (h.head_kept d).bind fun head => .bind (.same _) fun part? => ?_
  cases part? with
  | none => exact .same _
  | some part => exact (h.head_kept part).bind fun _ => .same _

theorem renderAt_kept {n m : Nat} (hnm : n ≤ m) (seen : List Value) (d : Descriptor) :
    Kept (fun _ => True) (renderAt r n seen d) (renderAt r' m seen d) :=
  Resolution.renderAt_kept trivial h.head_kept hnm seen d

end Extends

/-- The second resolver gives every answer that the first one gives: heads, values, fields and
texts, and also that a descriptor is not literal. -/
structure Answers (r r' : Resolver) : Prop where
  head : ∀ d found, r.head d = .ok found → r'.head d = .ok found
  decode : ∀ d v, r.decode d = .ok v → r'.decode d = .ok v
  notLiteral : ∀ d, r.decode d = .error .notLiteral → r'.decode d = .error .notLiteral
  projectField : ∀ d field part?, r.projectField d field = .ok part? →
    r'.projectField d field = .ok part?
  specialize : ∀ d fields found, r.specialize d fields = .ok found →
    r'.specialize d fields = .ok found
  render : ∀ d text, r.render d = .ok text → r'.render d = .ok text

theorem Extends.answers {r r' : Resolver} (h : r.Extends r') : r.Answers r' where
  head d _ := (h.head_kept d).ok
  decode d _ := (h.decode_kept d).ok
  notLiteral d hd := (h.decode_kept d).error hd not_false
  projectField d field _ := (h.projectField_kept d field).ok
  specialize d fields _ := (h.head_kept (.inter [d, .record fields])).ok
  render d _ := (h.renderAt_kept h.nesting [] d).ok

theorem Answers.literalValue {r r' : Resolver} (h : r.Answers r') {d : Descriptor} {v : Value}
    (hv : r.literalValue d = .ok v) : r'.literalValue d = .ok v := by
  unfold Resolver.literalValue at hv ⊢
  split at hv
  · rename_i v' hv'
    rw [h.decode d v' hv']
    exact hv
  · rename_i hnot
    rw [h.notLiteral d hnot]
    exact hv
  · cases hv

end Resolver

end EffectTree
