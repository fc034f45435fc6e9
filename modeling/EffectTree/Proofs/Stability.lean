import EffectTree.Proofs.GrowingResolution
import EffectTree.Proofs.StepwiseAgreement

/-!
# Stability of answers

A resolver answers what a smaller one has answered. The slots of an evaluation only grow, since each
result gets a key that has not been used, so what has once been found of a descriptor or of a result
is found ever after.
-/
namespace EffectTree.Evaluation
open Store Reaching

namespace State

theorem step_world {s t : State} (h : s.step = some t) : s.world.Reaches t.world :=
  closed.step_world (fun w e => .single (.note w e)) h

theorem Reaches.world {s t : State} (h : s.Reaches t) : s.world.Reaches t.world := by
  induction h with
  | refl => exact .refl
  | tail _ hstep ih => exact ih.trans (step_world hstep)

end State

/-- The keys that are still to be issued have no slots. -/
def World.KeysAhead (w : World) : Prop :=
  ∀ n > w.issued, Table.get? w.resolver.slots (keyText n) = none

/-- The value of the result under a key, null if it is not literal. -/
def World.valueOf (w : World) (key : Value) : Except Fault Value :=
  w.results.get key >>= w.resolver.literalValue

/-- The later world has all results and slots of the earlier one, under the same definitions and
limits or larger. -/
structure World.Retains (w w' : World) : Prop where
  resolver : w.resolver.Extends w'.resolver
  results : ∀ key d, w.results.get? key = some d → w'.results.get? key = some d

namespace World

variable {w w' w'' : World}

theorem Retains.refl (w : World) : w.Retains w := ⟨.refl _, fun _ _ h => h⟩

theorem Retains.trans (h : w.Retains w') (h' : w'.Retains w'') : w.Retains w'' :=
  ⟨h.resolver.trans h'.resolver, fun key d hd => h'.results key d (h.results key d hd)⟩

theorem KeysAhead.of_no_slots (h : w.resolver.slots = []) : w.KeysAhead := fun n _ => by rw [h]; rfl

theorem KeysAhead.addResult (h : w.KeysAhead) (d : Descriptor) :
    (w.addResult d).2.KeysAhead ∧ w.Retains (w.addResult d).2 := by
  refine ⟨fun n hn => ?_, ⟨fun _ _ h => h, fun key d' hd' => ?_, Int.le_refl _, Nat.le_refl _⟩,
    fun key d' hd' => ?_⟩
  · change w.nextUnused < n at hn
    have hne : keyText n ≠ keyText w.nextUnused := keyText_injective.ne (Nat.ne_of_gt hn)
    exact (Table.get?_put_ne _ _ hne).trans (h n (w.issued_lt_nextUnused.trans hn))
  · have hne : key ≠ keyText w.nextUnused := by
      rintro rfl
      rw [h _ w.issued_lt_nextUnused] at hd'
      cases hd'
    exact (Table.get?_put_ne _ _ hne).trans hd'
  · change Table.get? w.results.entries key = some d' at hd'
    change Table.get? (w.results.entries ++ [_]) key = some d'
    rw [Table.get?_append, hd']
    rfl

/-- One change keeps all results and slots. -/
theorem Change.retains (hc : w.Change w') (h : w.KeysAhead) : w'.KeysAhead ∧ w.Retains w' := by
  cases hc with
  | result d => exact h.addResult d
  | cell d => exact ⟨fun n hn => h n (Nat.lt_of_succ_lt hn), .refl _, fun _ _ h => h⟩
  | note | cells | registry | files | input | depth => exact ⟨h, .refl _, fun _ _ h => h⟩

theorem Reaches.retains (hr : w.Reaches w') (h : w.KeysAhead) : w'.KeysAhead ∧ w.Retains w' := by
  induction hr with
  | refl => exact ⟨h, .refl _⟩
  | tail _ hc ih =>
    obtain ⟨hahead, hretains⟩ := hc.retains ih.1
    exact ⟨hahead, ih.2.trans hretains⟩

/-- Everything that is answered in the first world is answered in the second one, and so is the
value of each result. -/
structure Settles (w w' : World) : Prop where
  answers : w.resolver.Answers w'.resolver
  results : ∀ key d, w.results.get? key = some d → w'.results.get? key = some d
  values : ∀ key v, w.valueOf key = .ok v → w'.valueOf key = .ok v

theorem Retains.settles (h : w.Retains w') : w.Settles w' where
  answers := h.resolver.answers
  results := h.results
  values key v hv := by
    unfold valueOf Results.get at hv ⊢
    cases key with
    | str name mark =>
      cases hd : w.results.get? name with
      | none =>
        simp only [Results.find?, hd] at hv
        cases hv
      | some d =>
        simp only [Results.find?, hd] at hv
        simp only [Results.find?, h.results name d hd]
        exact h.resolver.answers.literalValue hv
    | null | bool | int | float | complex | bytes | list | tuple | set | dict | ellipsis | builtin
    | generic | union
    | context => cases hv

end World

/-- From each state of a call changes lead to the world after it. -/
theorem State.reaches_after_call {w : World} {call : Call} {s : State}
    (h : (State.start call.node w).Reaches s) :
    s.world.Reaches (w.after call) := by
  have hended := State.Reaches.world (State.reaches_ended h)
  rw [State.ended_world] at hended
  cases call with
  | evaluate node => exact hended
  | run node => exact conclude_reaches hended

/-- A resolver that extends another one gives all its answers. So what has been answered in a state
of a call, whatever calls there were before, is answered ever after, in this call and in later
ones. -/
theorem answers_stable :
    (∀ r r' : Resolver, r.Extends r' → r.Answers r') ∧
      ∀ w : World, w.KeysAhead → ∀ (calls : List Call) (call : Call) (s : State),
        (State.start call.node (w.afterAll calls)).Reaches s →
        (∀ t, s.Reaches t → s.world.Settles t.world) ∧
          ∀ (more : List Call) (node : Descriptor) (t : State),
            (State.start node (w.afterAll (calls ++ call :: more))).Reaches t →
              s.world.Settles t.world := by
  refine ⟨fun _ _ h => h.answers, fun w hw calls call s hs => ?_⟩
  have hbefore : w.Reaches s.world := (w.reaches_afterAll calls).trans (State.Reaches.world hs)
  have hsettles {w' : World} (h : s.world.Reaches w') : s.world.Settles w' :=
    (World.Reaches.retains h (World.Reaches.retains hbefore hw).1).2.settles
  refine ⟨fun t ht => hsettles (State.Reaches.world ht), fun more node t ht => hsettles ?_⟩
  have hlater : w.afterAll (calls ++ call :: more) =
      ((w.afterAll calls).after call).afterAll more := by
    simp [World.afterAll, List.foldl_append]
  rw [hlater] at ht
  exact ((State.reaches_after_call hs).trans (World.reaches_afterAll _ more)).trans
    (State.Reaches.world ht)

/-- An effect that produces a sum of definitions. -/
def summing : Descriptor :=
  .effect (.ofStr "Pure") [.op (.ofStr "add") [.ref (.ofStr "two"), .ref (.ofStr "two")]]

def smallResolver : Resolver := { definitions := [("two", .literal (.ofInt 2))] }

def largeResolver : Resolver :=
  { definitions := smallResolver.definitions ++ [("three", .literal (.ofInt 3))], maxSteps := 20000,
    nesting := 3000 }

def summingWorld : World := { resolver := smallResolver }

/-- What the smaller resolver finds, the larger one finds, and a result that has been produced keeps
its value. -/
theorem summing_answers_stable :
    smallResolver.Answers largeResolver ∧
      (State.ended [] (evaluate summing summingWorld)).world.Settles
        (summingWorld.afterAll [.evaluate summing, .run summing]) ∧
      (State.ended [] (evaluate summing summingWorld)).world.valueOf (.ofStr (keyText 1)) =
        .ok (.ofInt 4) := by
  have hextends : smallResolver.Extends largeResolver := by
    refine ⟨fun name d h => ?_, fun key d h => h, by decide, by decide⟩
    rw [largeResolver, Table.get?_append, h]
    rfl
  exact ⟨answers_stable.1 _ _ hextends,
    (answers_stable.2 summingWorld (.of_no_slots rfl) [] (.evaluate summing) _
      (start_reaches_ended _ _)).2 [.run summing] summing _ .refl, by rfl⟩

end EffectTree.Evaluation
