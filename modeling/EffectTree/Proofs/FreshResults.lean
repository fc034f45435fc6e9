import Mathlib
import EffectTree.Proofs.EffectStages
import EffectTree.Proofs.KeyLists
import EffectTree.Proofs.Keys
import EffectTree.Proofs.Mentions

/-!
# Fresh results

An evaluation that ends with a key has added the result under it. Effects hand on the keys of
effects inside them or store a result of their own, under a key that names none yet, and nothing
that happens after a result has been stored takes it away.
-/
namespace EffectTree.Evaluation

open Store

namespace World

variable {w w' : World}

theorem keys_addResult (w : World) (d : Descriptor) :
    (w.addResult d).2.results.keys = w.results.keys ++ [keyText w.nextUnused] := by
  simp [addResult, Results.add, Results.keys, Table.keys]

/-- One change keeps all results. -/
theorem Change.kept (hc : w.Change w') : w.results.entries <+: w'.results.entries := by
  cases hc with
  | result d => exact List.prefix_append _ _
  | note | cell | cells | registry | files | input | depth => exact List.prefix_rfl

theorem Reaches.kept (hr : w.Reaches w') : w.results.entries <+: w'.results.entries := by
  induction hr with
  | refl => exact List.prefix_rfl
  | tail _ hc ih => exact ih.trans hc.kept

theorem Reaches.keys_subset (hr : w.Reaches w') : w.results.keys ⊆ w'.results.keys :=
  List.map_subset _ hr.kept.subset

end World

/-- A machine whose key, if it gives one, is that of a result that it has added. -/
def Fresh (m : Machine (Option String)) : Prop :=
  ∀ (w : World) key w', m w = .ok (some key) w' → key ∉ w.results.keys ∧ key ∈ w'.results.keys

namespace Fresh

variable {α : Type}

theorem none : Fresh (pure none) := by
  intro w key w' h
  cases h

theorem stop (cause : Stop) : Fresh (throw cause) := by
  intro w key w' h
  cases h

theorem after {m : Machine α} {f : α → Machine (Option String)} (hm : Reaching m)
    (hf : ∀ a, Fresh (f a)) :
    Fresh (m >>= f) := by
  intro w key w' h
  cases hx : m w with
  | ok a w₁ =>
    rw [bind_of_ok hx] at h
    have hreaches : w.Reaches w₁ := by simpa [hx] using hm w
    obtain ⟨hnew, hmem⟩ := hf a w₁ key w' h
    exact ⟨fun hold => hnew (hreaches.keys_subset hold), hmem⟩
  | error cause w₁ =>
    rw [bind_of_error hx] at h
    cases h

theorem yielding (d : Descriptor) : Fresh (yielding d) := by
  intro w key w' h
  have hstored : Evaluation.yielding d w =
    .ok (some (keyText w.nextUnused)) (w.addResult d).2 := rfl
  rw [hstored] at h
  injection h with hkey hworld
  rw [← Option.some.inj hkey, ← hworld]
  refine ⟨w.nextUnused_notMem, ?_⟩
  rw [World.keys_addResult]
  exact List.mem_append_right _ (List.mem_singleton_self _)

/-- Neither going down nor coming back up touches the results. -/
theorem nested {m : Machine (Option String)} (hm : Fresh m) : Fresh (Machine.nested m) := by
  intro w key w' h
  unfold Machine.nested at h
  split at h
  · rename_i key? w₁ hx
    cases h
    exact hm { w with depth := w.depth + 1 } key w₁ hx
  · cases h

theorem orElseFault {m : Machine (Option String)} {handle : Fault → Machine (Option String)}
    (hreach : Reaching m) (hm : Fresh m) (hh : ∀ e, Fresh (handle e)) :
    Fresh (m.orElseFault handle) := by
  intro w key w' h
  have hreaches := hreach w
  unfold Machine.orElseFault at h
  split at h
  · rename_i key? w₁ hx
    cases h
    exact hm w key w' hx
  · rename_i e w₁ hx
    replace hreaches : w.Reaches w₁ := by simpa [hx] using hreaches
    obtain ⟨hnew, hmem⟩ := hh e w₁ key w' h
    exact ⟨fun hold => hnew (hreaches.keys_subset hold), hmem⟩
  · cases h

/-- An effect that evaluates no others gives the key of the result that it stores, if it stores
one. -/
theorem stages : ClosedUnderStages @Reaching Fresh Fresh where
  looks := Reaching.reading
  setFiles := Reaching.closed.setFiles
  takeLine := Reaching.closed.takeLine
  none := none
  yields := yielding
  change hf hm := after (fun w => hf w) fun _ => hm
  addCell d _ hf := after (Reaching.closed.addCell rfl d) hf
  settled := id
  stop := stop
  after := after

end Fresh

open Reaching Fresh

theorem runCustom_fresh (tag : Value) (args : List Descriptor) : Fresh (runCustom tag args) := by
  refine after (closed.mapM closed.has_customArgument args) fun arguments => ?_
  have hinvoke : Reaching (invoke tag arguments) :=
    state.bind fun _ => (closed.lift _).bind fun _ => closed.has_follow (fun _ _ _ => rfl) fun _ =>
      closed.wait
  refine after hinvoke fun product => ?_
  unfold produced
  split
  · exact none
  · exact after (closed.lift _) fun _ => Fresh.yielding _
  · exact Fresh.yielding _

section Control

variable {eval : Evaluator} (hreach : ∀ d, Reaching (eval d)) (heval : ∀ d, Fresh (eval d))
include heval

theorem continueWith_fresh (continuation input : Descriptor) :
    Fresh (continueWith eval continuation input) := by
  refine after (closed.resolve _) fun resolved => after (store resolved) fun _ => ?_
  refine after (closed.resolve _) fun next? => ?_
  split
  · exact heval _
  · exact after (closed.render resolved) fun _ => after (note _) fun _ => none

include hreach

theorem bind_fresh (input? continuation? : Option Descriptor) :
    Fresh (Evaluation.bind eval input? continuation?) := by
  refine after (evaluateOptional_reaching hreach input?) fun key? => ?_
  cases continuation? with
  | none => exact none
  | some continuation =>
    exact after (closed.has_inputFor key?) fun _ => continueWith_fresh heval _ _

theorem recover_fresh (body? continuation? : Option Descriptor) :
    Fresh (recover eval body? continuation?) := by
  refine Fresh.orElseFault (body_reaching hreach body?) ?_ fun e => after (note _) fun _ => ?_
  · cases body? with
    | none => exact stop _
    | some body => exact heval body
  · cases continuation? with
    | none => exact none
    | some continuation => exact continueWith_fresh heval _ _

theorem runControl_fresh (effect : Control) (args : List Descriptor) :
    Fresh (runControl eval effect args) := by
  cases effect with
  | bind => exact bind_fresh hreach heval _ _
  | recover => exact recover_fresh hreach heval _ _
  | gather =>
    refine after (closed.has_members _) fun _ => after (evaluateAll_reaching hreach _)
      fun keys => ?_
    exact after (closed.mapM closed.has_referenceTo _) fun _ => Fresh.yielding _
  | block =>
    refine after (closed.has_members _) fun _ => after (evaluateAll_reaching hreach _)
      fun keys => ?_
    cases keys.getLast? with
    | none => exact none
    | some key => exact after (closed.has_referenceTo key) fun _ => Fresh.yielding _

theorem dispatch_fresh (node : Descriptor) (tag : Value) (args : List Descriptor) :
    Fresh (dispatch eval node tag args) := by
  refine after (closed.lift _) fun _ => ?_
  split
  · exact runControl_fresh hreach heval _ args
  · exact stages.has_runLeaf _ args
  · refine after state fun _ => after (closed.lift _) fun known => ?_
    split
    · exact runCustom_fresh tag args
    · exact stages.has_unhandled node tag

end Control

theorem enter_fresh (node : Descriptor) {inside : Value → List Descriptor → Machine (Option String)}
    (h : ∀ tag args, Fresh (inside tag args)) : Fresh (enter node inside) := by
  have hrest := after (closed.resolve (·.effectOf node)) fun effect =>
    after (closed.log .interpreter
      ("effect: " ++ effect.1.display ++ " (" ++ toString effect.2.length ++ " args)"))
      fun _ => Fresh.nested (h effect.1 effect.2)
  refine after state fun w => ?_
  split
  · exact after (Reaching.stop _) fun _ => hrest
  · exact hrest

theorem evaluateAt_fresh (levels : Nat) (node : Descriptor) : Fresh (evaluateAt levels node) := by
  induction levels generalizing node with
  | zero => exact enter_fresh node fun _ _ => stop _
  | succ levels ih => exact enter_fresh node (dispatch_fresh (evaluateAt_reaching levels) ih node)

theorem evaluate_fresh (node : Descriptor) : Fresh (evaluate node) :=
  after state fun _ => evaluateAt_fresh _ node

/-- A result that was not there before is found among those that have been added. -/
theorem World.Reaches.output_of_fresh {w w' : World} (hr : w.Reaches w') {key : String}
    (hnew : key ∉ w.results.keys) (hmem : key ∈ w'.results.keys) :
    ∃ added d, w'.results.entries = w.results.entries ++ added ∧ (key, d) ∈ added ∧
      w'.results.get? key = some d := by
  obtain ⟨added, hadded⟩ := hr.kept
  have hold : Table.get? w.results.entries key = Option.none := by
    rw [← Option.not_isSome_iff_eq_none, Table.get?_isSome]
    exact hnew
  obtain ⟨d, hd⟩ := Option.isSome_iff_exists.mp (Table.get?_isSome.mpr hmem)
  have hfound : Table.get? added key = some d := by
    rw [← hadded, Table.get?_append, hold, Option.none_or] at hd
    exact hd
  exact ⟨added, d, hadded.symm, Table.mem_of_get? hfound, hd⟩

/-- An evaluation gives at most one key, the key of a result that it has added; so the output of a
run that ends with a key is there, and the run itself has produced it. -/
theorem evaluation_gives_fresh_key (w : World) (node : Descriptor) :
    collect node = Option.toList <$> evaluate node ∧
      (∀ keys w', collect node w = .ok keys w' →
        keys.length ≤ 1 ∧ ∀ key ∈ keys, key ∉ w.results.keys ∧ key ∈ w'.results.keys) ∧
      ∀ key w', run node w = (.finished (some key), w') →
        ∃ added d, w'.results.entries = w.results.entries ++ added ∧ (key, d) ∈ added ∧
          (run node w).1.output? w' = some d := by
  refine ⟨collect_eq node, fun keys w' h => ?_, fun key w' h => ?_⟩
  · rw [collect_eq] at h
    change EStateM.map Option.toList (evaluate node) w = .ok keys w' at h
    unfold EStateM.map at h
    split at h
    · rename_i key? w₁ hx
      cases h
      refine ⟨Option.length_toList_le, fun key hkey => ?_⟩
      rw [Option.mem_toList.mp hkey] at hx
      exact evaluate_fresh node w key w' hx
    · cases h
  · have hreaches := run_reaches node w
    rw [h] at hreaches ⊢
    have hevaluated : evaluate node w = .ok (some key) w' := by
      unfold run at h
      cases hx : evaluate node w with
      | ok key? w₁ =>
        rw [hx] at h
        cases h
        rfl
      | error cause w₁ =>
        rw [hx] at h
        cases cause <;> cases h
    obtain ⟨hnew, hmem⟩ := evaluate_fresh node w key w' hevaluated
    exact hreaches.output_of_fresh hnew hmem

theorem Outcome.finished_of_key? {o : Outcome} {key : String} (h : o.key? = some key) :
    o = .finished (some key) := by
  cases o with
  | finished key? => exact congrArg _ h
  | failed | exited | waiting => cases h

/-- Two results around an effect that has none. -/
def gathering : Descriptor :=
  .effect (.ofStr "Seq") [.tuple [.effect (.ofStr "Pure") [.literal (.ofInt 1)],
    .effect (.ofStr "Print") [.literal (.ofStr "between")],
      .effect (.ofStr "Pure") [.literal (.ofInt 2)]]]

theorem gathering_gives_fresh_key :
    ∃ added d, (run gathering {}).2.results.entries = ({} : World).results.entries ++ added ∧
      (keyText 3, d) ∈ added ∧ (run gathering {}).1.output? (run gathering {}).2 = some d := by
  have hkey : (run gathering {}).1.key? = some (keyText 3) := by decide +kernel
  have hrun : run gathering {} = (.finished (some (keyText 3)), (run gathering {}).2) := by
    rw [← Outcome.finished_of_key? hkey]
  exact (evaluation_gives_fresh_key {} gathering).2.2 (keyText 3) _ hrun

end EffectTree.Evaluation
