import Mathlib
import EffectTree.Proofs.Keys
import EffectTree.Proofs.Reaching

/-!
# The table of results

Results are only ever added, each under a key of its own, and resolution finds each of them in a
slot. Each change of the world keeps this, so it holds after every sequence of evaluations, also of
those that end with a fault or an exit.
-/
namespace EffectTree.Evaluation
open Store

/-- The results are stored under different keys that have been issued, and the slots hold what they
hold. -/
structure World.Mirrored (w : World) : Prop where
  issued : ∀ key ∈ w.results.keys, ∃ n ≤ w.issued, key = keyText n
  nodup : w.results.keys.Nodup
  slots : w.resolver.slots = w.results.entries.map fun entry => (entry.1, Results.slot entry.2)

namespace World

variable {w w' : World}

/-- Keys are issued one after the other, none is passed over. -/
theorem Mirrored.nextUnused_eq (h : w.Mirrored) : w.nextUnused = w.issued + 1 := by
  refine World.nextUnused_eq fun hkey => ?_
  obtain ⟨n, hn, heq⟩ := h.issued _ hkey
  have := keyText_injective heq
  omega

theorem Mirrored.slots_keys (h : w.Mirrored) : Table.keys w.resolver.slots = w.results.keys := by
  rw [h.slots]
  exact Table.keys_map _ _

theorem Mirrored.slots_get? (h : w.Mirrored) (key : String) :
    Table.get? w.resolver.slots key = (w.results.get? key).map Results.slot := by
  rw [h.slots]
  exact Table.get?_map _ _ key

@[simp] theorem addResult_key (w : World) (d : Descriptor) :
    (w.addResult d).1 = keyText w.nextUnused := rfl

@[simp] theorem addResult_issued (w : World) (d : Descriptor) :
    (w.addResult d).2.issued = w.nextUnused := rfl

@[simp] theorem addResult_entries (w : World) (d : Descriptor) :
    (w.addResult d).2.results.entries = w.results.entries ++ [(keyText w.nextUnused, d)] := rfl

theorem Mirrored.addResult (h : w.Mirrored) (d : Descriptor) : (w.addResult d).2.Mirrored where
  issued := by
    intro key hkey
    simp only [Results.keys, Table.keys, addResult_entries, List.map_append,
      List.mem_append] at hkey
    rcases hkey with hkey | hkey
    · obtain ⟨n, hn, rfl⟩ := h.issued key hkey
      exact ⟨n, hn.trans w.issued_lt_nextUnused.le, rfl⟩
    · exact ⟨w.nextUnused, le_rfl, by simpa using hkey⟩
  nodup := by
    have hfresh := w.nextUnused_notMem
    simp only [Results.keys, Table.keys, addResult_entries, List.map_append, List.map_cons,
      List.map_nil]
    exact h.nodup.append (List.nodup_singleton _) (by simpa [Results.keys, Table.keys] using hfresh)
  slots := by
    have hfresh : keyText w.nextUnused ∉ Table.keys w.resolver.slots :=
      h.slots_keys ▸ w.nextUnused_notMem
    change w.resolver.slots.put (keyText w.nextUnused) (Results.slot d) = _
    rw [Table.put_of_notMem _ hfresh, h.slots]
    simp

/-- One change keeps the results and their mirror. -/
theorem Change.mirrored (hc : w.Change w') (h : w.Mirrored) :
    w'.Mirrored ∧ w.results.entries <+: w'.results.entries := by
  cases hc with
  | result d => exact ⟨h.addResult d, List.prefix_append _ _⟩
  | cell d =>
    exact ⟨⟨fun key hkey => (h.issued key hkey).imp fun _ hn => ⟨Nat.le_succ_of_le hn.1, hn.2⟩,
      h.nodup, h.slots⟩, List.prefix_rfl⟩
  | note | cells | registry | files | input | depth =>
    exact ⟨⟨h.issued, h.nodup, h.slots⟩, List.prefix_rfl⟩

theorem Reaches.mirrored (hr : w.Reaches w') (h : w.Mirrored) :
    w'.Mirrored ∧ w.results.entries <+: w'.results.entries := by
  induction hr with
  | refl => exact ⟨h, List.prefix_rfl⟩
  | tail _ hc ih =>
    obtain ⟨hm, hp⟩ := hc.mirrored ih.1
    exact ⟨hm, ih.2.trans hp⟩

theorem Mirrored.of_empty (hresults : w.results.entries = []) (hslots : w.resolver.slots = []) :
    w.Mirrored where
  issued := by simp [Results.keys, Table.keys, hresults]
  nodup := by simp [Results.keys, Table.keys, hresults]
  slots := by simp [hresults, hslots]

end World

/-- The ways to have a node evaluated in a world. -/
inductive Call where
  | evaluate (node : Descriptor)
  | run (node : Descriptor)

/-- The world after a call, however it ends. -/
def World.after (w : World) : Call → World
  | .evaluate node => worldAfter (Evaluation.evaluate node w)
  | .run node => (Evaluation.run node w).2

def World.afterAll (w : World) (calls : List Call) : World := calls.foldl World.after w

theorem World.reaches_after (w : World) (call : Call) : w.Reaches (w.after call) := by
  cases call with
  | evaluate node => exact evaluate_reaching node w
  | run node => exact run_reaches node w

theorem World.reaches_afterAll (w : World) (calls : List Call) : w.Reaches (w.afterAll calls) := by
  induction calls generalizing w with
  | nil => exact .refl
  | cons call calls ih => exact (w.reaches_after call).trans (ih _)

/-- The results before stay in front, all keys differ, and the slots have the same keys in the same
order, each with the output under its key. -/
structure World.AddsResults (before after : World) : Prop where
  kept : before.results.entries <+: after.results.entries
  nodup : after.results.keys.Nodup
  slots_keys : Table.keys after.resolver.slots = after.results.keys
  slots_get? : ∀ key ∈ after.results.keys, ∃ d, after.results.get? key = some d ∧
    Table.get? after.resolver.slots key = some (Results.slot d)

/-- In a world that starts without results, each call after any number of calls only adds results,
which the slots mirror. -/
theorem results_append_only_mirrored (w : World) (hresults : w.results.entries = [])
    (hslots : w.resolver.slots = []) (calls : List Call) (call : Call) :
    (w.afterAll calls).AddsResults (w.afterAll (calls ++ [call])) := by
  have hbefore := ((w.reaches_afterAll calls).mirrored (.of_empty hresults hslots)).1
  have hlast : w.afterAll (calls ++ [call]) = (w.afterAll calls).after call := by
    simp [World.afterAll, List.foldl_append]
  rw [hlast]
  obtain ⟨hm, hp⟩ := ((w.afterAll calls).reaches_after call).mirrored hbefore
  refine ⟨hp, hm.nodup, hm.slots_keys, fun key hkey => ?_⟩
  obtain ⟨d, hd⟩ := Option.isSome_iff_exists.mp (Table.get?_isSome.mpr hkey)
  exact ⟨d, hd, by rw [hm.slots_get?, Results.get?, hd]; rfl⟩

/-- A sequence that produces one result before it raises. -/
def halfDone : Descriptor :=
  .effect (.ofStr "Seq") [.tuple [.effect (.ofStr "Pure") [.literal (.ofInt 1)],
    .effect (.ofStr "Throw") [.literal (.ofStr "late")]]]

/-- A run that stops half way and an evaluation that catches the fault. -/
theorem halfDone_adds_results :
    (({} : World).afterAll [.run halfDone]).AddsResults
      (({} : World).afterAll [.run halfDone, .evaluate (.effect (.ofStr "Try") [halfDone])]) :=
  results_append_only_mirrored {} rfl rfl [.run halfDone]
    (.evaluate (.effect (.ofStr "Try") [halfDone]))

end EffectTree.Evaluation
