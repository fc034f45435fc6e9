import EffectTree.Proofs.StepwiseAgreement

/-!
# References to results

A program that refers to no result itself only ever refers to results that are there, and each
result refers only to earlier ones. So references never dangle and never form a cycle, and
resolution finds a slot for each of them.
-/
namespace EffectTree

open Evaluation

/-- A descriptor in which the result under a key occurs. -/
def Descriptor.RefersTo (d : Descriptor) (key : Value) : Prop := .result key ∈ d.mentions

namespace Discipline

/-- Results may be referred to if they are there, and everything else may be mentioned. -/
def settled : Discipline where
  permits keys m := ∀ key, m = .result key → ∃ name mark, key = .str name mark ∧ name ∈ keys
  mono h hm key hkey := by
    obtain ⟨name, mark, hname, hmem⟩ := hm key hkey
    exact ⟨name, mark, hname, h hmem⟩
  known h _ hkey := ⟨_, _, (Mention.result.inj hkey).symm, h⟩

theorem settled_settled : settled.Settled := fun _ key h => h key rfl

theorem settled_allows_of_notRefersTo {d : Descriptor} (h : ∀ key, ¬ d.RefersTo key)
    (keys : Set String) :
    settled.Allows keys d := by
  rintro m hm key rfl
  exact absurd hm (h key)

/-- Results that may be mentioned at any time are in layers. -/
theorem layered_of_allows {D : Discipline} {before entries : List (String × Descriptor)}
    (h : ∀ entry ∈ entries, ∀ keys, D.Allows keys entry.2) : D.Layered before entries := by
  induction entries generalizing before with
  | nil => trivial
  | cons entry entries ih =>
    exact ⟨h entry (List.mem_cons_self ..) _, ih fun e he => h e (List.mem_cons_of_mem _ he)⟩

end Discipline

namespace Evaluation

open Discipline

structure State.RefersBack (s : State) : Prop where
  results : ∀ before key d after, s.world.results.entries = before ++ (key, d) :: after →
    ∀ k, d.RefersTo k → ∃ name mark, k = .str name mark ∧ name ∈ Table.keys before
  cells : ∀ entry ∈ s.world.cells.entries, ∀ k, entry.2.RefersTo k → s.world.results.has k = true
  nodes : ∀ d ∈ s.nodes, ∀ k, d.RefersTo k → s.world.results.has k = true
  fault : ∀ k, s.focus ≠ .stop (.fault (.unknownSlot k))
  rendering : ∀ d ∈ s.nodes, ∀ k, s.world.resolver.render d ≠ .error (.unknownSlot k)
  dumping : ∀ k, s.world.resolver.renderSlots ≠ .error (.unknownSlot k)

theorem has_of_settled {w : World} {d : Descriptor} (hd : settled.Allows w.known d) {k : Value}
    (hk : d.RefersTo k) :
    w.results.has k = true := by
  obtain ⟨name, mark, rfl, hname⟩ := hd _ hk k rfl
  exact Table.get?_isSome.mpr hname.1

theorem Valid.refersBack {s : State} (hs : settled.Valid s)
    (hlayered : settled.Layered [] s.world.results.entries) :
    s.RefersBack where
  results before key d after heq k hk := by
    rw [heq, layered_append] at hlayered
    exact hlayered.2.1 _ hk k rfl
  cells entry hentry k hk := has_of_settled (hs.holds.cells entry hentry) hk
  nodes d hd k hk := has_of_settled (hs.nodes d hd) hk
  fault k hk := by
    have h := hs.focus
    rw [hk] at h
    exact h settled_settled k rfl
  rendering d hd k hk := by
    have h := render_ends hs.holds.governs (hs.nodes d hd)
    rw [hk] at h
    exact h settled_settled k rfl
  dumping k hk := by
    have h := renderSlots_ends hs.holds.governs
    rw [hk] at h
    exact h settled_settled k rfl

/-- Nothing but earlier results is referred to in any state of a call, whatever calls there were
before, and neither that call nor the value of its result fails for a slot that is missing. -/
theorem references_lead_back {w : World} (hw : w.HasOnly fun d => ∀ key, ¬ d.RefersTo key)
    (hresults : ∀ entry ∈ w.results.entries, ∀ key, ¬ entry.2.RefersTo key) (calls : List Call)
    (hcalls : ∀ call ∈ calls, ∀ key, ¬ call.node.RefersTo key) {node : Descriptor}
    (hnode : ∀ key, ¬ node.RefersTo key) {s : State}
    (hs : (State.start node (w.afterAll calls)).Reaches s) :
    s.RefersBack ∧
      ∀ k, (run node (w.afterAll calls)).1.value (run node (w.afterAll calls)).2 ≠
        .error (.unknownSlot k) := by
  have hallowed {d : Descriptor} (hd : ∀ key, ¬ d.RefersTo key) (keys : Set String) :
      settled.Allows keys d :=
    settled_allows_of_notRefersTo hd keys
  have hholds : settled.Holds w := holds_of_hasOnly (fun d hd => hallowed hd _) hw
  have hcalls : ∀ call ∈ calls, settled.Allows w.known call.node :=
    fun call hcall => hallowed (hcalls call hcall) _
  have hafter := afterAll_follows hholds hcalls
  obtain ⟨hfollows, hvalid⟩ := session_valid hholds hcalls (hallowed hnode _) hs
  refine ⟨Valid.refersBack hvalid ?_, fun k hk => ?_⟩
  · obtain ⟨added, hadded, hlayered⟩ := hfollows.added
    rw [hadded]
    exact layered_append.mpr ⟨layered_of_allows fun entry hentry =>
      hallowed (hresults entry hentry), hlayered⟩
  · have hstored : ∀ entry ∈ (w.afterAll calls).results.entries,
        settled.Allows (w.afterAll calls).known entry.2 :=
      fun entry hentry => (hafter.results entry hentry).elim
        (fun hold => hallowed (hresults entry hold) _) id
    have hvalue := value_ends hafter.holds hstored (hallowed hnode _)
    rw [hk] at hvalue
    exact hvalue settled_settled k rfl

/-- A number and a continuation that yields what it is given. -/
def passed : List Descriptor :=
  [.effect (.ofStr "Pure") [.literal (.ofInt 1)],
    .record [("input", .unknown), ("return", .effect (.ofStr "Pure") [.var (.ofStr "input")])]]

/-- An effect that passes a result on, and yields a reference to it. -/
def passing : Descriptor := .effect (.ofStr "Bind") passed

theorem passing_notRefersTo (key : Value) : ¬ passing.RefersTo key := by
  simp [passing, passed, Descriptor.RefersTo, Descriptor.mentions, Descriptor.mentionsList,
    Descriptor.mentionsFields]

theorem passing_references_lead_back :
    (State.ended [] (evaluate passing (({} : World).afterAll [.run passing]))).RefersBack ∧
      ∀ k, (run passing (({} : World).afterAll [.run passing])).1.value
        (run passing (({} : World).afterAll [.run passing])).2 ≠ .error (.unknownSlot k) :=
  references_lead_back ⟨by simp, by simp, by simp, by simp [Registry.Compiled]⟩ (by simp)
    [.run passing]
    (by simpa [Call.node] using passing_notRefersTo) passing_notRefersTo (start_reaches_ended _ _)

end Evaluation

end EffectTree
