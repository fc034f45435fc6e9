import EffectTree.Proofs.ResultReferences

/-!
# Where effects come from

No effect is ever made up: an effect that is performed has a tag that occurs in the program, in its
definitions, in a slot or in a cell that was there before.
-/
namespace EffectTree

open Evaluation

/-- A descriptor in which an effect with a tag occurs. -/
def Descriptor.HasEffect (d : Descriptor) (tag : Value) : Prop :=
  ∃ t, .effect t ∈ d.mentions ∧ t.agrees tag = true

namespace Discipline

/-- Everything may be mentioned but effects with one tag. -/
def lacking (tag : Value) : Discipline where
  permits _ m := ∀ t, m = .effect t → t.agrees tag = false
  mono _ h := h
  known _ _ h := Mention.noConfusion h

variable {tag : Value} {d : Descriptor} {keys : Set String} {r : Resolver}

theorem lacking_allows_iff : (lacking tag).Allows keys d ↔ ¬ d.HasEffect tag := by
  constructor
  · rintro h ⟨t, ht, hagrees⟩
    simp [h _ ht t rfl] at hagrees
  · rintro h m hm t rfl
    exact Bool.eq_false_iff.mpr fun hagrees => h ⟨t, hm, hagrees⟩

/-- The tag that is found for a node, unless the node is no effect. -/
theorem effectOf_lacking {t : Value} {args : List Descriptor} (hr : (lacking tag).Governs keys r)
    (hd : ¬ d.HasEffect tag) (h : r.effectOf d = .ok (t, args)) (hagrees : t.agrees tag = true) :
    t = .null ∧ ∀ t' args', r.head d ≠ .ok (.effect t' args') := by
  have hhead := head_ends hr (lacking_allows_iff.mpr hd)
  unfold Resolver.effectOf at h
  cases hfound : r.head d with
  | error e =>
    rw [hfound] at h
    cases h
  | ok head =>
    rw [hfound] at h hhead
    cases head with
    | effect t' args' =>
      cases h
      exact absurd ⟨t, Descriptor.mem_mentions_effect.mpr (.inl rfl), hagrees⟩
        (lacking_allows_iff.mp hhead)
    | _ =>
      cases h
      exact ⟨rfl, fun _ _ h => by cases h⟩

end Discipline

namespace Evaluation

open Discipline

/-- A state in which an effect with a tag is performed. -/
def State.Performs (s : State) (tag : Value) : Prop :=
  ∃ node t args, s.focus = .perform node t args ∧ t.agrees tag = true ∧
    s.world.resolver.head node = .ok (.effect t args)

/-- An effect that does not occur is not performed in any state of a call, whatever calls there
were before; nor is its tag looked up, unless it is the absent tag, which nodes have that are no
effects. -/
theorem performed_effects_occur {w : World} {tag : Value} (hw : w.HasOnly (¬ ·.HasEffect tag))
    (calls : List Call) (hcalls : ∀ call ∈ calls, ¬ call.node.HasEffect tag) {node : Descriptor}
    (hnode : ¬ node.HasEffect tag) {s : State}
    (hs : (State.start node (w.afterAll calls)).Reaches s) :
    ¬ s.Performs tag ∧ ∀ d t args, s.focus = .perform d t args → t.agrees tag = true →
      t = .null := by
  have hholds : (lacking tag).Holds w := holds_of_hasOnly (fun _ => lacking_allows_iff.mpr) hw
  have hvalid := (session_valid hholds
    (fun call hcall => lacking_allows_iff.mpr (hcalls call hcall))
    (lacking_allows_iff.mpr hnode) hs).2
  have hperform {d : Descriptor} {t : Value} {args : List Descriptor}
      (hfocus : s.focus = .perform d t args) (hagrees : t.agrees tag = true) :
      t = .null ∧ ∀ t' args', s.world.resolver.head d ≠ .ok (.effect t' args') := by
    have hallowed := hvalid.focus
    rw [hfocus] at hallowed
    exact effectOf_lacking hvalid.holds.governs (lacking_allows_iff.mp hallowed.1)
      hallowed.2 hagrees
  refine ⟨?_, fun d t args hfocus hagrees => (hperform hfocus hagrees).1⟩
  rintro ⟨d, t, args, hfocus, hagrees, hhead⟩
  exact (hperform hfocus hagrees).2 t args hhead

theorem agrees_ofStr (s s' : String) : (Value.ofStr s).agrees (.ofStr s') = decide (s = s') := by
  simp [Value.agrees, Value.ofStr, Value.eqv, Value.sameUndefined]

def aboutToPass : State :=
  ⟨.perform passing (.ofStr "Bind") passed, [.leave], World.descended {} (.ofStr "Bind") passed⟩

theorem start_reaches_aboutToPass : (State.start passing {}).Reaches aboutToPass :=
  .single (congrArg some (congrArg (State.after []) (arrive_of_ok rfl rfl)))

theorem passing_lacks_exit : ¬ passing.HasEffect (.ofStr "Exit") := by
  simp [passing, passed, Descriptor.HasEffect, Descriptor.mentions, Descriptor.mentionsList,
    Descriptor.mentionsFields,
    agrees_ofStr]

theorem passing_does_not_exit :
    ¬ aboutToPass.Performs (.ofStr "Exit") ∧ ∀ d t args, aboutToPass.focus = .perform d t args →
      t.agrees (.ofStr "Exit") = true → t = .null :=
  performed_effects_occur ⟨by simp, by simp, by simp, by simp [Registry.Compiled]⟩ []
    (by simp) passing_lacks_exit
    start_reaches_aboutToPass

end Evaluation

end EffectTree
