import Mathlib
import EffectTree.Proofs.StrictSettings
import EffectTree.Proofs.UnfoldedSteps

/-!
# Evaluation of unfolded descriptors

The evaluation of a node is followed by that of what it unfolds to, step by step, as long as neither
of them stops at a limit and nothing that the first one asks or calls tells the reference from the
output. The first one may have some more effects around it. Where the second one ends, the first
one has come to the same key, or stops in the same way.
-/
namespace EffectTree.Evaluation

open Store

/-- A state has run into a limit, whatever is going to happen to the fault further out. -/
def State.AtLimit (t : State) : Prop := ∃ e, t.focus = .stop (.fault e) ∧ e.isLimit = true

/-- Nothing that a state asks tells the reference from the output, nor does a handler that it
calls. -/
structure State.Oblivious (s : Stored) (t : State) : Prop where
  questions : ∀ r q, t.Poses r q → s.Indistinct r q
  handlers : ∀ handler, t.Calls handler → handler.Blind s.old

/-- States that go on alike, the first of them with some more frames around it. -/
structure UnfoldsState (s : Stored) (outer : List Frame) (t t' : State) : Prop where
  focus : UnfoldsFocus s t.focus t'.focus
  frames : ∃ inner, t.frames = inner ++ outer ∧ List.Forall₂ (UnfoldsFrame s) inner t'.frames
  world : t.world.Unfolds s t'.world

variable {s : Stored} {outer : List Frame} {t t' u u' : State}

lemma Limited.atLimit {x : EStateM.Result Stop World Move} (h : Limited x) (frames : List Frame) :
    (State.after frames x).AtLimit := by
  obtain ⟨e, w, rfl, he⟩ := h
  exact ⟨e, rfl, he⟩

lemma Follows.after {x y : EStateM.Result Stop World Move} (h : Follows s (UnfoldsMove s) x y)
    {inner inner' : List Frame} (hframes : List.Forall₂ (UnfoldsFrame s) inner inner') :
    UnfoldsState s outer (State.after (inner ++ outer) x) (State.after inner' y) ∨
      (State.after (inner ++ outer) x).AtLimit ∨ (State.after inner' y).AtLimit := by
  cases h with
  | left h => exact .inr (.inl (h.atLimit _))
  | right h => exact .inr (.inr (h.atLimit _))
  | stop cause hw => exact .inl ⟨.stop cause, ⟨inner, rfl, hframes⟩, hw⟩
  | @ok move move' w w' hmove hw =>
    obtain ⟨hfocus, hmoved⟩ := hmove
    refine .inl ⟨hfocus, ⟨move.2 ++ inner, ?_, List.rel_append hmoved hframes⟩, hw⟩
    exact (List.append_assoc _ _ _).symm

namespace UnfoldsState

theorem next (h : UnfoldsState s outer t t') (ht : t.Oblivious s) (hnext : t'.next = some u') :
    ∃ u, t.next = some u ∧ (UnfoldsState s outer u u' ∨ u.AtLimit ∨ u'.AtLimit) := by
  obtain ⟨focus, frames, w⟩ := t
  obtain ⟨focus', frames', w'⟩ := t'
  obtain ⟨hfocus, ⟨inner, hframes, hinner⟩, hw⟩ := h
  cases hframes
  cases hfocus with
  | evaluate h =>
    cases hnext
    exact ⟨_, rfl, (arrive_follows hw h (ht.questions _ _ (.node rfl))).after hinner⟩
  | perform tag h hargs =>
    cases hnext
    have hact := act_follows hw tag h hargs (fun q hq => ht.questions _ _ (.effect rfl hq))
      fun hopcode hhas handler hget => ht.handlers handler ⟨_, tag, _, rfl, hopcode, hhas, hget⟩
    exact ⟨_, rfl, hact.after hinner⟩
  | finish hkey =>
    cases hinner with
    | nil => cases hnext
    | cons hframe hrest =>
      cases hnext
      refine ⟨_, rfl, (resume_follows hw hkey hframe fun c hc r q hq => ?_).after hrest⟩
      subst hc
      exact ht.questions r q (.continuation (.result rfl rfl) hq)
  | stop cause =>
    cases hinner with
    | nil => cases hnext
    | cons hframe hrest =>
      cases hnext
      refine ⟨_, rfl, (unwind_follows hw cause hframe fun c e hc he r q hq => ?_).after hrest⟩
      subst hc he
      exact ht.questions r q (.continuation (.fault rfl rfl) hq)

/-- A step is followed by one that goes on alike, unless one of the two stops at a limit. -/
theorem step (h : UnfoldsState s outer t t') (ht : t.Oblivious s) (hstep : t'.step = some u') :
    ∃ u, t.step = some u ∧ (UnfoldsState s outer u u' ∨ u.AtLimit ∨ u'.AtLimit) := by
  cases hdeep : t.tooDeep with
  | true => exact ⟨_, State.step_of_tooDeep hdeep, .inr (.inl ⟨_, rfl, rfl⟩)⟩
  | false =>
    rw [State.step_of_not_tooDeep hdeep]
    cases hdeep' : t'.tooDeep with
    | false =>
      rw [State.step_of_not_tooDeep hdeep'] at hstep
      exact h.next ht hstep
    | true =>
      rw [State.step_of_tooDeep hdeep'] at hstep
      cases hstep
      obtain ⟨focus, frames, w⟩ := t
      obtain ⟨focus', frames', w'⟩ := t'
      obtain ⟨hfocus, -, -⟩ := h
      cases hfocus with
      | perform => exact ⟨_, rfl, .inr (.inr ⟨_, rfl, rfl⟩)⟩
      | evaluate | finish | stop => cases hdeep'

theorem reaches (h : UnfoldsState s outer t t')
    (hleft : ∀ u, t.Reaches u → ¬ u.AtLimit ∧ u.Oblivious s)
    (hright : ∀ u', t'.Reaches u' → ¬ u'.AtLimit) (hu' : t'.Reaches u') :
    ∃ u, t.Reaches u ∧ UnfoldsState s outer u u' := by
  induction hu' with
  | refl => exact ⟨t, .refl, h⟩
  | tail hreaches hstep ih =>
    obtain ⟨v, hv, hpair⟩ := ih
    obtain ⟨u, hu, hnext⟩ := hpair.step (hleft v hv).2 hstep
    rcases hnext with hnext | hlimit | hlimit
    · exact ⟨u, hv.tail hu, hnext⟩
    · exact absurd hlimit (hleft u (hv.tail hu)).1
    · exact absurd hlimit (hright _ (hreaches.tail hstep))

end UnfoldsState

end EffectTree.Evaluation
