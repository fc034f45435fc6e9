import EffectTree.Proofs.Depth
import EffectTree.Proofs.Resemblance

/-!
# Larger limits

An evaluation in which no node is refused for its depth, and no handler is called that observes the
settings, does the same under every larger limit. Each of its steps is made there too, between
worlds that differ in nothing but the limit, so the same effects are performed in the same order and
the end is the same.
-/
namespace EffectTree.Evaluation

/-- The world under another limit of the depth. -/
def World.withMaxDepth (w : World) (v : Value) : World :=
  { w with settings := { w.settings with maxDepth := v } }

namespace State

def withMaxDepth (s : State) (v : Value) : State := { s with world := s.world.withMaxDepth v }

/-- Whether a node is about to be evaluated at the limit. -/
def atLimit (s : State) : Bool :=
  match s.focus with
  | .evaluate _ => s.world.settings.exceeded s.world.depth
  | _ => false

theorem step_of_atLimit {s : State} (h : s.atLimit = true) :
    s.step =
      some { s with focus := .stop (.fault (.depthExceeded s.world.settings.maxDepth)) } := by
  obtain ⟨focus, frames, w⟩ := s
  cases focus with
  | evaluate node =>
    have harrive : arrive node w = .error (.fault (.depthExceeded w.settings.maxDepth)) w :=
      arrive_of_exceeded h
    change some (after frames (arrive node w)) = _
    rw [harrive]
    rfl
  | perform | finish | stop => cases h

/-- Whether a node has been refused for its depth, be it that a frame recovers from that or not. -/
def depthFault (s : State) : Bool :=
  match s.focus with
  | .stop (.fault (.depthExceeded _)) => true
  | _ => false

theorem atLimit_eq_false {s : State} (h : ∀ t, s.Reaches t → t.depthFault = false) :
    s.atLimit = false := by
  refine Bool.eq_false_of_not_eq_true fun hlimit => ?_
  have hrefused := h _ (.single (step_of_atLimit hlimit))
  cases hrefused

end State

/-- Worlds that differ in the limit, which is the given one in the second. -/
def Resemblance.underLimit (v : Value) : Resemblance where
  handlers := Eq
  limits _ limit := limit = v
  written := Eq
  get?_eq := by
    rintro r _ tag rfl -
    rfl
  put := by
    rintro r _ name handler rfl
    rfl
  add := by
    rintro t _ e rfl
    rfl
  replacing := by
    rintro r _ t _ name rfl rfl
    rfl

namespace Resemblance

variable {v : Value}

theorem underLimit_relates_iff {w w' : World} :
    (underLimit v).Relates w w' ↔ w' = w.withMaxDepth v := by
  constructor
  · rintro ⟨halike, hhandlers, hlimits, hwritten⟩
    obtain ⟨_, _, _, _, _, ⟨_, _, _⟩, _, _, _, _, _, _, _⟩ := w
    obtain ⟨_, _, _, _, _, ⟨_, _, _⟩, _, _, _, _, _, _, _⟩ := w'
    cases halike
    simp_all [World.withMaxDepth, underLimit]
  · rintro rfl
    exact ⟨⟨rfl, rfl, rfl, rfl, rfl, rfl, rfl, rfl, rfl, rfl, rfl, rfl⟩, rfl, rfl, rfl⟩

theorem underLimit_pairs_iff {s s' : State} :
    (underLimit v).Pairs s s' ↔ s' = s.withMaxDepth v := by
  constructor
  · rintro ⟨hfocus, hframes, hworld⟩
    obtain ⟨focus, frames, w⟩ := s
    obtain ⟨focus', frames', w'⟩ := s'
    have hworld' : w' = w.withMaxDepth v := underLimit_relates_iff.mp hworld
    cases hfocus
    cases hframes
    rw [hworld']
    rfl
  · rintro rfl
    exact ⟨rfl, rfl, underLimit_relates_iff.mpr rfl⟩

end Resemblance

/-- What it means that an evaluation is the same under another limit. -/
structure SameUnder (v : Value) (node : Descriptor) (w : World) : Prop where
  /-- Each step is made there too. -/
  steps : ∀ s, (State.start node w).Reaches s →
    (s.withMaxDepth v).step = s.step.map (·.withMaxDepth v)
  /-- There are no other states. -/
  states : ∀ t, (State.start node (w.withMaxDepth v)).Reaches t ↔
    ∃ s, (State.start node w).Reaches s ∧ t = s.withMaxDepth v
  /-- The outcome is the same, and so is the world that is left behind. -/
  outcome : run node (w.withMaxDepth v) = ((run node w).1, (run node w).2.withMaxDepth v)

section Same

variable {v : Value}

/-- A state and the same under the other limit take the same step, unless one of them is refused or
a handler tells them apart. -/
theorem step_withMaxDepth {s : State} (h : Resemblance.StepAlike s (s.withMaxDepth v)) :
    (s.withMaxDepth v).step = s.step.map (·.withMaxDepth v) := by
  have hpairs : (Resemblance.underLimit v).Pairs s (s.withMaxDepth v) :=
    Resemblance.underLimit_pairs_iff.mpr rfl
  have hmatched := hpairs.step h
  generalize s.step = next at hmatched
  generalize (s.withMaxDepth v).step = next' at hmatched
  cases hmatched with
  | none => rfl
  | some h => exact congrArg some (Resemblance.underLimit_pairs_iff.mp h)

theorem reaches_withMaxDepth_iff {start t : State}
    (hsteps : ∀ s, start.Reaches s → (s.withMaxDepth v).step = s.step.map (·.withMaxDepth v)) :
    (start.withMaxDepth v).Reaches t ↔ ∃ s, start.Reaches s ∧ t = s.withMaxDepth v := by
  constructor
  · intro ht
    induction ht with
    | refl => exact ⟨_, .refl, rfl⟩
    | tail _ hstep ih =>
      obtain ⟨s, hs, rfl⟩ := ih
      rw [hsteps s hs, Option.map_eq_some_iff] at hstep
      obtain ⟨s', hs', rfl⟩ := hstep
      exact ⟨s', hs.tail hs', rfl⟩
  · rintro ⟨s, hs, rfl⟩
    induction hs with
    | refl => exact .refl
    | tail hreaches hstep ih =>
      refine ih.tail ?_
      rw [hsteps _ hreaches, hstep]
      rfl

theorem run_withMaxDepth {node : Descriptor} {w : World}
    (halike : ∀ s, (State.start node w).Reaches s → Resemblance.StepAlike s (s.withMaxDepth v)) :
    run node (w.withMaxDepth v) = ((run node w).1, (run node w).2.withMaxDepth v) := by
  have hrelates : (Resemblance.underLimit v).Relates w (w.withMaxDepth v) :=
    Resemblance.underLimit_relates_iff.mpr rfl
  have hmatches := hrelates.evaluate_matches node fun s s' hs hpairs => by
    rw [Resemblance.underLimit_pairs_iff.mp hpairs]
    exact halike s hs
  unfold run
  generalize evaluate node w = r at hmatches
  generalize evaluate node (w.withMaxDepth v) = r' at hmatches
  cases hmatches with
  | ok key? h =>
    rw [Resemblance.underLimit_relates_iff.mp h]
    rfl
  | error cause h =>
    rw [Resemblance.underLimit_relates_iff.mp h]
    cases cause <;> rfl

end Same

section Larger

variable {w : World} {v : Value} {limit larger : Int}

/-- Where no node is at the limit, nothing is refused under either limit. -/
theorem equallyDeep (hlimit : w.settings.maxDepth.integer? = some limit)
    (hlarger : v.integer? = some larger) (hle : limit ≤ larger) {s : State}
    (hs : Within w.settings limit s) (hbelow : s.atLimit = false) :
    Resemblance.EquallyDeep s (s.withMaxDepth v) := by
  have hlimit' : s.world.settings.maxDepth.integer? = some limit := by rw [hs.settings_eq, hlimit]
  have hdepth : (s.world.depth : Int) ≤ larger := hs.depth.trans hle
  have hdeep : s.tooDeep = false := State.tooDeep_eq_false hlimit' hs.depth
  have hdeep' : (s.withMaxDepth v).tooDeep = false := State.tooDeep_eq_false hlarger hdepth
  right
  obtain ⟨focus, frames, u⟩ := s
  cases focus with
  | evaluate node =>
    refine ⟨hbelow, ?_⟩
    have hnot : ¬ limit ≤ u.depth := by
      rw [← Settings.exceeded_iff hlimit', Bool.not_eq_true]
      exact hbelow
    change (u.withMaxDepth v).settings.exceeded u.depth = false
    rw [← Bool.not_eq_true, Settings.exceeded_iff hlarger]
    omega
  | perform | finish | stop => exact ⟨hdeep, hdeep'⟩

/-- Raising the limit changes nothing for an evaluation in which no node is refused for its depth
and the handlers that are called do not observe the settings. -/
theorem larger_limit_agrees (hlimit : w.settings.maxDepth.integer? = some limit)
    (hlarger : v.integer? = some larger)
    (hle : limit ≤ larger) {node : Descriptor}
    (hclear : ∀ s, (State.start node w).Reaches s → s.depthFault = false)
    (hignores : ∀ s handler, (State.start node w).Reaches s → s.Calls handler →
      handler.IgnoresSettings) :
    SameUnder v node w := by
  have hbelow : ∀ s, (State.start node w).Reaches s → s.atLimit = false := fun s hs =>
    State.atLimit_eq_false fun t ht => hclear t (hs.trans ht)
  have hdepth : (w.depth : Int) ≤ limit := by
    have hstart : w.settings.exceeded w.depth = false := hbelow _ .refl
    have hnot : ¬ limit ≤ w.depth := by
      rw [← Settings.exceeded_iff hlimit, hstart]
      exact Bool.false_ne_true
    omega
  have halike : ∀ s, (State.start node w).Reaches s →
      Resemblance.StepAlike s (s.withMaxDepth v) := by
    intro s hs
    have hstart := Within.start hdepth node
    have hwithin := hstart.goes hlimit (hstart.goes_of_reaches hlimit hs)
    exact ⟨equallyDeep hlimit hlarger hle hwithin (hbelow s hs), fun handler hcall arguments =>
      hignores s handler hs hcall arguments s.world.context _⟩
  have hsteps : ∀ s, (State.start node w).Reaches s →
      (s.withMaxDepth v).step = s.step.map (·.withMaxDepth v) :=
    fun s hs => step_withMaxDepth (halike s hs)
  exact ⟨hsteps, fun _ => reaches_withMaxDepth_iff hsteps, run_withMaxDepth halike⟩

/-- A body that throws from further down, and a continuation that performs an effect that has been
defined before. -/
def descending : Descriptor :=
  .effect (.ofStr "Do") [.tuple
    [.effect (.ofStr "DefineEffect")
      [.literal (.ofStr "shout"), .literal (.ofStr "(args) => args[0].upper()")],
      .effect (.ofStr "Try")
        [.effect (.ofStr "Seq") [.tuple [.effect (.ofStr "Throw") [.literal (.ofStr "deep")]]],
          .record [("input", .unknown),
            ("return", .effect (.ofStr "shout") [.var (.ofStr "input")])]]]]

def shallow : World := { settings := { maxDepth := .ofInt 4 } }

theorem descending_same_under_default : SameUnder (.ofInt 200) descending shallow := by
  have hclear : (State.start descending shallow).allAhead (!·.depthFault) 30 = true := by
    decide +kernel
  have hcalls : (State.start descending shallow).allAhead State.callsWithArgumentsOnly 30 =
    true := by decide +kernel
  exact larger_limit_agrees rfl rfl (by decide)
    (fun _ hs => by simpa using State.of_allAhead hclear hs)
    fun s handler hs hcall => (hcall.ignoresContext (State.of_allAhead hcalls hs)).settings

end Larger

end EffectTree.Evaluation
