import EffectTree.Proofs.Waiting

/-!
# Depth

The depth of nesting is the same after an evaluation as before, however it ends, and never passes
the limit of the settings on the way. A node at the limit is refused before anything happens. So the
steps of every evaluation come to an end, also where nothing but the settings limits the nesting: to
its outcome, or to a wait that goes on for ever.
-/
namespace EffectTree

open Evaluation Discipline

namespace Settings

variable {settings : Settings} {limit : Int}

theorem real_of_integer {v : Value} (h : v.integer? = some limit) :
    v.real? = some (.int limit) := by
  cases v <;> simp_all [Value.integer?, Value.real?]

theorem exceeded_iff (h : settings.maxDepth.integer? = some limit) (depth : Nat) :
    settings.exceeded depth = true ↔ limit ≤ depth := by
  simp [exceeded, real_of_integer h, Value.Real.compare, compare_lt_iff_lt]

theorem levels_eq (h : settings.maxDepth.integer? = some limit) :
    settings.levels = limit.toNat := by
  simp [levels, real_of_integer h]

end Settings

namespace Evaluation

namespace State

/-- A state that is come to by steps where nothing but the settings limits the nesting. -/
abbrev Goes : State → State → Prop := Relation.ReflTransGen fun s t => s.next = some t

/-- No sequence of such steps from a state goes on for ever. -/
abbrev Terminates (s : State) : Prop := Acc (fun t s => s.next = some t) s

/-- A state that a last state is come to from. -/
theorem Goes.terminates {s t : State} (h : s.Goes t) (hlast : t.next = none) : s.Terminates := by
  induction h using Relation.ReflTransGen.head_induction_on with
  | refl => exact ⟨_, fun u hu => by simp [hlast] at hu⟩
  | head hstep _ ih =>
    refine ⟨_, fun u hu => ?_⟩
    rw [hstep] at hu
    cases hu
    exact ih

theorem tooDeep_eq_false {s : State} {limit : Int}
    (hlimit : s.world.settings.maxDepth.integer? = some limit)
    (hdepth : (s.world.depth : Int) ≤ limit) : s.tooDeep = false := by
  unfold tooDeep
  split
  · rw [decide_eq_false_iff_not, Settings.levels_eq hlimit]
    omega
  · rfl

theorem ended_next (r : EStateM.Result Stop World (Option String)) : (ended [] r).next = none := by
  cases r <;> rfl

end State

/-- A valid state within the limit, under the settings of the beginning. -/
structure Within (settings : Settings) (limit : Int) (s : State) : Prop where
  valid : lenient.Valid s
  settings_eq : s.world.settings = settings
  depth : (s.world.depth : Int) ≤ limit

section Limit

variable {settings : Settings} {limit : Int} (hlimit : settings.maxDepth.integer? = some limit)

theorem Within.start {w : World} (hdepth : (w.depth : Int) ≤ limit) (node : Descriptor) :
    Within w.settings limit (.start node w) :=
  ⟨.start (lenient_holds w) (lenient_allows node), rfl, hdepth⟩

include hlimit

/-- One step stays within the limit: only a node below it leads one level down. -/
theorem Within.next {s t : State} (hs : Within settings limit s) (h : s.next = some t) :
    Within settings limit t := by
  obtain ⟨hfollows, hvalid, hdepth⟩ := hs.valid.next h
  refine ⟨hvalid, hfollows.settings.trans hs.settings_eq, ?_⟩
  have hbefore := hs.depth
  rcases hdepth with hdepth | ⟨-, hexceeded, hdepth⟩
  · omega
  · rw [hs.settings_eq, ← Bool.not_eq_true, Settings.exceeded_iff hlimit] at hexceeded
    omega

theorem Within.goes {s t : State} (hs : Within settings limit s) (h : s.Goes t) :
    Within settings limit t := by
  induction h with
  | refl => exact hs
  | tail _ hstep ih => exact ih.next hlimit hstep

/-- Within the limit no effect is too deep, so that there is no other limit. -/
theorem Within.step_eq_next {s : State} (hs : Within settings limit s) : s.step = s.next := by
  have hdeep : s.tooDeep = false := State.tooDeep_eq_false (by rw [hs.settings_eq, hlimit]) hs.depth
  rw [State.step, hdeep, if_neg Bool.false_ne_true]

theorem Within.goes_of_reaches {s t : State} (hs : Within settings limit s) (h : s.Reaches t) :
    s.Goes t := by
  induction h with
  | refl => exact .refl
  | tail _ hstep ih => exact ih.tail ((hs.goes hlimit ih).step_eq_next hlimit ▸ hstep)

end Limit

/-- What holds for the evaluation of a node at a depth that is not above the limit. -/
structure Accounted (node : Descriptor) (w : World) (limit : Int) : Prop where
  /-- The depth is the same in the end, with a result, a fault or an exit. -/
  restored : (worldAfter (evaluate node w)).depth = w.depth
  /-- It is never above the limit. -/
  bounded : ∀ s, (State.start node w).Goes s → (s.world.depth : Int) ≤ limit
  /-- A node at the limit is refused, and the world stays as it is. -/
  refused : ∀ s, (State.start node w).Goes s → ∀ nested, s.focus = .evaluate nested →
    limit ≤ s.world.depth →
    s.next = some { s with focus := .stop (.fault (.depthExceeded w.settings.maxDepth)) }
  /-- The steps come to the end of the evaluation. -/
  ends : (State.start node w).Goes (.ended [] (evaluate node w))
  terminates : (State.start node w).Terminates
  /-- That is a wait for ever only where a line is read that never comes or a handler of the host
  waits. -/
  waits : (∃ w', evaluate node w = .error .waiting w') ↔
    ∃ s, (State.start node w).Reaches s ∧ s.Waits
  /-- So it is none where the handlers that are called answer and the input has ended or reads have
  a time limit. -/
  answered : w.Hears → (∀ s handler, (State.start node w).Reaches s → s.Calls handler →
    handler.Answers) →
    ∀ w', evaluate node w ≠ .error .waiting w'

/-- The depth of every evaluation is accounted for, and its steps come to an end. -/
theorem evaluation_accounted (node : Descriptor) (w : World) {limit : Int}
    (hlimit : w.settings.maxDepth.integer? = some limit) (hdepth : (w.depth : Int) ≤ limit) :
    Accounted node w limit := by
  have hstart := Within.start hdepth node
  have hends := hstart.goes_of_reaches hlimit (start_reaches_ended node w)
  refine ⟨(evaluate_stays node w).1, fun s hs => (hstart.goes hlimit hs).depth,
    fun s hs nested hfocus hdeep => ?_,
    hends, hends.terminates (State.ended_next _), evaluate_waits_iff node w, evaluate_ne_waiting⟩
  have hs := hstart.goes hlimit hs
  obtain ⟨focus, frames, w'⟩ := s
  cases hfocus
  have hexceeded : w'.settings.exceeded w'.depth = true := by
    rw [hs.settings_eq]
    exact (Settings.exceeded_iff hlimit _).mpr hdeep
  have hsettings : w'.settings = w.settings := hs.settings_eq
  rw [State.next, arrive_of_exceeded hexceeded, hsettings]
  rfl

/-- A definition that contains itself. -/
def endless : World :=
  { resolver :=
      { definitions := [("main", .effect (.ofStr "Seq") [.tuple [.ref (.ofStr "main")]])] } }

theorem endless_accounted : Accounted (.ref (.ofStr "main")) endless 200 :=
  evaluation_accounted _ endless rfl (by decide)

end Evaluation

end EffectTree
