import EffectTree.Proofs.SteadyEffects
import EffectTree.Proofs.StepwiseAgreement

/-!
# Strict settings

Two evaluations of a node in worlds that differ in nothing but strictness go through the same
states, until one of them comes upon an effect that nobody handles. There the lenient one writes a
warning, and the strict one raises a fault, whatever happens to that fault further out.
-/
namespace EffectTree.Evaluation

variable {w : World} {v : Value}

/-- Something is written from one world to the other, with a warning among it that an effect is not
handled. -/
def World.Warns (w w' : World) : Prop :=
  ∃ added, w'.transcript.events = w.transcript.events ++ added ∧ ∃ e ∈ added, e.IsUnhandled

namespace World

variable {w₁ w₂ w₃ : World}

theorem Quiet.warns (h₁ : w₁.Quiet w₂) (h₂ : w₂.Warns w₃) : w₁.Warns w₃ := by
  obtain ⟨added₁, heq₁, -⟩ := h₁
  obtain ⟨added₂, heq₂, e, he, hunhandled⟩ := h₂
  exact ⟨added₁ ++ added₂, by rw [heq₂, heq₁, List.append_assoc], e, List.mem_append_right _ he,
    hunhandled⟩

theorem Warns.mono (h₁ : w₁.Warns w₂) (h₂ : w₂.Quiet w₃ ∨ w₂.Warns w₃) : w₁.Warns w₃ := by
  obtain ⟨added₁, heq₁, e, he, hunhandled⟩ := h₁
  obtain ⟨added₂, heq₂⟩ : ∃ added, w₃.transcript.events = w₂.transcript.events ++ added :=
    h₂.elim (fun h => ⟨h.choose, h.choose_spec.1⟩) fun h => ⟨h.choose, h.choose_spec.1⟩
  exact ⟨added₁ ++ added₂, by rw [heq₂, heq₁, List.append_assoc], e, List.mem_append_left _ he,
    hunhandled⟩

theorem Quiet.not_warns (h : w₁.Quiet w₂) : ¬ w₁.Warns w₂ := by
  obtain ⟨added, heq, hquiet⟩ := h
  rintro ⟨added', heq', e, he, hunhandled⟩
  obtain rfl := List.append_cancel_left (heq.symm.trans heq')
  exact hquiet e he hunhandled

end World

section Unhandled

variable {node : Descriptor} {tag : Value}

theorem unhandled_of_error {e : Fault} (h : w.resolver.render node = .error e) :
    unhandled node tag w = .error (.fault e) w :=
  bind_of_error (resolve_of_error h)

theorem unhandled_of_strict {text : Value} (h : w.resolver.render node = .ok text)
    (hstrict : w.settings.strict.truthy = true) :
    unhandled node tag w = .error (.fault (.unhandled tag text.display)) w := by
  have hrender : Machine.render node w = .ok text w := resolve_of_ok h
  rw [unhandled, bind_of_ok hrender, get_bind, if_pos hstrict]
  rfl

theorem unhandled_of_lenient {text : Value} (h : w.resolver.render node = .ok text)
    (hlenient : w.settings.strict.truthy = false) :
    unhandled node tag w = .ok none
      (w.note (.log ⟨.warning, .interpreter, tag.display ++ " effect is not handled: " ++
        text.display⟩)) := by
  have hrender : Machine.render node w = .ok text w := resolve_of_ok h
  rw [unhandled, bind_of_ok hrender, get_bind, if_neg (by simp [hlenient])]
  rfl

end Unhandled

namespace State

/-- The state in which an effect that nobody handles has just been refused. -/
def RefusesUnhandled (s : State) : Prop :=
  ∃ tag text, s.focus = .stop (.fault (.unhandled tag text))

/-- How a lenient step and the strict one from the same state go. -/
def Parts (v : Value) (s t : State) : Prop :=
  t.world.settings = s.world.settings ∧
    (s.world.Quiet t.world ∧ (s.withStrict v).step = some (t.withStrict v) ∨
      s.world.Warns t.world ∧ ∃ u, (s.withStrict v).step = some u ∧ u.RefusesUnhandled)

end State

theorem Steady.moves {writing : Bool} {m : Machine Move} (hm : Steady writing m)
    (frames : List Frame) (w : World) (v : Value) :
    (State.after frames (m w)).world.settings = w.settings ∧
    w.Quiet (State.after frames (m w)).world ∧
      State.after frames (m (w.withStrict v)) = (State.after frames (m w)).withStrict v := by
  obtain ⟨hquiet, hsettings⟩ := World.Calm.unchanged (hm.calm w)
  rw [hm.strict]
  cases h : m w with
  | ok move w' =>
    rw [h] at hquiet hsettings
    exact ⟨hsettings, hquiet, rfl⟩
  | error cause w' =>
    rw [h] at hquiet hsettings
    exact ⟨hsettings, hquiet, rfl⟩

namespace State

theorem Steady.parts {writing : Bool} {m : Machine Move} (hm : Steady writing m) {s : State}
    (frames : List Frame)
    (h : (s.withStrict v).step = some (after frames (m (s.world.withStrict v)))) :
    s.Parts v (after frames (m s.world)) := by
  obtain ⟨hsettings, hquiet, hmoves⟩ := hm.moves frames s.world v
  rw [hmoves] at h
  exact ⟨hsettings, .inl ⟨hquiet, h⟩⟩

/-- Where nobody handles an effect, rendering it fails in both, or one warns and the other refuses
it. -/
theorem unhandled_parts {node : Descriptor} {tag : Value} {s : State} (frames : List Frame)
    (hlenient : s.world.settings.strict.truthy = false) (hv : v.truthy = true)
    (h : (s.withStrict v).step =
      some (after frames (finishing (unhandled node tag) (s.world.withStrict v)))) :
    s.Parts v (after frames (finishing (unhandled node tag) s.world)) := by
  cases hrender : s.world.resolver.render node with
  | error e =>
    have hfails (w : World) (hw : w.resolver.render node = .error e) :
        finishing (unhandled node tag) w = .error (.fault e) w :=
          bind_of_error (unhandled_of_error hw)
    rw [hfails (s.world.withStrict v) hrender] at h
    rw [hfails _ hrender]
    exact ⟨rfl, .inl ⟨.refl _, h⟩⟩
  | ok text =>
    have hwarns : finishing (unhandled node tag) s.world =
        .ok (.finish none, []) (s.world.note _) :=
      bind_of_ok (unhandled_of_lenient hrender hlenient)
    have hrefuses : finishing (unhandled node tag) (s.world.withStrict v) =
        .error _ (s.world.withStrict v) :=
      bind_of_error (unhandled_of_strict hrender hv)
    rw [hrefuses] at h
    rw [hwarns]
    exact ⟨rfl, .inr ⟨⟨_, Transcript.events_add _ _, _, List.mem_singleton_self _, _, _, rfl⟩, _, h,
      _, _, rfl⟩⟩

theorem unhandled_writes (node : Descriptor) (tag : Value) (frames : List Frame) (w : World) :
    (after frames (finishing (unhandled node tag) w)).world.settings = w.settings ∧
      (w.Quiet (after frames (finishing (unhandled node tag) w)).world ∨
        w.Warns (after frames (finishing (unhandled node tag) w)).world) := by
  have hstops {cause : Stop} (h : unhandled node tag w = .error cause w) :
      finishing (unhandled node tag) w = .error cause w := bind_of_error h
  cases hrender : w.resolver.render node with
  | error e =>
    rw [hstops (unhandled_of_error hrender)]
    exact ⟨rfl, .inl (.refl w)⟩
  | ok text =>
    cases hstrict : w.settings.strict.truthy with
    | true =>
      rw [hstops (unhandled_of_strict hrender hstrict)]
      exact ⟨rfl, .inl (.refl w)⟩
    | false =>
      have hwarns : finishing (unhandled node tag) w = .ok (.finish none, []) (w.note _) :=
        bind_of_ok (unhandled_of_lenient hrender hstrict)
      rw [hwarns]
      exact ⟨rfl, .inr ⟨_, Transcript.events_add _ _, _, List.mem_singleton_self _, _, _, rfl⟩⟩

/-- A step leaves the settings alone, and what it writes is a warning or is none. -/
theorem step_writes {s t : State} (h : s.step = some t) :
    t.world.settings = s.world.settings ∧ (s.world.Quiet t.world ∨ s.world.Warns t.world) := by
  have hsteady {writing : Bool} {m : Machine Move} (hm : Steady writing m) (frames : List Frame) :
      (after frames (m s.world)).world.settings = s.world.settings ∧
        (s.world.Quiet (after frames (m s.world)).world ∨
          s.world.Warns (after frames (m s.world)).world) := by
    obtain ⟨hsettings, hquiet, -⟩ := hm.moves frames s.world .null
    exact ⟨hsettings, .inl hquiet⟩
  rcases step_cases h with ⟨-, rfl⟩ | ⟨-, node, tag, args, -, rfl, -⟩ | ⟨m, frames, hm, rfl, -⟩
  · exact ⟨rfl, .inl (.refl _)⟩
  · have hclosed : ClosedUnderEffects _ true (@Steady true) := Steady.closed
    obtain ⟨m, hself, -, hm | rfl⟩ := hclosed.acts (.refl s.world) node tag args
      (fun _ _ _ => rfl) fun _ _ _ _ _ => ⟨rfl, fun _ _ _ => rfl⟩
    · rw [hself]
      exact hsteady hm s.frames
    · rw [hself]
      exact unhandled_writes node tag s.frames s.world
  · exact hsteady hm frames

theorem step_parts {s t : State} (hlenient : s.world.settings.strict.truthy = false)
    (hv : v.truthy = true) (hignores : ∀ handler, s.Calls handler → handler.IgnoresSettings)
    (h : s.step = some t) : s.Parts v t := by
  rcases step_cases h with ⟨hdeep, rfl⟩ | ⟨-, node, tag, args, hfocus, rfl, hstrict⟩ | ⟨m, frames,
    hm, rfl, hstrict⟩
  · have hstrict : (s.withStrict v).step =
        some { s.withStrict v with focus := .stop (.fault .recursion) } :=
      if_pos hdeep
    exact ⟨rfl, .inl ⟨.refl _, hstrict⟩⟩
  · have hlike : s.world.LooksLike (s.world.withStrict v) :=
      ⟨rfl, rfl, rfl, rfl, rfl, rfl, fun _ => rfl⟩
    have hclosed : ClosedUnderEffects _ true (@Steady true) := Steady.closed
    obtain ⟨m, hself, hother, hm⟩ := hclosed.acts hlike node tag args (fun _ _ _ => rfl)
      fun htag hhas handler hget arguments =>
        ⟨hignores handler ⟨node, tag, args, hfocus, htag, hhas, hget⟩ arguments s.world.context _,
          fun _ _ _ => rfl⟩
    have hmoved : (s.withStrict v).step = some (after s.frames (m (s.world.withStrict v))) := by
      rw [hstrict, hother]
    rw [hself]
    rcases hm with hm | rfl
    · exact Steady.parts hm s.frames hmoved
    · exact unhandled_parts s.frames hlenient hv hmoved
  · exact Steady.parts hm frames (hstrict v)

/-- How the states of a lenient evaluation of a node and those of the strict one go together. -/
def Together (node : Descriptor) (w : World) (v : Value) (s : State) : Prop :=
  s.world.settings = w.settings ∧
    (w.Quiet s.world ∧ (start node (w.withStrict v)).Reaches (s.withStrict v) ∨
      w.Warns s.world ∧ ∃ u, (start node (w.withStrict v)).Reaches u ∧ u.RefusesUnhandled)

/-- No handler that both evaluations of a node come to call observes the settings. -/
def HandlersIgnoreSettings (node : Descriptor) (w : World) (v : Value) : Prop :=
  ∀ s handler, (start node w).Reaches s → (start node (w.withStrict v)).Reaches (s.withStrict v) →
    s.Calls handler → handler.IgnoresSettings

/-- They stay together until a warning is written and a fault is raised instead. -/
theorem together_of_reaches {node : Descriptor} (hlenient : w.settings.strict.truthy = false)
    (hv : v.truthy = true) (hignores : HandlersIgnoreSettings node w v) {s : State}
    (h : (start node w).Reaches s) : Together node w v s := by
  induction h with
  | refl => exact ⟨rfl, .inl ⟨.refl w, .refl⟩⟩
  | @tail s t hreached hstep ih =>
    obtain ⟨hsettings, htogether⟩ := ih
    rcases htogether with ⟨hquiet, hreaches⟩ | ⟨hwarns, hrefused⟩
    · obtain ⟨hsettings', hparts⟩ := step_parts (by rw [hsettings]; exact hlenient) hv
        (fun handler => hignores s handler hreached hreaches) hstep
      refine ⟨hsettings'.trans hsettings, ?_⟩
      rcases hparts with ⟨hquiet', hstrict⟩ | ⟨hwarns, u, hstrict, hrefuses⟩
      · exact .inl ⟨hquiet.trans hquiet', hreaches.tail hstrict⟩
      · exact .inr ⟨hquiet.warns hwarns, u, hreaches.tail hstrict, hrefuses⟩
    · obtain ⟨hsettings', hwritten⟩ := step_writes hstep
      exact ⟨hsettings'.trans hsettings, .inr ⟨hwarns.mono hwritten, hrefused⟩⟩

end State

theorem State.ended_withStrict (frames : List Frame) (r : EStateM.Result Stop World (Option String))
    (v : Value) :
    (State.ended frames r).withStrict v = .ended frames (mapWorld (·.withStrict v) r) := by
  cases r <;> rfl

theorem State.ended_injective {frames : List Frame}
    {r r' : EStateM.Result Stop World (Option String)}
    (h : State.ended frames r = .ended frames r') : r = r' := by
  cases r <;> cases r' <;> cases h <;> rfl

theorem evaluate_of_reaches {node : Descriptor} {r : EStateM.Result Stop World (Option String)}
    (h : (State.start node w).Reaches (.ended [] r)) : evaluate node w = r := by
  rcases Relation.ReflTransGen.cases_head (State.reaches_ended h) with heq | ⟨t, hstep, -⟩
  · exact (State.ended_injective heq).symm
  · cases (State.ended_step r).symm.trans hstep

/-- How a lenient evaluation and the strict one end. -/
theorem evaluate_strict (hlenient : w.settings.strict.truthy = false) (hv : v.truthy = true)
    {node : Descriptor} (hignores : State.HandlersIgnoreSettings node w v) :
    w.Quiet (worldAfter (evaluate node w)) ∧
        evaluate node (w.withStrict v) = mapWorld (·.withStrict v) (evaluate node w) ∨
      w.Warns (worldAfter (evaluate node w)) ∧
        ∃ u, (State.start node (w.withStrict v)).Reaches u ∧ u.RefusesUnhandled := by
  obtain ⟨-, htogether⟩ := State.together_of_reaches hlenient hv hignores
    (start_reaches_ended node w)
  rw [State.ended_world, State.ended_withStrict] at htogether
  exact htogether.imp_left fun ⟨hquiet, hreaches⟩ => ⟨hquiet, evaluate_of_reaches hreaches⟩

/-- What is logged at the end of a run is no warning. -/
theorem run_quiet (node : Descriptor) (w : World) :
    (worldAfter (evaluate node w)).Quiet (run node w).2 := by
  rcases conclude_world (evaluate node w) with heq | ⟨message, heq⟩
  · rw [run, heq]
    exact .refl _
  · rw [run, heq]
    exact .note _ (Event.not_isUnhandled_of_level fun h => by cases h)

theorem conclude_mapWorld (v : Value) (r : EStateM.Result Stop World (Option String)) :
    conclude (mapWorld (·.withStrict v) r) = ((conclude r).1, (conclude r).2.withStrict v) := by
  cases r with
  | ok key? w' => rfl
  | error cause w' => cases cause <;> rfl

/-- Where the handlers do not observe the settings, a run that warns of no effect that nobody
handles goes on the same way, with the same outcome and to the same world, where settings are
strict; and if a strict run raises no fault for such an effect, caught or not, the lenient one
writes no such warning and is the same. -/
theorem strict_refines_lenient (hlenient : w.settings.strict.truthy = false) (hv : v.truthy = true)
    {node : Descriptor} (hignores : State.HandlersIgnoreSettings node w v) :
    (w.Quiet (run node w).2 → run node (w.withStrict v) =
      ((run node w).1, (run node w).2.withStrict v)) ∧
      ((∀ s, (State.start node (w.withStrict v)).Reaches s → ¬ s.RefusesUnhandled) →
        w.Quiet (run node w).2 ∧
          run node (w.withStrict v) = ((run node w).1, (run node w).2.withStrict v)) := by
  have hend := run_quiet node w
  rcases evaluate_strict hlenient hv hignores with ⟨hquiet, heq⟩ | ⟨hwarns, u, hreaches, hrefuses⟩
  · have hrun : run node (w.withStrict v) = ((run node w).1, (run node w).2.withStrict v) := by
      rw [run, heq, conclude_mapWorld]
      rfl
    exact ⟨fun _ => hrun, fun _ => ⟨hquiet.trans hend, hrun⟩⟩
  · exact ⟨fun hquiet => absurd (hwarns.mono (.inl hend)) hquiet.not_warns,
      fun h => absurd hrefuses (h u hreaches)⟩

/-- A program that defines an effect and performs it. -/
def doubling : Descriptor :=
  .effect (.ofStr "Do") [.tuple
    [.effect (.ofStr "DefineEffect")
      [.literal (.ofStr "double"), .literal (.ofStr "(args) => args[0] * 2")],
      .effect (.ofStr "double") [.literal (.ofInt 21)]]]

/-- Without any records of the rank of warnings there is none that an effect is not handled. -/
theorem World.Quiet.of_no_records {w : World} (h : w.transcript.records Level.warning.rank = []) :
    World.Quiet {} w := by
  refine ⟨w.transcript.events, rfl, ?_⟩
  rintro e he ⟨tag, text, rfl⟩
  have hrecord := List.filterMap_eq_nil_iff.mp h _ he
  cases hrecord

theorem doubling_same_when_strict :
    State.HandlersIgnoreSettings doubling {} (.bool true) ∧ World.Quiet {} (run doubling {}).2 ∧
      run doubling (World.withStrict {} (.bool true)) =
        ((run doubling {}).1, (run doubling {}).2.withStrict (.bool true)) := by
  have hcalls : (State.start doubling {}).allAhead State.callsWithArgumentsOnly 20 = true := by
    decide +kernel
  have hignores : State.HandlersIgnoreSettings doubling {} (.bool true) :=
    fun s handler hs _ hcall =>
    (hcall.ignoresContext (State.of_allAhead hcalls hs)).settings
  have hquiet : World.Quiet {} (run doubling {}).2 := .of_no_records (by decide +kernel)
  exact ⟨hignores, hquiet, (strict_refines_lenient rfl rfl hignores).1 hquiet⟩

end EffectTree.Evaluation
