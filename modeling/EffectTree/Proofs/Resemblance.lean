import EffectTree.Proofs.StrictSettings

/-!
# Worlds that resemble each other

Two worlds may differ in the handlers that they have, in how deeply effects may nest and in what has
been written, and still look the same to every effect. A resemblance says which of these differences
are meant. Machines keep it, with the same outcome, so a step from a state is matched by a step from
a state that resembles it, unless one of the two is refused for its depth.
-/
namespace EffectTree

namespace Registry

/-- What is logged where a handler takes the place of another. -/
def replacing (registry : Registry) (name : Value) : List LogRecord :=
  if (registry.get? name).isSome then
    [⟨.info, .registry, "Redefining custom effect " ++ name.display⟩] else []

/-- A definition is refused whatever the registry is, or a handler is put into it. -/
theorem define_cases (name source : Value) :
    (∃ e, ∀ registry : Registry, registry.define name source = .error e) ∨
      ∃ handler record, ∀ registry : Registry,
        registry.define name source =
          .ok (registry.put name handler, registry.replacing name ++ [record]) := by
  cases name with
  | str s mark =>
    cases hempty : s.isEmpty with
    | true => exact .inl ⟨_, fun registry => by simp [define, hempty]; rfl⟩
    | false =>
      cases hbody : Expression.compileValue source with
      | error e =>
        exact .inl ⟨e, fun registry => by simp [define, hempty, hbody, bind, Except.bind]⟩
      | ok body =>
        refine .inr ⟨.compiled body,
          ⟨.debug, .registry, "Defined custom effect " ++ s ++ ": " ++ source.display⟩,
          fun registry => ?_⟩
        have hknown : registry.contains (.str s mark) =
          .ok (registry.get? (.str s mark)).isSome := rfl
        simp [define, register, replacing, hempty, hbody, hknown, bind, Except.bind, pure,
          Except.pure]
  | _ => exact .inl ⟨_, fun registry => rfl⟩

end Registry

namespace Evaluation

/-- Worlds with the same stores, settings but for the depth, input and surroundings. -/
structure World.Alike (w w' : World) : Prop where
  resolver : w'.resolver = w.resolver
  results : w'.results = w.results
  cells : w'.cells = w.cells
  issued : w'.issued = w.issued
  strict : w'.settings.strict = w.settings.strict
  timeout : w'.settings.timeout = w.settings.timeout
  argv : w'.argv = w.argv
  environ : w'.environ = w.environ
  input : w'.input = w.input
  files : w'.files = w.files
  depth : w'.depth = w.depth
  fixtures : w'.fixtures = w.fixtures

/-- How two worlds that look the same to effects may differ. -/
structure Resemblance where
  handlers : Registry → Registry → Prop
  limits : Value → Value → Prop
  written : Transcript → Transcript → Prop
  /-- Effects that are not built in have the same handlers. -/
  get?_eq : ∀ {r r' : Registry} {tag : Value}, handlers r r' → Opcode.ofTag? tag = none →
    r'.get? tag = r.get? tag
  put : ∀ {r r' : Registry} (name : Value) (handler : Handler),
    handlers r r' → handlers (r.put name handler) (r'.put name handler)
  add : ∀ {t t' : Transcript} (e : Event), written t t' → written (t.add e) (t'.add e)
  replacing : ∀ {r r' : Registry} {t t' : Transcript} (name : Value), handlers r r' → written t t' →
    written (t.addRecords (r.replacing name)) (t'.addRecords (r'.replacing name))

namespace Resemblance

/-- Worlds that look the same and differ only as a resemblance allows. -/
structure Relates (ρ : Resemblance) (w w' : World) : Prop extends w.Alike w' where
  handlers : ρ.handlers w.registry w'.registry
  limits : ρ.limits w.settings.maxDepth w'.settings.maxDepth
  written : ρ.written w.transcript w'.transcript

/-- The same outcome, in worlds that resemble each other. -/
inductive Matches (ρ : Resemblance) {α : Type} :
    EStateM.Result Stop World α → EStateM.Result Stop World α → Prop
  | ok (a : α) {w w' : World} (h : ρ.Relates w w') : Matches ρ (.ok a w) (.ok a w')
  | error (cause : Stop) {w w' : World} (h : ρ.Relates w w') :
      Matches ρ (.error cause w) (.error cause w')

/-- A machine ends the same way in worlds that resemble each other. -/
def Respects (ρ : Resemblance) {α : Type} (m : Machine α) : Prop :=
  ∀ ⦃w w' : World⦄, ρ.Relates w w' → ρ.Matches (m w) (m w')

variable {ρ : Resemblance}

namespace Relates

variable {w w' : World} (h : ρ.Relates w w')
include h

theorem note (e : Event) : ρ.Relates (w.note e) (w'.note e) :=
  { h with written := ρ.add e h.written }

theorem nextUnused : w'.nextUnused = w.nextUnused := by
  simp only [World.nextUnused, h.results, h.issued]

theorem addResult (d : Descriptor) :
    (w'.addResult d).1 = (w.addResult d).1 ∧ ρ.Relates (w.addResult d).2 (w'.addResult d).2 := by
  have hkey : (w'.addResult d).1 = (w.addResult d).1 := by simp only [World.addResult, h.nextUnused]
  refine ⟨hkey, { h with resolver := ?_, results := ?_, issued := ?_ }⟩
  · simp only [World.addResult, h.nextUnused, h.resolver]
  · simp only [World.addResult, h.nextUnused, h.results]
  · simp only [World.addResult, h.nextUnused]

theorem addCell (d : Descriptor) :
    (w'.addCell d).1 = (w.addCell d).1 ∧ ρ.Relates (w.addCell d).2 (w'.addCell d).2 := by
  have hkey : (w'.addCell d).1 = (w.addCell d).1 := by simp only [World.addCell, h.issued]
  refine ⟨hkey, { h with cells := ?_, issued := ?_ }⟩
  · simp only [World.addCell, h.issued, h.cells]
  · simp only [World.addCell, h.issued]

theorem settings (hlimits : w'.settings.maxDepth = w.settings.maxDepth) :
    w'.settings = w.settings := by
  change Settings.mk w'.settings.strict w'.settings.maxDepth w'.settings.timeout = w.settings
  rw [h.strict, hlimits, h.timeout]

/-- Handlers can tell such worlds apart by the names of the effects and by the settings only. -/
theorem context :
    w'.context = { w.context with effects := w'.registry.names, settings := w'.settings } := by
  simp only [World.context, h.resolver, h.results, h.cells, h.issued, h.argv, h.environ, h.input,
    h.files, h.depth,
    h.fixtures]

end Relates

namespace Respects

variable {α β : Type}

theorem done (a : α) : ρ.Respects (pure a : Machine α) := fun _ _ h => .ok a h

theorem stop (cause : Stop) : ρ.Respects (throw cause : Machine α) := fun _ _ h => .error cause h

theorem bind {m : Machine α} {f : α → Machine β} (hm : ρ.Respects m) (hf : ∀ a, ρ.Respects (f a)) :
    ρ.Respects (m >>= f) := by
  intro w w' h
  have hmatches := hm h
  generalize hr : m w = r at hmatches
  generalize hr' : m w' = r' at hmatches
  cases hmatches with
  | ok a h₁ =>
    rw [bind_of_ok hr, bind_of_ok hr']
    exact hf a h₁
  | error cause h₁ =>
    rw [bind_of_error hr, bind_of_error hr']
    exact .error cause h₁

theorem read {f : World → Machine α} (heq : ∀ {w w' : World}, ρ.Relates w w' → f w' = f w)
    (hf : ∀ w, ρ.Respects (f w)) : ρ.Respects (get >>= f) := by
  intro w w' h
  rw [get_bind, get_bind, heq h]
  exact hf w h

theorem modify {f : World → World}
    (hf : ∀ {w w' : World}, ρ.Relates w w' → ρ.Relates (f w) (f w')) :
    ρ.Respects (modify f) := fun _ _ h => .ok _ (hf h)

theorem modifyGet {f : World → α × World}
    (hf : ∀ {w w' : World}, ρ.Relates w w' → (f w').1 = (f w).1 ∧ ρ.Relates (f w).2 (f w').2) :
    ρ.Respects (modifyGet f : Machine α) := by
  intro w w' h
  obtain ⟨heq, hrelates⟩ := hf h
  change ρ.Matches (.ok (f w).1 (f w).2) (.ok (f w').1 (f w').2)
  rw [heq]
  exact .ok _ hrelates

theorem note (e : Event) : ρ.Respects (Machine.note e) := modify fun h => h.note e

theorem enlist (name source : Value) : ρ.Respects (enlist name source) := by
  intro w w' h
  rcases Registry.define_cases name source with ⟨e, hrefused⟩ | ⟨handler, record, hdefined⟩
  · have hends (w : World) : Evaluation.enlist name source w = .ok (.error e) w := by
      change EStateM.Result.ok _ (w.changeRegistry (w.registry.define name source)) = _
      rw [hrefused]
      rfl
    rw [hends, hends]
    exact .ok _ h
  · have hends (w : World) : Evaluation.enlist name source w = .ok (.ok ())
        { w with
          registry := w.registry.put name handler
          transcript := (w.transcript.addRecords (w.registry.replacing name)).add
            (.log record) } := by
      change EStateM.Result.ok _ (w.changeRegistry (w.registry.define name source)) = _
      rw [hdefined]
      simp only [World.changeRegistry, Transcript.addRecords, List.foldl_append]
      rfl
    rw [hends, hends]
    exact .ok _ { h with
      handlers := ρ.put name handler h.handlers
      written := ρ.add _ (ρ.replacing name h.handlers h.written) }

theorem closed : ClosedUnderEffects ρ.Relates true (@Respects ρ) where
  looksLike h := ⟨h.resolver, h.results, h.cells, h.argv, h.environ, h.files, ρ.get?_eq h.handlers⟩
  done := done
  stop _ := stop _
  wait {α} := (stop .waiting : ρ.Respects (throw .waiting : Machine α))
  bind := bind
  read := read
  note _ := note _
  store d := modifyGet fun h => h.addResult d
  addCell _ d := modifyGet fun h => h.addCell d
  setCells _ cells := modify fun h => { h with cells := rfl }
  setFiles files := modify fun h => { h with files := rfl }
  takeLine := modifyGet fun h => by
    rw [h.input, h.timeout]
    exact ⟨rfl, { h with input := rfl }⟩
  enlist := enlist
  descend := modify fun h => { h with depth := congrArg (· + 1) h.depth }
  ascend := modify fun h => { h with depth := congrArg (· - 1) h.depth }

end Respects

open Respects

theorem act_matches {w w' : World} (h : ρ.Relates w w') (node : Descriptor) (tag : Value)
    (args : List Descriptor)
    (hcalls : Opcode.ofTag? tag = none → w.registry.has tag = .ok true →
      ∀ handler, w.registry.get? tag = some handler →
      ∀ arguments, handler.call arguments w'.context = handler.call arguments w.context) :
    ρ.Matches (act node tag args w) (act node tag args w') := by
  obtain ⟨m, hself, hother, hm⟩ :=
    (closed (ρ := ρ)).acts (closed.looksLike h) node tag args (fun _ _ _ => rfl)
    fun htag hhas handler hget arguments =>
      ⟨hcalls htag hhas handler hget arguments, fun _ _ _ => rfl⟩
  have hunhandled : ρ.Respects (unhandled node tag) :=
    closed.has_unhandled (fun h => h.strict) note node tag
  rw [hself, hother]
  rcases hm with hm | rfl
  · exact hm h
  · exact closed.has_finishing hunhandled h

/-- The limit is the only thing that a node can tell such worlds apart by. -/
theorem arrive_matches {w w' : World} (h : ρ.Relates w w')
    (hlimit : w'.settings.maxDepth = w.settings.maxDepth ∨
      w.settings.exceeded w.depth = false ∧ w'.settings.exceeded w'.depth = false)
    (node : Descriptor) :
    ρ.Matches (arrive node w) (arrive node w') := by
  have hsame : w'.settings.exceeded w'.depth = w.settings.exceeded w.depth := by
    rcases hlimit with hlimit | ⟨hbelow, hbelow'⟩
    · simp only [Settings.exceeded, hlimit, h.depth]
    · rw [hbelow, hbelow']
  cases hexceeded : w.settings.exceeded w.depth with
  | true =>
    rw [hexceeded] at hsame
    have heq : w'.settings.maxDepth = w.settings.maxDepth := by
      rcases hlimit with hlimit | ⟨hbelow, -⟩
      · exact hlimit
      · rw [hbelow] at hexceeded
        cases hexceeded
    rw [arrive_of_exceeded hexceeded, arrive_of_exceeded hsame, heq]
    exact .error _ h
  | false =>
    rw [hexceeded] at hsame
    cases heffect : w.resolver.effectOf node with
    | error e =>
      rw [arrive_of_error hexceeded heffect, arrive_of_error hsame (by rw [h.resolver, heffect])]
      exact .error _ h
    | ok effect =>
      obtain ⟨tag, args⟩ := effect
      rw [arrive_of_ok hexceeded heffect, arrive_of_ok hsame (by rw [h.resolver, heffect])]
      exact .ok _ { h.note _ with depth := congrArg (· + 1) h.depth }

structure Pairs (ρ : Resemblance) (s s' : State) : Prop where
  focus : s'.focus = s.focus
  frames : s'.frames = s.frames
  world : ρ.Relates s.world s'.world

theorem Matches.after {r r' : EStateM.Result Stop World Move} (h : ρ.Matches r r')
    (frames : List Frame) :
    ρ.Pairs (State.after frames r) (State.after frames r') := by
  cases h with
  | ok move h => exact ⟨rfl, rfl, h⟩
  | error cause h => exact ⟨rfl, rfl, h⟩

end Resemblance

/-- Whether what a state is about to do is refused because it is too deep. -/
def State.refuses (s : State) : Bool :=
  match s.focus with
  | .evaluate _ => s.world.settings.exceeded s.world.depth
  | _ => s.tooDeep

namespace Resemblance

variable {ρ : Resemblance} {s s' : State}

/-- The limits make no difference between two states. -/
def EquallyDeep (s s' : State) : Prop :=
  s'.world.settings.maxDepth = s.world.settings.maxDepth ∨ s.refuses = false ∧ s'.refuses = false

/-- Neither the limits nor the handler that is called, if any, make a difference between two
states. -/
structure StepAlike (s s' : State) : Prop where
  depth : EquallyDeep s s'
  calls : ∀ handler, s.Calls handler → ∀ arguments,
    handler.call arguments s'.world.context = handler.call arguments s.world.context

theorem Pairs.tooDeep (h : ρ.Pairs s s') (hlimit : EquallyDeep s s') : s'.tooDeep = s.tooDeep := by
  obtain ⟨focus, frames, w⟩ := s
  obtain ⟨focus', frames', w'⟩ := s'
  obtain ⟨hfocus, -, hworld⟩ := h
  cases hfocus
  cases focus with
  | evaluate | finish | stop => rfl
  | perform node tag args =>
    rcases hlimit with hlimit | ⟨hbelow, hbelow'⟩
    · have hdepth := hworld.depth
      have hlevels : w'.settings.levels = w.settings.levels := by
        simp only at hlimit
        simp only [Settings.levels, hlimit]
      simp only at hdepth
      simp only [State.tooDeep, hlevels, hdepth]
    · exact hbelow'.trans hbelow.symm

theorem Pairs.step (h : ρ.Pairs s s') (halike : StepAlike s s') :
    Option.Rel ρ.Pairs s.step s'.step := by
  obtain ⟨hlimit, hcalls⟩ := halike
  have htooDeep := h.tooDeep hlimit
  obtain ⟨focus, frames, w⟩ := s
  obtain ⟨focus', frames', w'⟩ := s'
  obtain ⟨hfocus, hframes, hworld⟩ := h
  cases hfocus
  cases hframes
  rw [State.step, State.step, htooDeep]
  split
  · exact .some ⟨rfl, rfl, hworld⟩
  · cases focus with
    | evaluate node =>
      have hnode : w'.settings.maxDepth = w.settings.maxDepth ∨
          w.settings.exceeded w.depth = false ∧ w'.settings.exceeded w'.depth = false := hlimit
      exact .some ((arrive_matches hworld hnode node).after frames)
    | perform node tag args =>
      have hmatches := act_matches hworld node tag args fun htag hhas handler hget =>
        hcalls handler ⟨node, tag, args, rfl, htag, hhas, hget⟩
      exact .some (hmatches.after frames)
    | finish key? =>
      cases frames with
      | nil => exact .none
      | cons frame frames =>
        exact .some ((Respects.closed.has_resume key? frame hworld).after frames)
    | stop cause =>
      cases frames with
      | nil => exact .none
      | cons frame frames =>
        exact .some ((Respects.closed.has_unwind cause frame hworld).after frames)

theorem Pairs.reaches {t : State} (h : ρ.Pairs s s')
    (halike : ∀ t t', s.Reaches t → ρ.Pairs t t' → StepAlike t t') (ht : s.Reaches t) :
    ∃ t', s'.Reaches t' ∧ ρ.Pairs t t' := by
  induction ht with
  | refl => exact ⟨s', .refl, h⟩
  | tail hreaches hstep ih =>
    obtain ⟨t', hreaches', hpairs⟩ := ih
    have hmatched := hpairs.step (halike _ _ hreaches hpairs)
    rw [hstep] at hmatched
    cases hnext : t'.step with
    | none =>
      rw [hnext] at hmatched
      cases hmatched
    | some u' =>
      rw [hnext] at hmatched
      cases hmatched with
      | some hu => exact ⟨u', hreaches'.tail hnext, hu⟩

theorem Relates.evaluate_matches {w w' : World} (h : ρ.Relates w w') (node : Descriptor)
    (halike : ∀ t t', (State.start node w).Reaches t → ρ.Pairs t t' → StepAlike t t') :
    ρ.Matches (evaluate node w) (evaluate node w') := by
  have hstart : ρ.Pairs (.start node w) (.start node w') := ⟨rfl, rfl, h⟩
  obtain ⟨t', hreaches, hfocus, hframes, hworld⟩ :=
    hstart.reaches halike (start_reaches_ended node w)
  obtain ⟨focus', frames', u'⟩ := t'
  cases hr : evaluate node w with
  | ok key? u =>
    rw [hr] at hfocus hframes hworld
    cases hfocus
    cases hframes
    have hends : evaluate node w' = .ok key? u' := evaluate_of_reaches hreaches
    rw [hends]
    exact .ok key? hworld
  | error cause u =>
    rw [hr] at hfocus hframes hworld
    cases hfocus
    cases hframes
    have hends : evaluate node w' = .error cause u' := evaluate_of_reaches hreaches
    rw [hends]
    exact .error cause hworld

end Resemblance

end Evaluation

end EffectTree
