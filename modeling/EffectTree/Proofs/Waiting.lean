import EffectTree.Proofs.Exits
import EffectTree.Proofs.SteadyEffects

/-!
# Waiting for ever

An evaluation that never ends waits: it reads a line where none is there and none can be missed, or
it has called a handler of the host that waits. Every other step has a next one or is the last, and
nothing recovers from a wait.
-/
namespace EffectTree

/-- A handler that answers whenever it is called. -/
def Handler.Answers (handler : Handler) : Prop :=
  ∀ args c, (handler.call args c).answer ≠ .error .waiting

theorem Handler.answers_compiled (body : Expression.Compiled) : (compiled body).Answers := by
  intro args c
  simp only [call, Reply.ofExcept]
  cases body.call [.ofList args, .context c.text] <;> exact fun h => by cases h

/-- A read is never answered if the stream is open and silent and the time is not limited. -/
theorem LineReader.read_eq_none_iff (r : LineReader) (timeout : Value) : (r.read timeout).1 = none ↔
    r.closed = false ∧ r.ended = false ∧ splitLine? r.waiting = none ∧ timeout = .null := by
  unfold read nextLine?
  cases r.closed with
  | true => simp
  | false =>
    cases splitLine? r.waiting with
    | some parts =>
      simp only [Bool.false_eq_true, if_false, reduceCtorEq, false_and, and_false, iff_false]
      split <;> nofun
    | none =>
      cases r.ended with
      | true =>
        simp only [Bool.false_eq_true, if_false, if_true, reduceCtorEq, false_and, and_false,
          iff_false]
        split <;> nofun
      | false => cases timeout <;> simp

theorem LineReader.read_stream (r : LineReader) (timeout : Value) :
    (r.read timeout).2.closed = r.closed ∧ (r.read timeout).2.ended = r.ended := by
  unfold read
  split
  · exact ⟨rfl, rfl⟩
  · split
    · split <;> exact ⟨rfl, rfl⟩
    · split <;> exact ⟨rfl, rfl⟩

namespace Evaluation

/-- A state from which an evaluation does not go on. -/
inductive State.Waits (s : State) : Prop
  | line {node : Descriptor} {tag : Value} {args : List Descriptor}
      (hfocus : s.focus = .perform node tag args)
      (hdeep : s.tooDeep = false) (htag : Opcode.ofTag? tag = some (.leaf .readLine))
      (hread : (s.world.input.read s.world.settings.timeout).1 = none)
  | handler {node : Descriptor} {tag : Value} {args : List Descriptor} {handler : Handler}
      {arguments : List Value}
      (hfocus : s.focus = .perform node tag args) (hdeep : s.tooDeep = false)
      (htag : Opcode.ofTag? tag = none)
      (hhas : s.world.registry.has tag = .ok true) (hget : s.world.registry.get? tag = some handler)
      (harguments : args.mapM customArgument s.world = .ok arguments s.world)
      (hreply : (handler.call arguments s.world.context).answer = .error .waiting)

/-- A machine that does not wait. -/
def Answering {α : Type} (m : Machine α) : Prop := ∀ w w', m w ≠ .error .waiting w'

namespace Answering

variable {α β : Type}

theorem bind {m : Machine α} {f : α → Machine β} (hm : Answering m) (hf : ∀ a, Answering (f a)) :
    Answering (m >>= f) := by
  intro w w' h
  cases hw : m w with
  | ok a w₁ =>
    rw [bind_of_ok hw] at h
    exact hf a w₁ w' h
  | error cause w₁ =>
    rw [bind_of_error hw] at h
    cases h
    exact hm w _ hw

theorem closed : ClosedUnderActions Eq true @Answering where
  looksLike := .of_eq
  done _ _ _ := nofun
  stop hcause _ _ h := hcause (by cases h; rfl)
  bind := bind
  read _ hf w := hf w w
  note _ _ _ := nofun
  store _ _ _ := nofun
  addCell _ _ _ _ := nofun
  setCells _ _ _ _ := nofun
  setFiles _ _ _ := nofun
  takeLine _ _ := nofun
  enlist _ _ _ _ := nofun
  descend _ _ := nofun
  ascend _ _ := nofun

end Answering

/-- A move that neither waits nor passes a wait on. -/
def Onward (m : Machine Move) : Prop := ∀ w, (State.after [] (m w)).focus ≠ .stop .waiting

namespace Onward

variable {α : Type}

theorem done {focus : Focus} (h : focus ≠ .stop .waiting) (frames : List Frame) :
    Onward (pure (focus, frames)) :=
  fun _ => h

theorem bind {m : Machine α} {f : α → Machine Move} (hm : Answering m) (hf : ∀ a, Onward (f a)) :
    Onward (m >>= f) := by
  intro w
  cases hw : m w with
  | ok a w₁ =>
    rw [bind_of_ok hw]
    exact hf a w₁
  | error cause w₁ =>
    rw [bind_of_error hw]
    intro h
    cases h
    exact hm w w₁ hw

theorem finishing {m : Machine (Option String)} (hm : Answering m) : Onward (finishing m) :=
  bind hm fun _ => done (by nofun) _

open Answering

theorem handOver (continuation input : Descriptor) : Onward (handOver continuation input) := by
  refine bind (closed.resolve _) fun resolved => bind (closed.store resolved) fun _ => ?_
  refine bind (closed.resolve _) fun next? => ?_
  cases next? with
  | some next => exact done (by nofun) _
  | none =>
    exact bind (closed.render resolved) fun _ => bind (closed.log _ _) fun _ => done (by nofun) _

theorem proceed {frame : List Descriptor → List String → Frame}
    {combine : List String → Machine (Option String)} (hcombine : ∀ keys, Answering (combine keys))
    (nodes : List Descriptor) (keys : List String) :
    Onward (proceed frame combine nodes keys) := by
  cases nodes with
  | nil => exact finishing (hcombine keys)
  | cons d rest => exact done (by nofun) _

theorem begin (args : List Descriptor) (effect : Control) : Onward (begin args effect) := by
  have hfirst {focus : Focus} (h : focus ≠ .stop .waiting) :
      (args[0]?).elim focus .evaluate ≠ .stop .waiting := by
    cases args[0]? with
    | none => exact h
    | some d => nofun
  cases effect with
  | bind => exact done (hfirst (by nofun)) _
  | recover => exact done (hfirst (by nofun)) _
  | gather => exact bind (closed.has_members _) fun _ => proceed closed.has_gathered _ _
  | block => exact bind (closed.has_members _) fun _ => proceed closed.has_lastOf _ _

theorem rescued (continuation? : Option Descriptor) (e : Fault) :
    Onward (rescued continuation? e) := by
  refine bind (closed.log _ _) fun _ => ?_
  cases continuation? with
  | none => exact done (by nofun) _
  | some continuation => exact handOver _ _

theorem ascend {focus : Focus} (h : focus ≠ .stop .waiting) : Onward (ascend focus) :=
  bind closed.ascend fun _ => done h _

theorem resume (key? : Option String) (frame : Frame) : Onward (resume key? frame) := by
  cases frame with
  | leave => exact ascend (by nofun)
  | feed continuation? =>
    cases continuation? with
    | none => exact done (by nofun) _
    | some continuation => exact bind (closed.has_inputFor key?) fun _ => handOver _ _
  | rescue => exact done (by nofun) _
  | gather => exact proceed closed.has_gathered _ _
  | block => exact proceed closed.has_lastOf _ _

theorem unwind {cause : Stop} (hcause : cause ≠ .waiting) (frame : Frame) :
    Onward (unwind cause frame) := by
  have hpassed : Focus.stop cause ≠ .stop .waiting := fun h => hcause (by cases h; rfl)
  cases frame with
  | leave => exact ascend hpassed
  | rescue continuation? =>
    cases cause with
    | fault e => exact rescued continuation? e
    | exit | waiting => exact done hpassed _
  | feed | gather | block => exact done hpassed _

theorem arrive (node : Descriptor) : Onward (arrive node) := by
  intro w
  cases hdepth : w.settings.exceeded w.depth with
  | true =>
    rw [arrive_of_exceeded hdepth]
    nofun
  | false =>
    cases heffect : w.resolver.effectOf node with
    | error e =>
      rw [arrive_of_error hdepth heffect]
      nofun
    | ok effect =>
      rw [arrive_of_ok hdepth heffect]
      nofun

end Onward

/-- What comes of reading a line where none can be missed, and what does not. -/
theorem readLine_waits_iff (w : World) :
    (∃ w', readLine w = .error .waiting w') ↔ (w.input.read w.settings.timeout).1 = none := by
  have htaken : readLine w = lineTaken (w.input.read w.settings.timeout).1
      { w with input := (w.input.read w.settings.timeout).2 } := by rw [readLine_eq]; rfl
  rw [htaken]
  cases (w.input.read w.settings.timeout).1 with
  | none => exact ⟨fun _ => rfl, fun _ => ⟨_, rfl⟩⟩
  | some answer =>
    have hanswering : Answering (lineTaken (some answer)) :=
      Answering.closed.bind (Answering.closed.lift answer) fun _ => Answering.closed.has_yielding _
    exact ⟨fun ⟨w', h⟩ => absurd h (hanswering _ w'), nofun⟩

/-- A custom effect waits only if its handler does. -/
theorem called_waits_iff (reply : Reply) (w : World) :
    (∃ w', called reply w = .error .waiting w') ↔ reply.answer = .error .waiting := by
  constructor
  · rintro ⟨w', h⟩
    by_contra hanswer
    exact Answering.closed.has_called (fun _ _ _ => rfl) (fun h => absurd h hanswer) w w' h
  · intro hanswer
    obtain ⟨w₁, hfollow⟩ := follow_eq_accept reply w
    rw [hanswer] at hfollow
    exact ⟨w₁, bind_of_error hfollow⟩

namespace State

variable {s t : State}

/-- Performing an effect comes to a wait only in the two ways. -/
theorem waits_of_act {node : Descriptor} {tag : Value} {args : List Descriptor}
    {frames : List Frame} {w : World}
    (hdeep : (State.mk (.perform node tag args) frames w).tooDeep = false)
    (h : (after frames (act node tag args w)).focus = .stop .waiting) :
    (State.mk (.perform node tag args) frames w).Waits := by
  have hcases := act_cases node tag args w
  generalize act node tag args w = r at h hcases
  cases hcases with
  | unhashable | unfindable => cases h
  | @control effect =>
    rw [after_focus] at h
    exact absurd h (Onward.begin args effect w)
  | @leaf effect htag =>
    obtain ⟨w', hw⟩ := stop_of_finishing h
    by_cases heffect : effect = .readLine
    · subst heffect
      exact .line rfl hdeep htag ((readLine_waits_iff w).mp ⟨w', hw⟩)
    · exact absurd hw
        (Answering.closed.has_runLeaf (fun _ => rfl) (fun heq => absurd heq heffect) args w w')
  | unhandled =>
    obtain ⟨w', hw⟩ := stop_of_finishing h
    have hunhandled : Answering (unhandled node tag) :=
      Answering.closed.has_unhandled (fun heq => by rw [heq]) (fun _ _ _ => nofun) node tag
    exact absurd hw (hunhandled w w')
  | custom htag hhas =>
    obtain ⟨w', hw⟩ := stop_of_finishing h
    rcases runCustom_cases tag args w with
      ⟨cause, hcause, hstops⟩ | ⟨handler, arguments, hget, harguments, hcalled⟩
    · cases hstops.symm.trans hw
      exact absurd rfl hcause
    · exact .handler rfl hdeep htag hhas hget harguments
        ((called_waits_iff _ w).mp ⟨w', hcalled ▸ hw⟩)

/-- A step comes to a wait from another one or where the evaluation does not go on. -/
theorem waits_of_step (h : s.step = some t) (ht : t.focus = .stop .waiting) :
    s.focus = .stop .waiting ∨ s.Waits := by
  cases hdeep : s.tooDeep with
  | true =>
    cases (step_of_tooDeep hdeep).symm.trans h
    cases ht
  | false =>
    cases moves_of_next ((step_of_not_tooDeep hdeep).symm.trans h) with
    | arrive node frames w =>
      rw [after_focus] at ht
      exact absurd ht (Onward.arrive node w)
    | act => exact .inr (waits_of_act hdeep ht)
    | resume key? frame frames w =>
      rw [after_focus] at ht
      exact absurd ht (Onward.resume key? frame w)
    | unwind cause frame frames w =>
      rw [after_focus] at ht
      by_cases hcause : cause = .waiting
      · exact .inl (congrArg _ hcause)
      · exact absurd ht (Onward.unwind hcause frame w)

/-- From where an evaluation does not go on there is nothing but the wait. -/
theorem Waits.step (hs : s.Waits) : ∃ t, s.step = some t ∧ t.focus = .stop .waiting := by
  have hwaiting {node : Descriptor} {tag : Value} {args : List Descriptor}
      {m : Machine (Option String)} {w' : World}
      (hfocus : s.focus = .perform node tag args) (hdeep : s.tooDeep = false)
      (hact : act node tag args s.world = finishing m s.world)
      (hm : m s.world = .error .waiting w') :
      ∃ t, s.step = some t ∧ t.focus = .stop .waiting := by
    obtain ⟨focus, frames, w⟩ := s
    cases hfocus
    have hends : finishing m w = .error .waiting w' := bind_of_error hm
    refine ⟨⟨.stop .waiting, frames, w'⟩, ?_, rfl⟩
    rw [State.step, hdeep, if_neg Bool.false_ne_true, next, hact, hends]
    rfl
  cases hs with
  | line hfocus hdeep htag hread =>
    obtain ⟨w', hw⟩ := (readLine_waits_iff s.world).mpr hread
    exact hwaiting hfocus hdeep (by rw [act_of_leaf (requireHashable_of_ofTag? htag) htag]; rfl) hw
  | @handler node tag args handler arguments hfocus hdeep htag hhas hget harguments hreply =>
    obtain ⟨w', hw⟩ := (called_waits_iff (handler.call arguments s.world.context)
      s.world).mpr hreply
    have hhash := requireHashable_of_has hhas
    have hcustom : runCustom tag args s.world = .error .waiting w' :=
      (runCustom_of_handler hhash hget harguments).trans hw
    exact hwaiting hfocus hdeep (by rw [act_of_none hhash htag, hhas]) hcustom

theorem waits_of_reaches (h : s.Reaches t) (ht : t.focus = .stop .waiting) :
    s.focus = .stop .waiting ∨ ∃ u, s.Reaches u ∧ u.Waits := by
  induction h with
  | refl => exact .inl ht
  | tail hreaches hstep ih =>
    rcases waits_of_step hstep ht with hfocus | hwaits
    · exact ih hfocus
    · exact .inr ⟨_, hreaches, hwaits⟩

end State

/-- An evaluation goes on for ever exactly if it comes to a state from which it does not go on. -/
theorem evaluate_waits_iff (node : Descriptor) (w : World) :
    (∃ w', evaluate node w = .error .waiting w') ↔ ∃ s, (State.start node w).Reaches s ∧
    s.Waits := by
  constructor
  · rintro ⟨w', h⟩
    have hends := start_reaches_ended node w
    rw [h] at hends
    exact (State.waits_of_reaches hends rfl).resolve_left nofun
  · rintro ⟨s, hs, hwaits⟩
    obtain ⟨t, hstep, hfocus⟩ := hwaits.step
    have hleaving : t.Leaving .waiting t.world := ⟨hfocus, rfl⟩
    exact ⟨_, hleaving.outcome trivial (State.reaches_ended (hs.tail hstep))⟩

/-- What reads of the input rest on is the same in both worlds. -/
structure World.ListensLike (w w' : World) : Prop where
  settings : w'.settings = w.settings
  closed : w'.input.closed = w.input.closed
  ended : w'.input.ended = w.input.ended

namespace World.ListensLike

theorem refl (w : World) : w.ListensLike w := ⟨rfl, rfl, rfl⟩

theorem trans {w₁ w₂ w₃ : World} (h₁ : w₁.ListensLike w₂) (h₂ : w₂.ListensLike w₃) :
    w₁.ListensLike w₃ :=
  ⟨h₂.settings.trans h₁.settings, h₂.closed.trans h₁.closed, h₂.ended.trans h₁.ended⟩

/-- Every effect leaves that as it is. -/
theorem closed_effects :
    ClosedUnderEffects Eq true fun _ m => ∀ w : World, w.ListensLike (worldAfter (m w)) where
  looksLike := .of_eq
  done _ := refl
  stop _ := refl
  wait := refl
  bind := worldAfter_bind (R := World.ListensLike) trans
  read _ hf w := hf w w
  note _ _ := ⟨rfl, rfl, rfl⟩
  store _ _ := ⟨rfl, rfl, rfl⟩
  addCell _ _ _ := ⟨rfl, rfl, rfl⟩
  setCells _ _ _ := ⟨rfl, rfl, rfl⟩
  setFiles _ _ := ⟨rfl, rfl, rfl⟩
  takeLine w := by
    obtain ⟨hclosed, hended⟩ := w.input.read_stream w.settings.timeout
    exact ⟨rfl, hclosed, hended⟩
  enlist name source w := by
    change w.ListensLike (w.changeRegistry (w.registry.define name source))
    cases w.registry.define name source <;> exact ⟨rfl, rfl, rfl⟩
  descend _ := ⟨rfl, rfl, rfl⟩
  ascend _ := ⟨rfl, rfl, rfl⟩

theorem step {s t : State} (h : s.step = some t) : s.world.ListensLike t.world :=
  closed_effects.step_world (fun _ _ => ⟨rfl, rfl, rfl⟩) h

theorem reaches {s t : State} (h : s.Reaches t) : s.world.ListensLike t.world := by
  induction h with
  | refl => exact refl _
  | tail _ hstep ih => exact ih.trans (step hstep)

end World.ListensLike

/-- Whether every read of the input is answered. -/
def World.Hears (w : World) : Prop :=
  w.input.closed = true ∨ w.input.ended = true ∨ w.settings.timeout ≠ .null

/-- Where the input and the handlers that are called answer, nothing waits for ever. -/
theorem evaluate_ne_waiting {node : Descriptor} {w : World} (hinput : w.Hears)
    (hhandlers : ∀ s handler, (State.start node w).Reaches s → s.Calls handler → handler.Answers)
    (w' : World) :
    evaluate node w ≠ .error .waiting w' := by
  intro h
  obtain ⟨s, hs, hwaits⟩ := (evaluate_waits_iff node w).mp ⟨w', h⟩
  cases hwaits with
  | line hfocus hdeep htag hread =>
    obtain ⟨hclosed, hended, -, htimeout⟩ := (LineReader.read_eq_none_iff _ _).mp hread
    have hlike := World.ListensLike.reaches hs
    rw [hlike.closed] at hclosed
    rw [hlike.ended] at hended
    rw [hlike.settings] at htimeout
    rcases hinput with hinput | hinput | hinput
    · exact Bool.false_ne_true (hclosed.symm.trans hinput)
    · exact Bool.false_ne_true (hended.symm.trans hinput)
    · exact hinput htimeout
  | handler hfocus hdeep htag hhas hget harguments hreply =>
    exact hhandlers s _ hs ⟨_, _, _, hfocus, htag, hhas, hget⟩ _ _ hreply

end Evaluation

end EffectTree
