import EffectTree.Proofs.PlainData
import EffectTree.Proofs.Reaching

/-!
# Steady effects

Only effects that nobody handles look at whether the settings are strict, and only they warn. Only
three effects touch the reference cells, and handlers of the host. Everything else does the same
whatever strictness is set to, by changes that leave the settings and the cells alone and warn of
nothing.
-/
namespace EffectTree

/-- What is logged where a handler is registered is no warning. -/
theorem Registry.register_records {registry registry' : Registry} {name : Value} {handler : Handler}
    {records : List LogRecord}
    (h : registry.register name (some handler) = .ok (registry', records)) :
    ∀ r ∈ records, r.level ≠ .warning := by
  cases hknown : registry.contains name with
  | error e => simp [register, hknown, bind, Except.bind] at h
  | ok known =>
    simp only [register, hknown, bind, Except.bind, pure, Except.pure] at h
    cases h
    cases known <;> simp

theorem Registry.define_records {registry registry' : Registry} {name source : Value}
    {records : List LogRecord} (h : registry.define name source = .ok (registry', records)) :
    ∀ r ∈ records, r.level ≠ .warning := by
  unfold define at h
  split at h
  · split at h
    · cases h
    · obtain ⟨body, -, h⟩ := Except.bind_eq_ok.mp h
      obtain ⟨⟨registered, records⟩, hregister, h⟩ := Except.bind_eq_ok.mp h
      cases h
      simpa [or_imp, forall_and] using Registry.register_records hregister
  · cases h

namespace Handler

/-- A handler that does not observe the context. -/
def IgnoresContext (handler : Handler) : Prop :=
  ∀ (args : List Value) (c c' : Evaluation.Context), handler.call args c = handler.call args c'

/-- A handler that does not observe the settings. -/
def IgnoresSettings (handler : Handler) : Prop :=
  ∀ (args : List Value) (c : Evaluation.Context) (settings : Settings),
    handler.call args { c with settings } = handler.call args c

theorem IgnoresContext.settings {handler : Handler} (h : handler.IgnoresContext) :
    handler.IgnoresSettings :=
  fun args _ _ => h args _ _

/-- Whether a handler is written as an expression without a parameter for the context. -/
def takesArgumentsOnly : Handler → Bool
  | .compiled body => body.params.length ≤ 1
  | .native _ => false

theorem ignoresContext_of_takesArgumentsOnly {handler : Handler}
    (h : handler.takesArgumentsOnly = true) :
    handler.IgnoresContext := by
  intro args c c'
  cases handler with
  | native apply => cases h
  | compiled body =>
    obtain ⟨params, e⟩ := body
    have hscope (shown shown' : Value) : Expression.bindParams params [.ofList args, shown] =
        Expression.bindParams params [.ofList args, shown'] := by
      match params with
      | [] | [_] => rfl
      | _ :: _ :: _ => simp [takesArgumentsOnly] at h
    simp only [call, Expression.Compiled.call, hscope _ (.context c'.text)]

end Handler

namespace Evaluation

open Store

/-- The world under another strictness. -/
def World.withStrict (w : World) (strict : Value) : World :=
  { w with settings := { w.settings with strict } }

def mapWorld {α : Type} (f : World → World) :
    EStateM.Result Stop World α → EStateM.Result Stop World α
  | .ok a w => .ok a (f w)
  | .error cause w => .error cause (f w)

/-- The changes of steady effects, of those that write to the cells and of those that do not. -/
inductive World.Calm (writing : Bool) : World → World → Prop
  | note (w : World) {e : Event} (h : ¬ e.IsUnhandled) : Calm writing w (w.note e)
  | result (w : World) (d : Descriptor) : Calm writing w (w.addResult d).2
  | cell (w : World) (d : Descriptor) (h : writing = true) : Calm writing w (w.addCell d).2
  | cells (w : World) (cells : Store.Cells) (h : writing = true) : Calm writing w { w with cells }
  | registry (w : World) (registry : Registry) : Calm writing w { w with registry }
  | files (w : World) (files : Files) : Calm writing w { w with files }
  | input (w : World) (input : LineReader) : Calm writing w { w with input }
  | depth (w : World) (depth : Nat) : Calm writing w { w with depth }

/-- Something is written from one world to the other, and nothing of it warns that an effect is not
handled. -/
def World.Quiet (w w' : World) : Prop :=
  ∃ added, w'.transcript.events = w.transcript.events ++ added ∧ ∀ e ∈ added, ¬ e.IsUnhandled

namespace World

theorem Quiet.refl (w : World) : w.Quiet w := ⟨[], by simp⟩

theorem Quiet.trans {w₁ w₂ w₃ : World} (h₁ : w₁.Quiet w₂) (h₂ : w₂.Quiet w₃) : w₁.Quiet w₃ := by
  obtain ⟨added₁, heq₁, hquiet₁⟩ := h₁
  obtain ⟨added₂, heq₂, hquiet₂⟩ := h₂
  refine ⟨added₁ ++ added₂, by rw [heq₂, heq₁, List.append_assoc], fun e he => ?_⟩
  exact (List.mem_append.mp he).elim (hquiet₁ e) (hquiet₂ e)

theorem Quiet.note (w : World) {e : Event} (h : ¬ e.IsUnhandled) : w.Quiet (w.note e) :=
  ⟨[e], Transcript.events_add _ _, by simpa using h⟩

theorem Calm.unchanged {writing : Bool} {w w' : World}
    (h : Relation.ReflTransGen (Calm writing) w w') :
    w.Quiet w' ∧ w'.settings = w.settings := by
  induction h with
  | refl => exact ⟨.refl w, rfl⟩
  | tail _ hcalm ih =>
    cases hcalm with
    | note h => exact ⟨ih.1.trans (.note _ h), ih.2⟩
    | result | cell | cells | registry | files | input | depth => exact ih

theorem Calm.cells_eq {w w' : World} (h : Relation.ReflTransGen (Calm false) w w') :
    w'.cells = w.cells := by
  induction h with
  | refl => rfl
  | tail _ hcalm ih =>
    cases hcalm with
    | cell d h | cells c h => cases h
    | note | result | registry | files | input | depth => exact ih

end World

/-- A machine that strictness makes no difference to, and that makes calm changes only. -/
structure Steady (writing : Bool) {α : Type} (m : Machine α) : Prop where
  strict : ∀ (w : World) (v : Value), m (w.withStrict v) = mapWorld (·.withStrict v) (m w)
  calm : ∀ w : World, Relation.ReflTransGen (World.Calm writing) w (worldAfter (m w))

namespace Steady

variable {writing : Bool} {α β : Type}

theorem done (a : α) : Steady writing (pure a : Machine α) := ⟨fun _ _ => rfl, fun _ => .refl⟩

theorem stop (cause : Stop) : Steady writing (throw cause : Machine α) :=
  ⟨fun _ _ => rfl, fun _ => .refl⟩

theorem bind {m : Machine α} {f : α → Machine β} (hm : Steady writing m)
    (hf : ∀ a, Steady writing (f a)) :
    Steady writing (m >>= f) where
  strict w v := by
    cases h : m w with
    | ok a w' =>
      have hm' : m (w.withStrict v) = .ok a (w'.withStrict v) := by rw [hm.strict, h]; rfl
      rw [bind_of_ok h, bind_of_ok hm', (hf a).strict]
    | error cause w' =>
      have hm' : m (w.withStrict v) = .error cause (w'.withStrict v) := by rw [hm.strict, h]; rfl
      rw [bind_of_error h, bind_of_error hm']
      rfl
  calm := worldAfter_bind .trans hm.calm fun a => (hf a).calm

theorem read {f : World → Machine β} (hf : ∀ w, Steady writing (f w))
    (h : ∀ (w : World) (v : Value), f (w.withStrict v) = f w) : Steady writing (get >>= f) where
  strict w v := by rw [get_bind, get_bind, h, (hf w).strict]
  calm w := (hf w).calm w

theorem modify {f : World → World} (hf : ∀ w : World, w.Calm writing (f w))
    (h : ∀ (w : World) (v : Value), f (w.withStrict v) = (f w).withStrict v) :
    Steady writing (modify f) where
  strict w v := congrArg (EStateM.Result.ok PUnit.unit) (h w v)
  calm w := .single (hf w)

theorem modifyGet {f : World → α × World} (hf : ∀ w : World, w.Calm writing (f w).2)
    (h : ∀ (w : World) (v : Value), f (w.withStrict v) = ((f w).1, (f w).2.withStrict v)) :
    Steady writing (modifyGet f : Machine α) where
  strict w v := congrArg (fun a : α × World => EStateM.Result.ok a.1 a.2) (h w v)
  calm w := .single (hf w)

theorem note {e : Event} (h : ¬ e.IsUnhandled) : Steady writing (Machine.note e) :=
  modify (fun w => .note w h) fun _ _ => rfl

theorem store (d : Descriptor) : Steady writing (Machine.store d) where
  strict _ _ := rfl
  calm w := .single (.result w d)

/-- Registering a handler logs no warning. -/
theorem enlist (name source : Value) : Steady writing (enlist name source) where
  strict w v := by
    have hcommutes (outcome : Except Fault (Registry × List LogRecord)) :
        (w.withStrict v).changeRegistry outcome = (w.changeRegistry outcome).withStrict v := by
      cases outcome <;> rfl
    exact congrArg (EStateM.Result.ok _) (hcommutes (w.registry.define name source))
  calm w := by
    change Relation.ReflTransGen (World.Calm writing) w
      (w.changeRegistry (w.registry.define name source))
    cases hdefined : w.registry.define name source with
    | error e => exact .refl
    | ok defined =>
      have hrecords (records : List LogRecord) (hlevels : ∀ r ∈ records, r.level ≠ .warning)
          (u : World) :
          Relation.ReflTransGen (World.Calm writing) u
            { u with transcript := u.transcript.addRecords records } := by
        induction records generalizing u with
        | nil => exact .refl
        | cons r records ih =>
          obtain ⟨hlevel, hlevels⟩ := List.forall_mem_cons.mp hlevels
          exact (ih hlevels (u.log r)).head (.note u (Event.not_isUnhandled_of_level hlevel))
      exact (hrecords defined.2 (Registry.define_records hdefined) _).head (.registry w defined.1)

/-- Effects are steady, those that write to the cells where this is meant. -/
theorem closed :
    ClosedUnderEffects (fun w w' => ∃ v, w' = w.withStrict v) writing (@Steady writing) where
  looksLike := by
    rintro w _ ⟨v, rfl⟩
    exact ⟨rfl, rfl, rfl, rfl, rfl, rfl, fun _ => rfl⟩
  done := done
  stop _ := stop _
  wait := stop .waiting
  bind := bind
  read heq hf := read hf fun w v => heq ⟨v, rfl⟩
  note := note
  store := store
  addCell h d := modifyGet (fun w => .cell w d h) fun _ _ => rfl
  setCells h cells := modify (fun w => .cells w cells h) fun _ _ => rfl
  setFiles files := modify (fun w => .files w files) fun _ _ => rfl
  takeLine := modifyGet (fun w => .input w _) fun _ _ => rfl
  enlist := enlist
  descend := modify (fun w => .depth w _) fun _ _ => rfl
  ascend := modify (fun w => .depth w _) fun _ _ => rfl

end Steady

open Steady

namespace State

/-- Whether the handler of a custom effect is what a state is about to call. -/
def Calls (s : State) (handler : Handler) : Prop :=
  ∃ node tag args, s.focus = .perform node tag args ∧ Opcode.ofTag? tag = none ∧
    s.world.registry.has tag = .ok true ∧ s.world.registry.get? tag = some handler

/-- Whether a state calls no handler but one that is written without a parameter for the context. -/
def callsWithArgumentsOnly (s : State) : Bool :=
  match s.focus with
  | .perform _ tag _ => (s.world.registry.get? tag).all Handler.takesArgumentsOnly
  | _ => true

theorem Calls.takesArgumentsOnly {s : State} {handler : Handler} (h : s.Calls handler)
    (hs : s.callsWithArgumentsOnly = true) : handler.takesArgumentsOnly = true := by
  obtain ⟨node, tag, args, hfocus, -, -, hget⟩ := h
  simpa only [callsWithArgumentsOnly, hfocus, hget, Option.all_some] using hs

theorem Calls.ignoresContext {s : State} {handler : Handler} (h : s.Calls handler)
    (hs : s.callsWithArgumentsOnly = true) : handler.IgnoresContext :=
  Handler.ignoresContext_of_takesArgumentsOnly (h.takesArgumentsOnly hs)

def withStrict (s : State) (v : Value) : State := { s with world := s.world.withStrict v }

/-- A step goes deeper than is allowed, or performs an effect, or is a steady move. -/
theorem step_cases {s t : State} (h : s.step = some t) :
    (s.tooDeep = true ∧ t = { s with focus := .stop (.fault .recursion) }) ∨
      (s.tooDeep = false ∧ ∃ node tag args, s.focus = .perform node tag args ∧
        t = after s.frames (act node tag args s.world) ∧
        ∀ v, (s.withStrict v).step =
          some (after s.frames (act node tag args (s.world.withStrict v)))) ∨
      ∃ m frames, Steady false m ∧ t = after frames (m s.world) ∧
        ∀ v, (s.withStrict v).step = some (after frames (m (s.world.withStrict v))) := by
  cases hs : s.tooDeep with
  | true => exact .inl ⟨rfl, Option.some.inj (h.symm.trans (step_of_tooDeep hs))⟩
  | false =>
    have hnext (v : Value) : (s.withStrict v).step = (s.withStrict v).next :=
      step_of_not_tooDeep hs
    cases moves_of_next ((step_of_not_tooDeep hs).symm.trans h) with
    | arrive node =>
      have hsteady : Steady false (arrive node) :=
        closed.has_arrive (fun ⟨_, hw⟩ => hw ▸ ⟨rfl, rfl⟩) node
      exact .inr (.inr ⟨_, _, hsteady, rfl, hnext⟩)
    | act node tag args => exact .inr (.inl ⟨rfl, node, tag, args, rfl, rfl, hnext⟩)
    | resume key? frame =>
      exact .inr (.inr ⟨_, _, closed.has_resume key? frame, rfl, hnext⟩)
    | unwind cause frame =>
      exact .inr (.inr ⟨_, _, closed.has_unwind cause frame, rfl, hnext⟩)

end State

end Evaluation

end EffectTree
