import EffectTree.Proofs.EffectClosure
import Mathlib.Logic.Relation

/-!
# What evaluation does to the world

Every effect changes the world through a few primitive changes. Whatever node is evaluated and
however the evaluation ends, the world that it leaves behind is reached by a sequence of such
changes, so a property of worlds that each change keeps is kept by every evaluation.
-/
namespace EffectTree.Evaluation

theorem bind_of_ok {α β : Type} {m : Machine α} {f : α → Machine β} {a : α} {w w' : World}
    (h : m w = .ok a w') :
    (m >>= f) w = f a w' := by
  change EStateM.bind m f w = _
  rw [EStateM.bind, h]

theorem bind_of_error {α β : Type} {m : Machine α} {f : α → Machine β} {stop : Stop} {w w' : World}
    (h : m w = .error stop w') : (m >>= f) w = .error stop w' := by
  change EStateM.bind m f w = _
  rw [EStateM.bind, h]

theorem get_bind {α : Type} (f : World → Machine α) (w : World) : (get >>= f) w = f w w := rfl

theorem resolve_of_ok {α : Type} {question : Resolver → Except Fault α} {a : α} {w : World}
    (h : question w.resolver = .ok a) : Machine.resolve question w = .ok a w := by
  change Machine.lift (question w.resolver) w = _
  rw [h]
  rfl

theorem resolve_of_error {α : Type} {question : Resolver → Except Fault α} {e : Fault} {w : World}
    (h : question w.resolver = .error e) : Machine.resolve question w = .error (.fault e) w := by
  change Machine.lift (question w.resolver) w = _
  rw [h]
  rfl

theorem dispatch_control {eval : Evaluator} {node : Descriptor} {tag : String}
    {args : List Descriptor} {effect : Control}
    (htag : Opcode.ofTag? (.ofStr tag) = some (.control effect)) :
    dispatch eval node (.ofStr tag) args = runControl eval effect args := by
  funext w
  have hhashable : Machine.lift (Value.requireHashable (.ofStr tag)) w = .ok () w := rfl
  refine (bind_of_ok hhashable).trans ?_
  simp only [htag]

theorem dispatch_leaf {eval : Evaluator} {node : Descriptor} {tag : String} {args : List Descriptor}
    {effect : Leaf} (htag : Opcode.ofTag? (.ofStr tag) = some (.leaf effect)) :
    dispatch eval node (.ofStr tag) args = runLeaf effect args := by
  funext w
  have hhashable : Machine.lift (Value.requireHashable (.ofStr tag)) w = .ok () w := rfl
  refine (bind_of_ok hhashable).trans ?_
  simp only [htag]

def World.entered (w : World) (tag : String) (args : List Descriptor) : World :=
  w.note (.log ⟨.debug, .interpreter, "effect: " ++ (Value.ofStr tag).display ++
    " (" ++ toString args.length ++ " args)"⟩)

/-- The changes that effects are made of. -/
inductive World.Change : World → World → Prop
  | note (w : World) (e : Event) : Change w (w.note e)
  | result (w : World) (d : Descriptor) : Change w (w.addResult d).2
  | cell (w : World) (d : Descriptor) : Change w (w.addCell d).2
  | cells (w : World) (cells : Store.Cells) : Change w { w with cells }
  | registry (w : World) (registry : Registry) : Change w { w with registry }
  | files (w : World) (files : Files) : Change w { w with files }
  | input (w : World) (input : LineReader) : Change w { w with input }
  | depth (w : World) (depth : Nat) : Change w { w with depth }

abbrev World.Reaches : World → World → Prop := Relation.ReflTransGen World.Change

theorem World.changeRegistry_reaches (w : World)
    (outcome : Except Fault (Registry × List LogRecord)) :
    w.Reaches (w.changeRegistry outcome) := by
  cases outcome with
  | error e => exact .refl
  | ok defined =>
    have hrecords (records : List LogRecord) (u : World) :
        u.Reaches { u with transcript := u.transcript.addRecords records } := by
      induction records generalizing u with
      | nil => exact .refl
      | cons r records ih => exact (ih (u.log r)).head (.note u (.log r))
    exact (hrecords defined.2 _).head (.registry w defined.1)

/-- The world that a machine leaves behind, however it ends. -/
def worldAfter {α : Type} : EStateM.Result Stop World α → World
  | .ok _ w => w
  | .error _ w => w

@[simp] theorem worldAfter_ok {α : Type} (a : α) (w : World) :
    worldAfter (.ok a w : EStateM.Result Stop World α) = w := rfl

@[simp] theorem worldAfter_error {α : Type} (stop : Stop) (w : World) :
    worldAfter (.error stop w : EStateM.Result Stop World α) = w := rfl

namespace State

theorem after_world (frames : List Frame) (r : EStateM.Result Stop World Move) :
    (after frames r).world = worldAfter r := by
  cases r <;> rfl

theorem after_focus (frames : List Frame) (r : EStateM.Result Stop World Move) :
    (after frames r).focus = (after [] r).focus := by
  cases r <;> rfl

/-- Where finishing stops, the effect that is to be finished has stopped. -/
theorem stop_of_finishing {m : Machine (Option String)} {frames : List Frame} {w : World}
    {cause : Stop} (h : (after frames (finishing m w)).focus = .stop cause) :
    ∃ w', m w = .error cause w' := by
  cases hw : m w with
  | ok key? w' =>
    have hends : finishing m w = .ok (.finish key?, []) w' := bind_of_ok hw
    rw [hends] at h
    cases h
  | error cause' w' =>
    have hends : finishing m w = .error cause' w' := bind_of_error hw
    rw [hends] at h
    cases h
    exact ⟨w', rfl⟩

end State

/-- What holds between the worlds around every effect holds between those of one state and the
next. -/
theorem ClosedUnderEffects.step_world {R : World → World → Prop}
    (h : ClosedUnderEffects Eq true fun _ m => ∀ w, R w (worldAfter (m w)))
    (hnote : ∀ w e, R w (World.note w e)) {s t : State} (hstep : s.step = some t) :
    R s.world t.world := by
  unfold State.step at hstep
  split at hstep
  · cases hstep
    exact h.done () s.world
  · have hnotes (e : Event) (w : World) : R w (worldAfter (Machine.note e w)) := hnote w e
    obtain ⟨m, frames, hm, rfl⟩ := h.next hnotes hstep
    rw [State.after_world]
    exact hm s.world

/-- What holds between the worlds around each of two machines holds around both together. -/
theorem worldAfter_bind {α β : Type} {R : World → World → Prop}
    (htrans : ∀ {w₁ w₂ w₃}, R w₁ w₂ → R w₂ w₃ → R w₁ w₃) {m : Machine α} {f : α → Machine β}
    (hm : ∀ w, R w (worldAfter (m w))) (hf : ∀ a w, R w (worldAfter (f a w))) (w : World) :
    R w (worldAfter ((m >>= f) w)) := by
  have hw := hm w
  cases h : m w with
  | ok a w' =>
    rw [h] at hw
    rw [bind_of_ok h]
    exact htrans hw (hf a w')
  | error stop w' =>
    rw [h] at hw
    rw [bind_of_error h]
    exact hw

/-- A machine that leaves only reachable worlds behind. -/
def Reaching {α : Type} (m : Machine α) : Prop := ∀ w : World, w.Reaches (worldAfter (m w))

namespace Reaching

variable {α β : Type}

theorem done (a : α) : Reaching (pure a : Machine α) := fun _ => .refl

theorem stop (cause : Stop) : Reaching (throw cause : Machine α) := fun _ => .refl

theorem state : Reaching (get : Machine World) := fun _ => .refl

theorem bind {m : Machine α} {f : α → Machine β} (hm : Reaching m) (hf : ∀ a, Reaching (f a)) :
    Reaching (m >>= f) :=
  worldAfter_bind .trans hm hf

theorem modify {f : World → World} (h : ∀ w : World, w.Change (f w)) : Reaching (modify f) :=
  fun w => .single (h w)

theorem modifyGet {f : World → α × World} (h : ∀ w : World, w.Change (f w).2) :
    Reaching (modifyGet f : Machine α) :=
  fun w => .single (h w)

theorem note (e : Event) : Reaching (Machine.note e) := modify fun w => .note w e

theorem store (d : Descriptor) : Reaching (Machine.store d) := modifyGet fun w => .result w d

theorem reading : ClosedUnderReading Eq @Reaching where
  looksLike := .of_eq
  done := done
  stop _ := stop _
  bind := bind
  read _ hf := state.bind hf

theorem enlist (name source : Value) : Reaching (enlist name source) :=
  fun w => w.changeRegistry_reaches (w.registry.define name source)

/-- So is every effect, and every move. -/
theorem closed : ClosedUnderEffects Eq true @Reaching where
  toClosedUnderReading := reading
  wait := stop .waiting
  note _ := note _
  store := store
  addCell _ d := modifyGet fun w => .cell w d
  setCells _ cells := modify fun w => .cells w cells
  setFiles files := modify fun w => .files w files
  takeLine := modifyGet fun w => .input w _
  enlist := enlist
  descend := modify fun w => .depth w _
  ascend := modify fun w => .depth w _

theorem unhandled (node : Descriptor) (tag : Value) : Reaching (unhandled node tag) :=
  closed.has_unhandled (fun h => by rw [h]) note node tag

theorem nested {m : Machine α} (hm : Reaching m) : Reaching (Machine.nested m) := by
  intro w
  have hw := (Relation.ReflTransGen.single (World.Change.depth w (w.depth + 1))).trans (hm _)
  unfold Machine.nested
  split <;> rename_i w' h <;> rw [h] at hw <;> exact hw.tail (.depth w' _)

theorem orElseFault {m : Machine α} {handle : Fault → Machine α} (hm : Reaching m)
    (hh : ∀ e, Reaching (handle e)) : Reaching (m.orElseFault handle) := by
  intro w
  have hw := hm w
  unfold Machine.orElseFault
  split <;> rename_i w' h <;> rw [h] at hw
  · exact hw
  · exact hw.trans (hh _ w')
  · exact hw

end Reaching

open Reaching

section Control

variable {eval : Evaluator} (heval : ∀ d, Reaching (eval d))
include heval

theorem continueWith_reaching (continuation input : Descriptor) :
    Reaching (continueWith eval continuation input) := by
  refine (closed.resolve _).bind fun resolved => (store resolved).bind fun _ =>
    (closed.resolve _).bind fun next? => ?_
  split
  · exact heval _
  · exact (closed.render resolved).bind fun _ => (note _).bind fun _ => done _

theorem evaluateOptional_reaching (d? : Option Descriptor) :
    Reaching (evaluateOptional eval d?) := by
  cases d? with
  | none => exact done _
  | some d => exact heval d

theorem bind_reaching (input? continuation? : Option Descriptor) :
    Reaching (Evaluation.bind eval input? continuation?) := by
  refine (evaluateOptional_reaching heval input?).bind fun key? => ?_
  cases continuation? with
  | none => exact done _
  | some continuation =>
    exact (closed.has_inputFor key?).bind fun _ => continueWith_reaching heval _ _

theorem body_reaching (body? : Option Descriptor) :
    Reaching (match body? with
      | some d => eval d
      | none => Machine.fail (.refused "Try has no body")) := by
  cases body? with
  | none => exact stop _
  | some body => exact heval body

theorem handler_reaching (continuation? : Option Descriptor) (e : Fault) :
    Reaching (match continuation? with
      | none => pure none
      | some continuation => continueWith eval continuation (.literal (.ofStr e.message))) := by
  cases continuation? with
  | none => exact done _
  | some continuation => exact continueWith_reaching heval _ _

theorem recover_reaching (body? continuation? : Option Descriptor) :
    Reaching (recover eval body? continuation?) :=
  orElseFault (body_reaching heval body?) fun e => (note _).bind fun _ =>
    handler_reaching heval continuation? e

theorem evaluateAll_reaching (nodes : List Descriptor) : Reaching (evaluateAll eval nodes) := by
  induction nodes with
  | nil => exact done _
  | cons d rest ih => exact (heval d).bind fun _ => ih.bind fun _ => done _

theorem runControl_reaching (effect : Control) (args : List Descriptor) :
    Reaching (runControl eval effect args) := by
  cases effect with
  | bind => exact bind_reaching heval _ _
  | recover => exact recover_reaching heval _ _
  | gather =>
    exact (closed.has_members _).bind fun _ =>
      (evaluateAll_reaching heval _).bind closed.has_gathered
  | block =>
    exact (closed.has_members _).bind fun _ => (evaluateAll_reaching heval _).bind closed.has_lastOf

theorem dispatch_reaching (node : Descriptor) (tag : Value) (args : List Descriptor) :
    Reaching (dispatch eval node tag args) := by
  refine (closed.lift _).bind fun _ => ?_
  split
  · exact runControl_reaching heval _ args
  · exact closed.has_runLeaf (fun _ => rfl) (fun _ => closed.wait) args
  · rename_i htag
    refine state.bind fun _ => (closed.lift _).bind fun known => ?_
    split
    · exact closed.has_runCustom rfl (fun h _ _ => by rw [h]) htag args
    · exact Reaching.unhandled node tag

end Control

theorem enter_reaching (node : Descriptor)
    {inside : Value → List Descriptor → Machine (Option String)}
    (h : ∀ tag args, Reaching (inside tag args)) : Reaching (enter node inside) := by
  have hrest := (closed.resolve (·.effectOf node)).bind fun effect =>
    (closed.log .interpreter
      ("effect: " ++ effect.1.display ++ " (" ++ toString effect.2.length ++ " args)")).bind
        fun _ => nested (h effect.1 effect.2)
  refine state.bind fun w => ?_
  split
  · exact (stop _).bind fun _ => hrest
  · exact hrest

theorem evaluateAt_reaching (levels : Nat) (node : Descriptor) :
    Reaching (evaluateAt levels node) := by
  induction levels generalizing node with
  | zero => exact enter_reaching node fun _ _ => stop _
  | succ levels ih => exact enter_reaching node (dispatch_reaching ih node)

/-- Evaluation leaves a reachable world behind. -/
theorem evaluate_reaching (node : Descriptor) : Reaching (evaluate node) :=
  state.bind fun _ => evaluateAt_reaching _ node

/-- A run changes nothing but that it logs a fault or an exit that ends it. -/
theorem conclude_world (x : EStateM.Result Stop World (Option String)) :
    (conclude x).2 = worldAfter x ∨
    ∃ message, (conclude x).2 = (worldAfter x).log ⟨.debug, .interpreter, message⟩ := by
  cases x with
  | ok key w' => exact .inl rfl
  | error cause w' =>
    cases cause with
    | fault | exit => exact .inr ⟨_, rfl⟩
    | waiting => exact .inl rfl

theorem conclude_reaches {w : World} {x : EStateM.Result Stop World (Option String)}
    (h : w.Reaches (worldAfter x)) :
    w.Reaches (conclude x).2 := by
  rcases conclude_world x with heq | ⟨message, heq⟩
  · rwa [heq]
  · rw [heq]
    exact h.tail (.note _ _)

theorem run_reaches (node : Descriptor) (w : World) : w.Reaches (run node w).2 :=
  conclude_reaches (evaluate_reaching node w)

end EffectTree.Evaluation
