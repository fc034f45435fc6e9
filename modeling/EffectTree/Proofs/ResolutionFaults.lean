import EffectTree.Proofs.DescribedValues
import EffectTree.Proofs.DisciplinedSteps
import EffectTree.Proofs.ExpressionFaults
import EffectTree.Proofs.SteadyEffects

/-!
# Faults of resolution

Effects ask for the heads, the values and the texts of their arguments, and continuations for what
they come to for an input. No effect raises a fault of resolution by itself: where there is one, a
question about a descriptor that the state has at hand has no answer, or a handler of the host says
so.
-/
namespace EffectTree

/-- The kinds of faults that are not of resolution. -/
def FaultKind.isElsewhere (k : FaultKind) : Bool := k ≠ .resolution

instance : FaultKind.Covers FaultKind.isElsewhere FaultKind.isOfValues :=
  ⟨by rintro (_ | _) <;> simp [FaultKind.isElsewhere, FaultKind.isOfValues]⟩

/-- A computation that ends in no fault of resolution. -/
abbrev Elsewhere {α : Type} (r : Except Fault α) : Prop := OfKinds FaultKind.isElsewhere r

theorem Elsewhere.kind_ne {α : Type} {r : Except Fault α} (h : Elsewhere r) {e : Fault}
    (he : r = .error e) :
    e.kind ≠ .resolution := by
  have hkind : e.kind.isElsewhere = true := h.of_error he
  simpa [FaultKind.isElsewhere] using hkind

theorem Fault.isOf_file (problem : FileProblem) (path : String) :
    (file problem path).IsOf FaultKind.isElsewhere := by
  cases problem <;> rfl

theorem Files.readText_elsewhere (files : Files) (path : FilePath) (shown : String) :
    Elsewhere (files.readText path shown) := by
  unfold readText
  (repeat' split) <;> first | exact Fault.isOf_file .. | exact rfl | exact trivial

theorem Files.writeText_elsewhere (files : Files) (path : FilePath) (text : String) :
    Elsewhere (files.writeText path text) := by
  unfold writeText
  (repeat' split) <;> first | exact Fault.isOf_file .. | exact rfl | exact trivial

theorem LineReader.read_elsewhere {r : LineReader} {timeout : Value} {answer : Except Fault String}
    (h : (r.read timeout).1 = some answer) : Elsewhere answer := by
  unfold read at h
  (repeat' split at h) <;> cases h <;> first | exact rfl | exact trivial

theorem Value.requireHashable_elsewhere (v : Value) : Elsewhere v.requireHashable :=
  (requireHashable_ofKinds v : OfValues _).weaken

theorem Registry.contains_elsewhere (registry : Registry) (name : Value) :
    Elsewhere (registry.contains name) :=
  (ofKinds_map ..).mpr name.requireHashable_elsewhere

theorem Registry.has_elsewhere (registry : Registry) (name : Value) :
    Elsewhere (registry.has name) := by
  cases name with
  | null => exact trivial
  | _ => exact contains_elsewhere registry _

theorem Registry.find_elsewhere (registry : Registry) (name : Value) :
    Elsewhere (registry.find name) := by
  refine name.requireHashable_elsewhere.bind fun _ => ?_
  split
  · exact trivial
  · exact rfl

theorem Registry.register_elsewhere (registry : Registry) (name : Value) (handler : Handler) :
    Elsewhere (registry.register name (some handler)) :=
  (registry.contains_elsewhere name).bind fun _ => ofKinds_pure _

theorem Registry.define_elsewhere (registry : Registry) (name source : Value) :
    Elsewhere (registry.define name source) := by
  unfold define
  split
  · refine OfKinds.ite rfl ((Expression.compileValue_ofValues source).weaken.bind fun body => ?_)
    exact (register_elsewhere registry _ _).bind fun _ => ofKinds_pure _
  · exact rfl

theorem Store.Cells.get_elsewhere (cells : Cells) (key : Value) : Elsewhere (cells.get key) := by
  unfold get
  (repeat' split) <;> first | exact rfl | exact trivial

theorem Store.Cells.delete_elsewhere (cells : Cells) (key : Value) : Elsewhere (cells.delete key) :=
  OfKinds.ite trivial ((ofKinds_map ..).mpr key.requireHashable_elsewhere)

theorem Evaluation.exitCode_elsewhere (v : Value) : Elsewhere (exitCode v) := by
  unfold exitCode
  (repeat' split) <;> first | exact rfl | exact trivial

theorem Descriptor.describe_elsewhere (v : Value) : Elsewhere (describe v) := by
  cases h : describe v with
  | ok d => exact trivial
  | error e =>
    obtain ⟨_, _, _, part, -, -, rfl⟩ := (describe_eq_error_iff v e).mp h
    exact rfl

/-- A question about a descriptor that has no answer. -/
inductive Resolver.Unanswered (r : Resolver) (d : Descriptor) (e : Fault) : Prop
  | head (h : r.head d = .error e)
  | value (h : r.literalValue d = .error e)
  | text (h : r.render d = .error e)

theorem Resolver.head_of_effectOf {r : Resolver} {d : Descriptor} {e : Fault}
    (h : r.effectOf d = .error e) :
    r.head d = .error e := by
  unfold effectOf at h
  cases hhead : r.head d with
  | ok found => rw [hhead] at h; cases h
  | error e' => rw [hhead] at h; cases h; rfl

theorem Resolver.head_of_elementsOf {r : Resolver} {d : Descriptor} {e : Fault}
    (h : r.elementsOf d = .error e) :
    r.head d = .error e := by
  unfold elementsOf at h
  cases hhead : r.head d with
  | ok found => rw [hhead] at h; cases h
  | error e' => rw [hhead] at h; cases h; rfl

namespace Evaluation

/-- A machine whose faults of resolution are unanswered questions about some descriptors. -/
def Blames {α : Type} (ds : List Descriptor) (m : Machine α) : Prop :=
  ∀ ⦃w w' : World⦄ ⦃e : Fault⦄, m w = .error (.fault e) w' → e.kind = .resolution →
    ∃ d ∈ ds, w.resolver.Unanswered d e

/-- Such a machine that leaves the resolver as it is. -/
structure Asks {α : Type} (ds : List Descriptor) (m : Machine α) : Prop where
  blames : Blames ds m
  resolver : ∀ ⦃w w' : World⦄ ⦃a : α⦄, m w = .ok a w' → w'.resolver = w.resolver

namespace Asks

variable {α β : Type} {ds : List Descriptor} {d : Descriptor} {d? : Option Descriptor}

theorem done (a : α) : Asks ds (pure a : Machine α) where
  blames _ _ _ h := by cases h
  resolver _ _ _ h := by
    cases h
    rfl

theorem fail {e : Fault} (h : e.kind ≠ .resolution) : Asks ds (Machine.fail e : Machine α) where
  blames _ _ _ he hkind := by
    cases he
    exact absurd hkind h
  resolver _ _ _ h := by cases h

theorem lift {r : Except Fault α} (h : Elsewhere r) : Asks ds (Machine.lift r) := by
  cases r with
  | ok a => exact done a
  | error e => exact fail (h.kind_ne rfl)

theorem andThen {m : Machine α} {f : α → Machine β} (hm : Asks ds m) (hf : ∀ a, Blames ds (f a)) :
    Blames ds (m >>= f) := by
  intro w w' e h hkind
  cases hw : m w with
  | ok a w₁ =>
    rw [bind_of_ok hw] at h
    rw [← hm.resolver hw]
    exact hf a h hkind
  | error cause w₁ =>
    rw [bind_of_error hw] at h
    cases h
    exact hm.blames hw hkind

theorem bind {m : Machine α} {f : α → Machine β} (hm : Asks ds m) (hf : ∀ a, Asks ds (f a)) :
    Asks ds (m >>= f) := by
  refine ⟨hm.andThen fun a => (hf a).blames, fun w w' b h => ?_⟩
  cases hw : m w with
  | ok a w₁ =>
    rw [bind_of_ok hw] at h
    exact ((hf a).resolver h).trans (hm.resolver hw)
  | error cause w₁ =>
    rw [bind_of_error hw] at h
    cases h

theorem get : Asks ds (get : Machine World) where
  blames _ _ _ h := by cases h
  resolver _ _ _ h := by
    cases h
    rfl

theorem modify {f : World → World} (h : ∀ w, (f w).resolver = w.resolver) :
    Asks ds (modify f : Machine PUnit) where
  blames _ _ _ h := by cases h
  resolver w _ _ heq := by
    cases heq
    exact h w

theorem note (e : Event) : Asks ds (Machine.note e) := modify fun _ => rfl

theorem resolve {question : Resolver → Except Fault α} (hd : d ∈ ds)
    (h : ∀ {r e}, question r = .error e → r.Unanswered d e) :
    Asks ds (Machine.resolve question) where
  blames w w' e he _ := by
    cases hanswer : question w.resolver with
    | ok a =>
      rw [resolve_of_ok hanswer] at he
      cases he
    | error e' =>
      rw [resolve_of_error hanswer] at he
      cases he
      exact ⟨d, hd, h hanswer⟩
  resolver w w' a ha := by
    cases hanswer : question w.resolver with
    | ok a =>
      rw [resolve_of_ok hanswer] at ha
      cases ha
      rfl
    | error e' =>
      rw [resolve_of_error hanswer] at ha
      cases ha

theorem literal (hd : d ∈ ds) : Asks ds (Machine.literal d) := resolve hd .value

theorem render (hd : d ∈ ds) : Asks ds (Machine.render d) := resolve hd .text

theorem literalOf (hd : ∀ d ∈ d?, d ∈ ds) : Asks ds (Machine.literalOf d?) := by
  cases d? with
  | none => exact done _
  | some d => exact literal (hd d rfl)

theorem mapM {f : α → Machine β} {as : List α} (hf : ∀ a ∈ as, Asks ds (f a)) :
    Asks ds (as.mapM f) := by
  induction as with
  | nil => exact done _
  | cons a as ih =>
    obtain ⟨ha, has⟩ := List.forall_mem_cons.mp hf
    rw [List.mapM_cons]
    exact bind ha fun _ => bind (ih has) fun _ => done _

theorem textOf (hd : d ∈ ds) : Asks ds (textOf d) := by
  refine bind (literal hd) fun v => ?_
  split
  · exact done _
  · exact render hd

theorem optionalText (hd : ∀ d ∈ d?, d ∈ ds) : Asks ds (optionalText d?) := by
  cases d? with
  | none => exact done _
  | some d => exact textOf (hd d rfl)

theorem renderOr (absent : String) (hd : ∀ d ∈ d?, d ∈ ds) : Asks ds (renderOr absent d?) := by
  cases d? with
  | none => exact done _
  | some d => exact render (hd d rfl)

theorem pathOf (opcode : String) (hd : ∀ d ∈ d?, d ∈ ds) : Asks ds (pathOf opcode d?) := by
  refine bind (literalOf hd) fun v => ?_
  split
  · exact done _
  · exact bind (renderOr _ hd) fun _ => fail fun h => by cases h

theorem customArgument (hd : d ∈ ds) : Asks ds (customArgument d) := by
  refine bind (literal hd) fun v => ?_
  split
  · refine bind (render hd) fun text => ?_
    split <;> exact done _
  · exact done _

theorem writeOutput (v : Value) : Asks ds (writeOutput v) := by
  unfold Evaluation.writeOutput
  split
  · exact note _
  · exact fail fun h => by cases h

theorem referenceTo (key : String) : Asks ds (referenceTo key) := by
  have hproject (results : Store.Results) : Elsewhere (results.project (.ofStr key)) :=
    OfKinds.ite trivial rfl
  exact bind get fun w => lift (hproject w.results)

theorem inputFor (key? : Option String) : Asks [] (inputFor key?) := by
  cases key? with
  | none => exact done _
  | some key => exact referenceTo key

theorem members (hd : ∀ d ∈ d?, d ∈ ds) : Asks ds (members d?) := by
  cases d? with
  | none => exact done _
  | some d =>
    exact bind (resolve (hd d rfl) fun h => .head (Resolver.head_of_elementsOf h)) fun _ => done _

end Asks

namespace Blames

variable {ds : List Descriptor} {d : Descriptor} {d? : Option Descriptor}

open Asks

theorem yielding (d : Descriptor) : Blames ds (yielding d) := by
  intro _ _ _ h
  cases h

theorem raise (hd : ∀ d ∈ d?, d ∈ ds) : Blames ds (raise d?) := by
  cases d? with
  | none => exact (Asks.fail (by nofun)).blames
  | some d =>
    exact (literal (hd d rfl)).andThen fun _ => (render (hd d rfl)).andThen fun _ =>
      (Asks.fail (by nofun)).blames

theorem putString (hd : ∀ d ∈ d?, d ∈ ds) : Blames ds (putString d?) := by
  cases d? with
  | none => exact (done _).blames
  | some d =>
    exact ((Asks.textOf (hd d rfl)).bind fun _ => (Asks.writeOutput _).bind fun _ => done _).blames

theorem readFile (hd : ∀ d ∈ d?, d ∈ ds) : Blames ds (readFile d?) :=
  (Asks.pathOf _ hd).andThen fun path => get.andThen fun w =>
    (Asks.lift (w.files.readText_elsewhere path _)).andThen fun _ => yielding _

theorem writeText (path : FilePath) (contents : Value) : Blames ds (writeText path contents) := by
  unfold Evaluation.writeText
  split
  · refine get.andThen fun w => (Asks.lift (w.files.writeText_elsewhere path _)).andThen
      fun files => ?_
    refine (Asks.modify (f := fun w => { w with files }) fun _ => rfl).andThen fun _ => ?_
    split
    · exact (Asks.fail fun h => by cases h).blames
    · exact (done _).blames
  · exact (Asks.fail fun h => by cases h).blames

theorem readLine : Blames ds readLine := by
  intro w w' e h hkind
  have htaken : Evaluation.readLine w = lineTaken (w.input.read w.settings.timeout).1
      { w with input := (w.input.read w.settings.timeout).2 } := by
    rw [readLine_eq]
    rfl
  rw [htaken] at h
  cases hanswer : (w.input.read w.settings.timeout).1 with
  | none =>
    rw [hanswer] at h
    cases h
  | some answer =>
    rw [hanswer] at h
    have hline : Blames ds (lineTaken (some answer)) :=
      (Asks.lift (LineReader.read_elsewhere hanswer)).andThen fun _ => yielding _
    obtain ⟨d, hd, hunanswered⟩ := hline h hkind
    exact ⟨d, hd, hunanswered⟩

theorem define (name source : Value) : Blames ds (define name source) := by
  refine get.andThen fun w => (Asks.lift (w.registry.define_elsewhere name source)).andThen
    fun defined => ?_
  refine (Asks.modify (f := fun w => { w with registry := defined.1 }) fun _ => rfl).andThen
    fun _ => ?_
  intro w w' e h
  have hlogged : (defined.2.forM fun r => Machine.note (.log r)) w = .ok () _ :=
    logging_eq defined.2 w
  rw [bind_of_ok hlogged] at h
  cases h

theorem expression (source : Value) : Blames ds (expression source) :=
  (Asks.lift (Expression.compileValue_ofValues source).weaken).andThen fun compiled =>
    (Asks.lift (Expression.evaluate_ofValues compiled.body []).weaken).andThen fun v =>
      (Asks.lift (Descriptor.describe_elsewhere v)).andThen fun _ => yielding _

/-- An effect that evaluates no others asks about its arguments only. -/
theorem runLeaf (effect : Leaf) (args : List Descriptor) : Blames args (runLeaf effect args) := by
  have hd (i : Nat) : ∀ d ∈ args[i]?, d ∈ args := fun d hd => List.mem_of_getElem? hd
  cases effect with
  | produce => exact yielding _
  | raise => exact raise (hd 0)
  | createCell =>
    intro w w' e h
    cases h
  | readCell =>
    exact (Asks.literalOf (hd 0)).andThen fun key => get.andThen fun w =>
      (Asks.lift (w.cells.get_elsewhere key)).andThen fun _ => yielding _
  | writeCell =>
    refine (Asks.literalOf (hd 0)).andThen fun key => get.andThen fun w =>
      (Asks.lift ((ofKinds_map ..).mpr key.requireHashable_elsewhere)).andThen fun cells => ?_
    exact ((Asks.modify (f := fun w => { w with cells }) fun _ => rfl).bind fun _ => done _).blames
  | deleteCell =>
    refine (Asks.literalOf (hd 0)).andThen fun key => get.andThen fun w =>
      (Asks.lift (w.cells.delete_elsewhere key)).andThen fun deleted => ?_
    exact ((Asks.modify (f := fun w => { w with cells := deleted.2 }) fun _ => rfl).bind fun _ =>
      done _).blames
  | print =>
    exact ((Asks.mapM fun _ => Asks.render).bind fun _ => (Asks.note _).bind fun _ => done _).blames
  | putString => exact putString (hd 0)
  | debug =>
    exact (Asks.optionalText (hd 0)).andThen fun _ => (Asks.renderOr _ (hd 1)).andThen fun _ =>
      (Asks.note _).andThen fun _ => yielding _
  | readFile => exact readFile (hd 0)
  | writeFile =>
    exact (Asks.pathOf _ (hd 0)).andThen fun path => (Asks.optionalText (hd 1)).andThen fun _ =>
      writeText path _
  | readLine => exact readLine
  | environment => exact (Asks.literalOf (hd 0)).andThen fun _ => get.andThen fun _ => yielding _
  | arguments => exact get.andThen fun _ => yielding _
  | exit =>
    refine (Asks.literalOf (hd 0)).andThen fun v => (Asks.lift (exitCode_elsewhere v)).andThen
      fun code => ?_
    intro w w' e h
    cases h
  | define =>
    exact (Asks.literalOf (hd 0)).andThen fun name => (Asks.literalOf (hd 1)).andThen fun source =>
      define name source
  | expression => exact (Asks.literalOf (hd 0)).andThen fun source => expression source

theorem unhandled (node : Descriptor) (tag : Value) : Blames [node] (unhandled node tag) := by
  refine (Asks.render List.mem_cons_self).andThen fun text => get.andThen fun w => ?_
  split
  · exact (Asks.fail (by nofun)).andThen fun _ => ((Asks.note _).bind fun _ => done _).blames
  · exact ((Asks.note _).bind fun _ => done _).blames

theorem gathered (keys : List String) : Blames ds (gathered keys) :=
  (Asks.mapM fun _ _ => Asks.referenceTo _).andThen fun _ => yielding _

theorem lastOf (keys : List String) : Blames ds (lastOf keys) := by
  unfold Evaluation.lastOf
  split
  · exact (done _).blames
  · exact (Asks.referenceTo _).andThen fun _ => yielding _

end Blames

/-- A move that comes to a fault of resolution only where a question about one of some descriptors
has no answer. -/
def Tells (ds : List Descriptor) (m : Machine Move) : Prop :=
  ∀ ⦃w : World⦄ ⦃e : Fault⦄, (State.after [] (m w)).focus = .stop (.fault e) →
    e.kind = .resolution →
    ∃ d ∈ ds, w.resolver.Unanswered d e

namespace Tells

variable {ds : List Descriptor}

theorem done {focus : Focus} (h : ∀ e, focus = .stop (.fault e) → e.kind ≠ .resolution)
    (frames : List Frame) :
    Tells ds (pure (focus, frames)) :=
  fun _ e he hkind => absurd hkind (h e he)

theorem andThen {α : Type} {m : Machine α} {f : α → Machine Move} (hm : Asks ds m)
    (hf : ∀ a, Tells ds (f a)) :
    Tells ds (m >>= f) := by
  intro w e h hkind
  cases hw : m w with
  | ok a w₁ =>
    rw [bind_of_ok hw] at h
    rw [← hm.resolver hw]
    exact hf a h hkind
  | error cause w₁ =>
    rw [bind_of_error hw] at h
    cases h
    exact hm.blames hw hkind

theorem finishing {m : Machine (Option String)} (hm : Blames ds m) : Tells ds (finishing m) := by
  intro w e h hkind
  obtain ⟨w₁, hw⟩ := State.stop_of_finishing h
  exact hm hw hkind

theorem proceed {frame : List Descriptor → List String → Frame}
    {combine : List String → Machine (Option String)} (hcombine : ∀ keys, Blames ds (combine keys))
    (nodes : List Descriptor) (keys : List String) :
    Tells ds (proceed frame combine nodes keys) := by
  cases nodes with
  | nil => exact finishing (hcombine keys)
  | cons d rest => exact done (by nofun) _

theorem begin (args : List Descriptor) (effect : Control) : Tells args (begin args effect) := by
  have hd : ∀ d ∈ args[0]?, d ∈ args := fun d hd => List.mem_of_getElem? hd
  cases effect with
  | bind =>
    refine done (fun e h => ?_) _
    cases hinput : args[0]? <;> rw [hinput] at h <;> cases h
  | recover =>
    refine done (fun e h => ?_) _
    cases hbody : args[0]? <;> rw [hbody] at h <;> cases h
    nofun
  | gather => exact andThen (Asks.members hd) fun _ => proceed Blames.gathered _ _
  | block => exact andThen (Asks.members hd) fun _ => proceed Blames.lastOf _ _

end Tells

section Steps

variable {w w' : World} {e : Fault}

theorem called_blames {reply : Reply} (h : called reply w = .error (.fault e) w')
    (hkind : e.kind = .resolution) :
    reply.answer = .error (.fault e) := by
  obtain ⟨w₁, hfollow⟩ := follow_eq_accept reply w
  cases hanswer : reply.answer with
  | error cause =>
    rw [hanswer] at hfollow
    have hstops : called reply w = .error cause w₁ := bind_of_error hfollow
    cases hstops.symm.trans h
    rfl
  | ok product =>
    rw [hanswer] at hfollow
    have hproduced : Blames [] (produced product) := by
      unfold produced
      split
      · exact (Asks.done _).blames
      · exact (Asks.lift (Descriptor.describe_elsewhere _)).andThen fun _ => .yielding _
      · exact .yielding _
    obtain ⟨d, hd, -⟩ := hproduced ((bind_of_ok hfollow).symm.trans h) hkind
    cases hd

/-- A custom effect asks about its arguments; what else it raises its handler has said. -/
theorem runCustom_blames {tag : Value} {args : List Descriptor}
    (h : runCustom tag args w = .error (.fault e) w') (hkind : e.kind = .resolution) :
    (∃ d ∈ args, w.resolver.Unanswered d e) ∨ ∃ handler arguments,
      w.registry.get? tag = some handler ∧ (handler.call arguments w.context).answer =
        .error (.fault e) := by
  obtain ⟨answer, -, hanswer⟩ := Looks.closed.mapM Looks.closed.has_customArgument args w
  have hself := hanswer (.refl w)
  cases answer with
  | error cause =>
    have hstops : runCustom tag args w = .error cause w := bind_of_error hself
    cases hstops.symm.trans h
    exact .inl ((Asks.mapM fun _ => Asks.customArgument).blames hself hkind)
  | ok arguments =>
    cases hfind : w.registry.find tag with
    | error e' =>
      have hlift : Machine.lift (w.registry.find tag) w = .error (.fault e') w := by
        rw [hfind]
        rfl
      have hinvoke : invoke tag arguments w = .error (.fault e') w :=
        (get_bind _ w).trans (bind_of_error hlift)
      have hstops : runCustom tag args w = .error (.fault e') w :=
        (bind_of_ok hself).trans (bind_of_error hinvoke)
      cases hstops.symm.trans h
      exact absurd hkind ((w.registry.find_elsewhere tag).kind_ne hfind)
    | ok handler =>
      obtain ⟨hhash, hget⟩ := Registry.find_eq_ok hfind
      rw [runCustom_of_handler hhash hget hself] at h
      exact .inr ⟨handler, arguments, hget, called_blames h hkind⟩

/-- Going on with a continuation asks for what it comes to for the input, and for what that
returns. -/
theorem handOver_blames {continuation input : Descriptor}
    (h : (State.after [] (handOver continuation input w)).focus = .stop (.fault e)) :
    w.resolver.specialize continuation [("input", input)] = .error e ∨
      ∃ d, w.resolver.specialize continuation [("input", input)] = .ok d ∧
        ((w.addResult d).2.resolver.projectField d (.ofStr "return") = .error e ∨
          (w.addResult d).2.resolver.render d = .error e) := by
  cases hspecial : w.resolver.specialize continuation [("input", input)] with
  | error e' =>
    have hstops : handOver continuation input w = .error (.fault e') w :=
      bind_of_error (resolve_of_error hspecial)
    rw [hstops] at h
    cases h
    exact .inl rfl
  | ok d =>
    refine .inr ⟨d, rfl, ?_⟩
    have hstored : Machine.store d w = .ok (w.addResult d).1 (w.addResult d).2 := rfl
    rw [handOver, bind_of_ok (resolve_of_ok hspecial), bind_of_ok hstored] at h
    cases hfield : (w.addResult d).2.resolver.projectField d (.ofStr "return") with
    | error e' =>
      rw [bind_of_error (resolve_of_error hfield)] at h
      cases h
      exact .inl rfl
    | ok next? =>
      rw [bind_of_ok (resolve_of_ok hfield)] at h
      cases next? with
      | some next => cases h
      | none =>
        dsimp only at h
        cases hrender : (w.addResult d).2.resolver.render d with
        | error e' =>
          have hstops : Machine.render d (w.addResult d).2 = .error (.fault e') (w.addResult d).2 :=
            resolve_of_error hrender
          rw [bind_of_error hstops] at h
          cases h
          exact .inr rfl
        | ok text =>
          have hgoes : Machine.render d (w.addResult d).2 = .ok text (w.addResult d).2 :=
            resolve_of_ok hrender
          rw [bind_of_ok hgoes] at h
          cases h

end Steps

namespace State

/-- A step of a state raises a fault: it does not only come out of a frame. -/
structure Raises (s : State) (e : Fault) : Prop where
  raised : ∃ t, s.step = some t ∧ t.focus = .stop (.fault e)
  notPassed : s.focus = .stop (.fault e) →
    ∃ continuation? frames, s.frames = .rescue continuation? :: frames

/-- A state goes on with a continuation. -/
inductive Continues (s : State) (continuation : Descriptor) : Prop
  | result {key? : Option String} {frames : List Frame} (hfocus : s.focus = .finish key?)
      (hframes : s.frames = .feed (some continuation) :: frames)
  | fault {e : Fault} {frames : List Frame} (hfocus : s.focus = .stop (.fault e))
      (hframes : s.frames = .rescue (some continuation) :: frames)

/-- A state asks what has no answer, or calls a handler that says so. -/
inductive Misses (s : State) (e : Fault) : Prop
  | node {node : Descriptor} (hfocus : s.focus = .evaluate node)
      (h : s.world.resolver.Unanswered node e)
  | effect {node : Descriptor} {tag : Value} {args : List Descriptor}
      (hfocus : s.focus = .perform node tag args)
      {d : Descriptor} (hd : d ∈ node :: args) (h : s.world.resolver.Unanswered d e)
  | handler {handler : Handler} (hcalls : s.Calls handler) {arguments : List Value}
      (h : (handler.call arguments s.world.context).answer = .error (.fault e))
  | continuation {continuation : Descriptor} (hcontinues : s.Continues continuation)
      {input : Descriptor}
      (h : s.world.resolver.specialize continuation [("input", input)] = .error e)
  | next {continuation : Descriptor} (hcontinues : s.Continues continuation) {input d : Descriptor}
      (hd : s.world.resolver.specialize continuation [("input", input)] = .ok d)
      (h : (s.world.addResult d).2.resolver.projectField d (.ofStr "return") = .error e ∨
        (s.world.addResult d).2.resolver.render d = .error e)

variable {s : State} {e : Fault}

variable {frames : List Frame} {w : World}

/-- What performing an effect misses. -/
theorem misses_of_act {node : Descriptor} {tag : Value} {args : List Descriptor}
    (h : (after [] (act node tag args w)).focus = .stop (.fault e)) (hkind : e.kind = .resolution) :
    (State.mk (.perform node tag args) frames w).Misses e := by
  have hargument : (∃ d ∈ args, w.resolver.Unanswered d e) →
      (State.mk (.perform node tag args) frames w).Misses e :=
    fun ⟨d, hd, hunanswered⟩ => .effect rfl (List.mem_cons_of_mem _ hd) hunanswered
  have hcases := act_cases node tag args w
  generalize act node tag args w = r at h hcases
  cases hcases with
  | unhashable he =>
    cases h
    exact absurd hkind (tag.requireHashable_elsewhere.kind_ne he)
  | unfindable he =>
    cases h
    exact absurd hkind ((w.registry.has_elsewhere tag).kind_ne he)
  | control => exact hargument (Tells.begin args _ h hkind)
  | leaf => exact hargument (Tells.finishing (Blames.runLeaf _ args) h hkind)
  | unhandled =>
    obtain ⟨d, hd, hunanswered⟩ := Tells.finishing (Blames.unhandled node tag) h hkind
    obtain rfl := List.mem_singleton.mp hd
    exact .effect rfl List.mem_cons_self hunanswered
  | custom htag hhas =>
    obtain ⟨w₁, hrun⟩ := stop_of_finishing h
    rcases runCustom_blames hrun hkind with hargs | ⟨handler, arguments, hget, hanswer⟩
    · exact hargument hargs
    · exact .handler ⟨node, tag, args, rfl, htag, hhas, hget⟩ hanswer

/-- What going on with a result misses. -/
theorem misses_of_resume {key? : Option String} {frame : Frame}
    (h : (after [] (resume key? frame w)).focus = .stop (.fault e)) (hkind : e.kind = .resolution) :
    (State.mk (.finish key?) (frame :: frames) w).Misses e := by
  have hnothing {m : Machine Move} (hm : Tells [] m)
      (h : (after [] (m w)).focus = .stop (.fault e)) : False := by
    obtain ⟨d, hd, -⟩ := hm h hkind
    cases hd
  cases frame with
  | leave => cases h
  | rescue => cases h
  | gather rest keys => exact (hnothing (Tells.proceed Blames.gathered _ _) h).elim
  | block rest keys => exact (hnothing (Tells.proceed Blames.lastOf _ _) h).elim
  | feed continuation? =>
    cases continuation? with
    | none => cases h
    | some continuation =>
      obtain ⟨answer, -, hanswer⟩ := Looks.closed.has_inputFor key? w
      have hinput := hanswer (.refl w)
      cases answer with
      | error cause =>
        have hstops : resume key? (.feed (some continuation)) w = .error cause w :=
          bind_of_error hinput
        rw [hstops] at h
        cases h
        obtain ⟨d, hd, -⟩ := (Asks.inputFor key?).blames hinput hkind
        cases hd
      | ok input =>
        have hgoes : resume key? (.feed (some continuation)) w = handOver continuation input w :=
          bind_of_ok hinput
        rw [hgoes] at h
        rcases handOver_blames h with hspecial | ⟨d, hd, hmissing⟩
        · exact .continuation (.result rfl rfl) hspecial
        · exact .next (.result rfl rfl) hd hmissing

/-- A fault of resolution is raised only where a question has no answer. -/
theorem Raises.misses (h : s.Raises e) (hkind : e.kind = .resolution) : s.Misses e := by
  obtain ⟨⟨t, hstep, hfocus⟩, hnot⟩ := h
  cases hdeep : s.tooDeep with
  | true =>
    cases (step_of_tooDeep hdeep).symm.trans hstep
    cases hfocus
    cases hkind
  | false =>
    cases moves_of_next ((step_of_not_tooDeep hdeep).symm.trans hstep) with
    | arrive node frames w =>
      rw [after_focus] at hfocus
      cases hdepth : w.settings.exceeded w.depth with
      | true =>
        rw [arrive_of_exceeded hdepth] at hfocus
        cases hfocus
        cases hkind
      | false =>
        cases heffect : w.resolver.effectOf node with
        | error e' =>
          rw [arrive_of_error hdepth heffect] at hfocus
          cases hfocus
          exact .node rfl (.head (Resolver.head_of_effectOf heffect))
        | ok effect =>
          rw [arrive_of_ok hdepth heffect] at hfocus
          cases hfocus
    | act =>
      rw [after_focus] at hfocus
      exact misses_of_act hfocus hkind
    | resume =>
      rw [after_focus] at hfocus
      exact misses_of_resume hfocus hkind
    | unwind cause frame =>
      rw [after_focus] at hfocus
      cases frame with
      | leave | feed | gather | block =>
        cases hfocus
        obtain ⟨_, _, hframes⟩ := hnot rfl
        cases hframes
      | rescue continuation? =>
        cases cause with
        | exit | waiting => cases hfocus
        | fault e' =>
          cases continuation? with
          | none => cases hfocus
          | some continuation =>
            rcases handOver_blames (w := World.log _ _) hfocus with hspecial | ⟨d, hd, hmissing⟩
            · exact .continuation (.fault rfl rfl) hspecial
            · exact .next (.fault rfl rfl) hd hmissing

end State

end Evaluation

end EffectTree
