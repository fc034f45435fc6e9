import EffectTree.Evaluation.Stepwise

/-!
# Properties that effects are closed under

Every effect is put together from a few actions on the world, and so is everything that happens
between two nodes of an evaluation. A property of machines that these actions have and that
sequencing keeps is therefore one of all effects and of all moves. What an action may read of the
world is up to the property: it says which worlds it takes for alike.
-/
namespace EffectTree

/-- A warning that an effect is not handled. -/
def Event.IsUnhandled (e : Event) : Prop :=
  ∃ tag text, e = .log ⟨.warning, .interpreter, tag ++ " effect is not handled: " ++ text⟩

namespace Event

theorem not_isUnhandled_output (text : String) : ¬ (output text).IsUnhandled := nofun

theorem not_isUnhandled_diagnostic (text : String) : ¬ (diagnostic text).IsUnhandled := nofun

theorem not_isUnhandled_of_level {r : LogRecord} (h : r.level ≠ .warning) :
    ¬ (log r).IsUnhandled := by
  rintro ⟨_, _, heq⟩
  cases heq
  exact h rfl

end Event

theorem Registry.find_eq_ok {registry : Registry} {name : Value} {handler : Handler}
    (h : registry.find name = .ok handler) :
    name.requireHashable = .ok () ∧ registry.get? name = some handler := by
  simp only [find] at h
  cases hhash : name.requireHashable with
  | error e =>
    rw [hhash] at h
    cases h
  | ok _ =>
    rw [hhash] at h
    cases hget : registry.get? name with
    | none =>
      rw [hget] at h
      cases h
    | some handler' =>
      rw [hget] at h
      cases h
      exact ⟨rfl, rfl⟩

namespace Evaluation

/-- Whether an effect writes to the cells. -/
def Leaf.writesCells : Leaf → Bool
  | .createCell | .writeCell | .deleteCell => true
  | _ => false

/-- Whether a handler asks for a change of the cells. -/
def Request.writesCells : Request → Bool
  | .addCell _ | .setCell .. | .deleteCell _ => true
  | _ => false

/-- What every effect may read is the same in both worlds. -/
structure World.LooksLike (w w' : World) : Prop where
  resolver : w'.resolver = w.resolver
  results : w'.results = w.results
  cells : w'.cells = w.cells
  argv : w'.argv = w.argv
  environ : w'.environ = w.environ
  files : w'.files = w.files
  /-- The handlers of effects that are built in are never asked for. -/
  handlers : ∀ {tag : Value}, Opcode.ofTag? tag = none → w'.registry.get? tag = w.registry.get? tag

namespace World.LooksLike

theorem refl (w : World) : w.LooksLike w := ⟨rfl, rfl, rfl, rfl, rfl, rfl, fun _ => rfl⟩

theorem of_eq {w w' : World} (h : w = w') : w.LooksLike w' := h ▸ refl w

variable {w w' : World} (h : w.LooksLike w') {tag : Value} (htag : Opcode.ofTag? tag = none)
include h htag

theorem has_eq : w'.registry.has tag = w.registry.has tag := by
  have hget := h.handlers htag
  cases tag with
  | null => rfl
  | _ => simp only [Registry.has, Registry.contains, hget]

end World.LooksLike

/-- Takes the next line of the input, if there will ever be an answer. -/
def takeLine : Machine (Option (Except Fault String)) :=
  modifyGet fun w => ((w.input.read w.settings.timeout).1,
    { w with input := (w.input.read w.settings.timeout).2 })

/-- What comes of a line that is taken. -/
def lineTaken : Option (Except Fault String) → Machine (Option String)
  | none => throw .waiting
  | some answer => Machine.lift answer >>= fun text => yielding (.literal (.ofStr text))

theorem readLine_eq : readLine = takeLine >>= lineTaken := by
  funext w
  change (match (w.input.read w.settings.timeout).1 with
    | none => throw .waiting
    | some answer =>
      Machine.lift answer >>= fun text => yielding (.literal (.ofStr text)) : Machine _) _ =
      lineTaken (w.input.read w.settings.timeout).1 _
  cases (w.input.read w.settings.timeout).1 <;> rfl

/-- Registers a compiled handler and logs that, or tells why not. -/
def enlist (name source : Value) : Machine (Except Fault Unit) :=
  modifyGet fun w => ((w.registry.define name source).map fun _ => (),
    w.fulfil (.define name source))

theorem logging_eq (records : List LogRecord) (w : World) :
    (records.forM fun r => Machine.note (.log r)) w =
      .ok () { w with transcript := w.transcript.addRecords records } := by
  induction records generalizing w with
  | nil => rfl
  | cons r records ih => exact ih (w.log r)

theorem define_eq (name source : Value) :
    define name source = enlist name source >>= fun outcome => Machine.lift outcome >>= fun _ =>
      pure none := by
  funext w
  have hcases (defined : Except Fault (Registry × List LogRecord)) :
      (Machine.lift defined >>= fun defined => do
        modify ({ · with registry := defined.1 })
        defined.2.forM fun r => Machine.note (.log r)
        return none : Machine (Option String)) w =
      (Machine.lift (defined.map fun _ => ()) >>= fun _ => pure none)
        (w.changeRegistry defined) := by
    cases defined with
    | error e => rfl
    | ok defined =>
      change EStateM.bind (defined.2.forM fun r => Machine.note (.log r)) (fun _ => pure none)
        { w with registry := defined.1 } = _
      rw [EStateM.bind, logging_eq]
      rfl
  exact hcases (w.registry.define name source)

/-- A property that machines have which read what is the same in alike worlds. -/
structure ClosedUnderReading (alike : World → World → Prop) (P : ∀ ⦃α : Type⦄, Machine α → Prop) :
    Prop where
  looksLike : ∀ {w w' : World}, alike w w' → w.LooksLike w'
  done : ∀ {α : Type} (a : α), P (pure a : Machine α)
  stop : ∀ {α : Type} {cause : Stop}, cause ≠ .waiting → P (throw cause : Machine α)
  bind : ∀ {α β : Type} {m : Machine α} {f : α → Machine β}, P m → (∀ a, P (f a)) → P (m >>= f)
  read : ∀ {α : Type} {f : World → Machine α},
    (∀ {w w' : World}, alike w w' → f w' = f w) → (∀ w, P (f w)) → P (get >>= f)

/-- A property that the actions of effects have besides; those on the cells need not have it if
nothing writes there. -/
structure ClosedUnderActions (alike : World → World → Prop) (writing : Bool)
    (P : ∀ ⦃α : Type⦄, Machine α → Prop) : Prop extends ClosedUnderReading alike P where
  note : ∀ {e : Event}, ¬ e.IsUnhandled → P (Machine.note e)
  store : ∀ d : Descriptor, P (Machine.store d)
  addCell : writing = true → ∀ d : Descriptor, P (modifyGet (·.addCell d) : Machine String)
  setCells : writing = true → ∀ cells : Store.Cells, P (modify ({ · with cells }) : Machine PUnit)
  setFiles : ∀ files : Files, P (modify ({ · with files }) : Machine PUnit)
  takeLine : P takeLine
  enlist : ∀ name source : Value, P (enlist name source)
  descend : P (modify fun w => { w with depth := w.depth + 1 } : Machine PUnit)
  ascend : P (modify fun w => { w with depth := w.depth - 1 } : Machine PUnit)

/-- A property that waiting for ever has as well. -/
structure ClosedUnderEffects (alike : World → World → Prop) (writing : Bool)
    (P : ∀ ⦃α : Type⦄, Machine α → Prop) : Prop extends ClosedUnderActions alike writing P where
  wait : ∀ {α : Type}, P (throw .waiting : Machine α)

namespace ClosedUnderReading

variable {alike : World → World → Prop} {P : ∀ ⦃α : Type⦄, Machine α → Prop} {α β : Type}
variable (h : ClosedUnderReading alike P)
include h

theorem fail (e : Fault) : P (Machine.fail e : Machine α) := h.stop nofun

theorem lift (r : Except Fault α) : P (Machine.lift r) := by
  cases r with
  | ok a => exact h.done a
  | error e => exact h.fail e

theorem resolve (question : Resolver → Except Fault α) : P (Machine.resolve question) :=
  h.read (fun hw => by rw [(h.looksLike hw).resolver]) fun _ => h.lift _

theorem literal (d : Descriptor) : P (Machine.literal d) := h.resolve _

theorem render (d : Descriptor) : P (Machine.render d) := h.resolve _

theorem literalOf (d? : Option Descriptor) : P (Machine.literalOf d?) := by
  cases d? with
  | none => exact h.done _
  | some d => exact h.literal d

theorem mapM {f : α → Machine β} (hf : ∀ a, P (f a)) (as : List α) : P (as.mapM f) := by
  induction as with
  | nil => exact h.done _
  | cons a as ih =>
    rw [List.mapM_cons]
    exact h.bind (hf a) fun _ => h.bind ih fun _ => h.done _

theorem forM {f : α → Machine PUnit} {as : List α} (hf : ∀ a ∈ as, P (f a)) : P (as.forM f) := by
  induction as with
  | nil => exact h.done _
  | cons a as ih =>
    exact h.bind (hf a List.mem_cons_self) fun _ => ih fun b hb => hf b (List.mem_cons_of_mem _ hb)

theorem has_textOf (d : Descriptor) : P (textOf d) := by
  refine h.bind (h.literal d) fun v => ?_
  split
  · exact h.done _
  · exact h.render d

theorem has_optionalText (d? : Option Descriptor) : P (optionalText d?) := by
  cases d? with
  | none => exact h.done _
  | some d => exact h.has_textOf d

theorem has_renderOr (absent : String) (d? : Option Descriptor) : P (renderOr absent d?) := by
  cases d? with
  | none => exact h.done _
  | some d => exact h.render d

theorem has_pathOf (opcode : String) (d? : Option Descriptor) : P (pathOf opcode d?) := by
  refine h.bind (h.literalOf d?) fun v => ?_
  split
  · exact h.done _
  · exact h.bind (h.has_renderOr _ d?) fun _ => h.fail _

theorem has_raise (d? : Option Descriptor) : P (raise d?) := by
  cases d? with
  | none => exact h.fail _
  | some d => exact h.bind (h.literal d) fun _ => h.bind (h.render d) fun _ => h.fail _

theorem has_customArgument (d : Descriptor) : P (customArgument d) := by
  refine h.bind (h.literal d) fun v => ?_
  split
  · refine h.bind (h.render d) fun text => ?_
    split <;> exact h.done _
  · exact h.done _

theorem has_referenceTo (key : String) : P (referenceTo key) :=
  h.read (fun hw => by rw [(h.looksLike hw).results]) fun _ => h.lift _

theorem has_inputFor (key? : Option String) : P (inputFor key?) := by
  cases key? with
  | none => exact h.done _
  | some key => exact h.has_referenceTo key

theorem has_members (d? : Option Descriptor) : P (members d?) := by
  cases d? with
  | none => exact h.done _
  | some d => exact h.bind (h.resolve _) fun _ => h.done _

end ClosedUnderReading

/-- A machine that only looks at the world: worlds that look alike give it the same answer, and stay
as they are. -/
def Looks {α : Type} (m : Machine α) : Prop :=
  ∀ w : World, ∃ answer : Except Stop α, answer ≠ .error .waiting ∧
    ∀ {w' : World}, w.LooksLike w' → m w' = Machine.accept answer w'

theorem Looks.bind {α β : Type} {m : Machine α} {f : α → Machine β} (hm : Looks m)
    (hf : ∀ a, Looks (f a)) :
    Looks (m >>= f) := by
  intro w
  obtain ⟨answer, hwait, hanswer⟩ := hm w
  cases answer with
  | ok a =>
    obtain ⟨answer, hwait, hrest⟩ := hf a w
    refine ⟨answer, hwait, fun hlike => ?_⟩
    change EStateM.bind m f _ = _
    rw [EStateM.bind, hanswer hlike]
    exact hrest hlike
  | error cause =>
    refine ⟨.error cause, fun h => hwait (by cases h; rfl), fun hlike => ?_⟩
    change EStateM.bind m f _ = _
    rw [EStateM.bind, hanswer hlike]
    rfl

theorem Looks.closed : ClosedUnderReading World.LooksLike @Looks where
  looksLike := id
  done a _ := ⟨.ok a, nofun, fun _ => rfl⟩
  stop hcause _ := ⟨.error _, fun h => hcause (by cases h; rfl), fun _ => rfl⟩
  bind := Looks.bind
  read hlike hf w := by
    obtain ⟨answer, hwait, hanswer⟩ := hf w w
    exact ⟨answer, hwait, fun {w'} h => (congrFun (hlike h) w').trans (hanswer h)⟩

/-- What a custom effect comes to when its handler has replied. -/
def called (reply : Reply) : Machine (Option String) := do produced (← follow reply)

/-- The changes that a handler asks for never stop it from ending as it says. -/
theorem follow_eq_accept (reply : Reply) (w : World) :
    ∃ w', follow reply w = Machine.accept reply.answer w' := by
  obtain ⟨requests, answer⟩ := reply
  induction requests generalizing w with
  | nil => exact ⟨w, rfl⟩
  | cons request requests ih => exact ih (w.fulfil request)

theorem runCustom_of_handler {tag : Value} {args : List Descriptor} {w : World} {handler : Handler}
    {arguments : List Value} (hhash : tag.requireHashable = .ok ())
    (hget : w.registry.get? tag = some handler)
    (harguments : args.mapM customArgument w = .ok arguments w) :
    runCustom tag args w = called (handler.call arguments w.context) w := by
  have hfind : w.registry.find tag = .ok handler := by
    simp only [Registry.find, hget, hhash]
    rfl
  have hinvoke : invoke tag arguments w = follow (handler.call arguments w.context) w := by
    change (Machine.lift (w.registry.find tag) >>= fun handler =>
      follow (handler.call arguments w.context)) w = _
    rw [hfind]
    rfl
  change EStateM.bind (args.mapM customArgument)
    (fun arguments => invoke tag arguments >>= produced) w =
    EStateM.bind (follow (handler.call arguments w.context)) produced w
  rw [EStateM.bind, harguments]
  change EStateM.bind (invoke tag arguments) produced w = _
  rw [EStateM.bind, EStateM.bind, hinvoke]

/-- In worlds that look alike a custom effect stops before its handler is called, or the handler is
called for the same arguments in both. -/
theorem runCustom_alike {w w' : World} (hlike : w.LooksLike w') {tag : Value}
    (hhandlers : w'.registry.get? tag = w.registry.get? tag) (args : List Descriptor) :
    (∃ cause, cause ≠ .waiting ∧ runCustom tag args w = .error cause w ∧
      runCustom tag args w' = .error cause w') ∨
      ∃ handler arguments, w.registry.get? tag = some handler ∧
        args.mapM customArgument w = .ok arguments w ∧
        runCustom tag args w = called (handler.call arguments w.context) w ∧
        runCustom tag args w' = called (handler.call arguments w'.context) w' := by
  obtain ⟨answer, hwait, hanswer⟩ := Looks.closed.mapM Looks.closed.has_customArgument args w
  have hmissing {u : World} {e : Fault} (hu : args.mapM customArgument u = Machine.accept answer u)
      (hfind : u.registry.find tag = .error e) (hok : ∃ arguments, answer = .ok arguments) :
      runCustom tag args u = .error (.fault e) u := by
    obtain ⟨arguments, rfl⟩ := hok
    have hinvoke : invoke tag arguments u = .error (.fault e) u := by
      change (Machine.lift (u.registry.find tag) >>= fun handler =>
        follow (handler.call arguments u.context)) u = _
      rw [hfind]
      rfl
    change EStateM.bind (args.mapM customArgument)
      (fun arguments => invoke tag arguments >>= produced) u = _
    rw [EStateM.bind, hu]
    change EStateM.bind (invoke tag arguments) produced u = _
    rw [EStateM.bind, hinvoke]
  cases answer with
  | error cause =>
    have herror {u : World} (hu : args.mapM customArgument u = .error cause u) :
        runCustom tag args u = .error cause u := by
      change EStateM.bind _ _ u = _
      rw [EStateM.bind, hu]
    exact .inl ⟨cause, fun h => hwait (by rw [h]), herror (hanswer (.refl w)),
      herror (hanswer hlike)⟩
  | ok arguments =>
    have hself : args.mapM customArgument w = .ok arguments w := hanswer (.refl w)
    have hother : args.mapM customArgument w' = .ok arguments w' := hanswer hlike
    have hfind : w'.registry.find tag = w.registry.find tag := by
      simp only [Registry.find, hhandlers]
    cases hfound : w.registry.find tag with
    | error e =>
      exact .inl ⟨.fault e, nofun, hmissing hself hfound ⟨_, rfl⟩,
        hmissing hother (hfind.trans hfound) ⟨_, rfl⟩⟩
    | ok handler =>
      obtain ⟨hhash, hget⟩ := Registry.find_eq_ok hfound
      exact .inr ⟨handler, arguments, hget, hself, runCustom_of_handler hhash hget hself,
        runCustom_of_handler hhash (hhandlers.trans hget) hother⟩

/-- A custom effect stops before its handler is called, or goes on with what the handler replies. -/
theorem runCustom_cases (tag : Value) (args : List Descriptor) (w : World) :
    (∃ cause, cause ≠ .waiting ∧ runCustom tag args w = .error cause w) ∨
      ∃ handler arguments, w.registry.get? tag = some handler ∧
        args.mapM customArgument w = .ok arguments w ∧
        runCustom tag args w = called (handler.call arguments w.context) w := by
  have hsame : w.registry.get? tag = w.registry.get? tag := rfl
  rcases runCustom_alike (.refl w) hsame args with
    ⟨cause, hcause, hself, -⟩ | ⟨handler, arguments, h⟩
  · exact .inl ⟨cause, hcause, hself⟩
  · exact .inr ⟨handler, arguments, h.1, h.2.1, h.2.2.1⟩

/-- The tags of built-in effects are texts. -/
theorem requireHashable_of_ofTag? {tag : Value} {opcode : Opcode}
    (h : Opcode.ofTag? tag = some opcode) :
    tag.requireHashable = .ok () := by
  cases tag with
  | str s mark => rfl
  | _ => cases h

/-- Custom effects are looked for under tags that can be keys. -/
theorem requireHashable_of_has {registry : Registry} {tag : Value} {known : Bool}
    (h : registry.has tag = .ok known) : tag.requireHashable = .ok () := by
  cases hhash : tag.requireHashable with
  | ok _ => rfl
  | error e =>
    cases tag with
    | null => cases hhash
    | _ =>
      simp only [Registry.has, Registry.contains, hhash] at h
      cases h

section Act

variable {tag : Value}

theorem act_of_unhashable {e : Fault} (h : tag.requireHashable = .error e) (node : Descriptor)
    (args : List Descriptor) : act node tag args = throw (.fault e) := by
  rw [act, h]
  rfl

variable (htag : tag.requireHashable = .ok ())
include htag

theorem act_of_control {effect : Control} (h : Opcode.ofTag? tag = some (.control effect))
    (node : Descriptor) (args : List Descriptor) : act node tag args = begin args effect := by
  rw [act, htag, h]
  rfl

theorem act_of_leaf {effect : Leaf} (h : Opcode.ofTag? tag = some (.leaf effect))
    (node : Descriptor) (args : List Descriptor) :
    act node tag args = finishing (runLeaf effect args) := by
  rw [act, htag, h]
  rfl

theorem act_of_none (h : Opcode.ofTag? tag = none) (node : Descriptor) (args : List Descriptor)
    (w : World) :
    act node tag args w = match w.registry.has tag with
      | .error e => .error (.fault e) w
      | .ok true => finishing (runCustom tag args) w
      | .ok false => finishing (unhandled node tag) w := by
  have hact : act node tag args w =
      (Machine.lift (w.registry.has tag) >>= fun known =>
        if known then finishing (runCustom tag args) else finishing (unhandled node tag)) w := by
    rw [act, htag, h]
    rfl
  rw [hact]
  cases w.registry.has tag with
  | error e => rfl
  | ok known => cases known <;> rfl

end Act

/-- What performing an effect is: a built-in one, a custom one or one that nobody handles. -/
inductive ActCases (node : Descriptor) (tag : Value) (args : List Descriptor) (w : World) :
    EStateM.Result Stop World Move → Prop
  | unhashable {e : Fault} (h : tag.requireHashable = .error e) :
      ActCases node tag args w (.error (.fault e) w)
  | control {effect : Control} (htag : Opcode.ofTag? tag = some (.control effect)) :
      ActCases node tag args w (begin args effect w)
  | leaf {effect : Leaf} (htag : Opcode.ofTag? tag = some (.leaf effect)) :
      ActCases node tag args w (finishing (runLeaf effect args) w)
  | unfindable {e : Fault} (h : w.registry.has tag = .error e) :
      ActCases node tag args w (.error (.fault e) w)
  | unhandled : ActCases node tag args w (finishing (unhandled node tag) w)
  | custom (htag : Opcode.ofTag? tag = none) (hhas : w.registry.has tag = .ok true) :
      ActCases node tag args w (finishing (runCustom tag args) w)

theorem act_cases (node : Descriptor) (tag : Value) (args : List Descriptor) (w : World) :
    ActCases node tag args w (act node tag args w) := by
  cases hhashable : tag.requireHashable with
  | error e =>
    rw [act_of_unhashable hhashable]
    exact .unhashable hhashable
  | ok _ =>
    cases htag : Opcode.ofTag? tag with
    | some opcode =>
      cases opcode with
      | control effect =>
        rw [act_of_control hhashable htag]
        exact .control htag
      | leaf effect =>
        rw [act_of_leaf hhashable htag]
        exact .leaf htag
    | none =>
      rw [act_of_none hhashable htag]
      cases hhas : w.registry.has tag with
      | error e => exact .unfindable hhas
      | ok known =>
        cases known with
        | false => exact .unhandled
        | true => exact .custom htag hhas

namespace State

variable {s t : State}

theorem step_of_tooDeep (h : s.tooDeep = true) :
    s.step = some { s with focus := .stop (.fault .recursion) } :=
  if_pos h

theorem step_of_not_tooDeep (h : s.tooDeep = false) : s.step = s.next := if_neg (by simp [h])

/-- A state moves on as its focus says, and where that is an end, as the frame around it says. -/
inductive Moves : State → State → Prop
  | arrive (node : Descriptor) (frames : List Frame) (w : World) :
      Moves ⟨.evaluate node, frames, w⟩ (after frames (arrive node w))
  | act (node : Descriptor) (tag : Value) (args : List Descriptor) (frames : List Frame)
      (w : World) : Moves ⟨.perform node tag args, frames, w⟩ (after frames (act node tag args w))
  | resume (key? : Option String) (frame : Frame) (frames : List Frame) (w : World) :
      Moves ⟨.finish key?, frame :: frames, w⟩ (after frames (resume key? frame w))
  | unwind (cause : Stop) (frame : Frame) (frames : List Frame) (w : World) :
      Moves ⟨.stop cause, frame :: frames, w⟩ (after frames (unwind cause frame w))

theorem moves_of_next (h : s.next = some t) : s.Moves t := by
  obtain ⟨focus, frames, w⟩ := s
  cases focus with
  | evaluate node =>
    cases h
    exact .arrive node frames w
  | perform node tag args =>
    cases h
    exact .act node tag args frames w
  | finish key? =>
    cases frames with
    | nil => cases h
    | cons frame frames =>
      cases h
      exact .resume key? frame frames w
  | stop cause =>
    cases frames with
    | nil => cases h
    | cons frame frames =>
      cases h
      exact .unwind cause frame frames w

end State

theorem finishing_congr {m m' : Machine (Option String)} {w : World}
    {r : EStateM.Result Stop World (Option String)} (h : m w = r) (h' : m' w = r) :
    finishing m w = finishing m' w := by
  change EStateM.bind m _ w = EStateM.bind m' _ w
  rw [EStateM.bind, EStateM.bind, h, h']

namespace ClosedUnderActions

variable {alike : World → World → Prop} {writing : Bool} {P : ∀ ⦃α : Type⦄, Machine α → Prop}
variable (h : ClosedUnderActions alike writing P)
include h

theorem log (channel : Channel) (message : String) : P (Machine.log .debug channel message) :=
  h.note (Event.not_isUnhandled_of_level nofun)

theorem has_yielding (d : Descriptor) : P (yielding d) := h.bind (h.store d) fun _ => h.done _

theorem has_writeOutput (v : Value) : P (writeOutput v) := by
  unfold writeOutput
  split
  · exact h.note (Event.not_isUnhandled_output _)
  · exact h.fail _

theorem has_writeDiagnostic (parts : List Value) : P (writeDiagnostic parts) :=
  h.note (Event.not_isUnhandled_diagnostic _)

theorem has_putString (d? : Option Descriptor) : P (putString d?) := by
  cases d? with
  | none => exact h.done _
  | some d => exact h.bind (h.has_textOf d) fun _ => h.bind (h.has_writeOutput _) fun _ => h.done _

theorem has_debug (label? value? : Option Descriptor) : P (Evaluation.debug label? value?) :=
  h.bind (h.has_optionalText label?) fun _ => h.bind (h.has_renderOr _ value?) fun _ =>
    h.bind (h.has_writeDiagnostic _) fun _ => h.has_yielding _

theorem has_readFile (d? : Option Descriptor) : P (readFile d?) := by
  refine h.bind (h.has_pathOf _ d?) fun path => ?_
  exact h.read (fun hw => by rw [(h.looksLike hw).files]) fun _ => h.bind (h.lift _) fun _ =>
    h.has_yielding _

theorem has_writeText (path : FilePath) (contents : Value) : P (writeText path contents) := by
  unfold writeText
  split
  · refine h.read (fun hw => by simp only [(h.looksLike hw).files]) fun _ =>
      h.bind (h.lift _) fun files => ?_
    refine h.bind (h.setFiles files) fun _ => ?_
    split
    · exact h.fail _
    · exact h.done _
  · exact h.fail _

theorem has_readLine (hwait : P (throw .waiting : Machine (Option String))) : P readLine := by
  rw [readLine_eq]
  refine h.bind h.takeLine fun line? => ?_
  cases line? with
  | none => exact hwait
  | some answer => exact h.bind (h.lift answer) fun _ => h.has_yielding _

theorem has_define (name source : Value) : P (define name source) := by
  rw [define_eq]
  exact h.bind (h.enlist name source) fun outcome => h.bind (h.lift outcome) fun _ => h.done _

theorem has_expression (source : Value) : P (expression source) :=
  h.bind (h.lift _) fun _ => h.bind (h.lift _) fun _ => h.bind (h.lift _) fun _ => h.has_yielding _

/-- Only an effect that reads a line waits. -/
theorem has_runLeaf {effect : Leaf} (hwriting : effect.writesCells = true → writing = true)
    (hwait : effect = .readLine → P (throw .waiting : Machine (Option String)))
    (args : List Descriptor) :
    P (runLeaf effect args) := by
  cases effect with
  | produce => exact h.has_yielding _
  | raise => exact h.has_raise _
  | createCell => exact h.bind (h.addCell (hwriting rfl) _) fun _ => h.has_yielding _
  | readCell =>
    refine h.bind (h.literalOf _) fun key => ?_
    exact h.read (fun hw => by rw [(h.looksLike hw).cells]) fun _ => h.bind (h.lift _) fun _ =>
      h.has_yielding _
  | writeCell =>
    refine h.bind (h.literalOf _) fun key => ?_
    refine h.read (fun hw => by rw [(h.looksLike hw).cells]) fun _ =>
      h.bind (h.lift _) fun cells => ?_
    exact h.bind (h.setCells (hwriting rfl) cells) fun _ => h.done _
  | deleteCell =>
    refine h.bind (h.literalOf _) fun key => ?_
    refine h.read (fun hw => by rw [(h.looksLike hw).cells]) fun _ =>
      h.bind (h.lift _) fun deleted => ?_
    exact h.bind (h.setCells (hwriting rfl) deleted.2) fun _ => h.done _
  | print =>
    exact h.bind (h.mapM h.render args) fun _ => h.bind (h.has_writeDiagnostic _) fun _ => h.done _
  | putString => exact h.has_putString _
  | debug => exact h.has_debug _ _
  | readFile => exact h.has_readFile _
  | writeFile =>
    exact h.bind (h.has_pathOf _ _) fun path => h.bind (h.has_optionalText _) fun contents =>
      h.has_writeText path contents
  | readLine => exact h.has_readLine (hwait rfl)
  | environment =>
    refine h.bind (h.literalOf _) fun name => ?_
    exact h.read (fun hw => by rw [(h.looksLike hw).environ]) fun _ => h.has_yielding _
  | arguments => exact h.read (fun hw => by rw [(h.looksLike hw).argv]) fun _ => h.has_yielding _
  | exit => exact h.bind (h.literalOf _) fun _ => h.bind (h.lift _) fun _ => h.stop nofun
  | define =>
    exact h.bind (h.literalOf _) fun name => h.bind (h.literalOf _) fun source =>
      h.has_define name source
  | expression => exact h.bind (h.literalOf _) fun source => h.has_expression source

theorem has_changeCells {outcome : World → Except Fault Store.Cells} (hwriting : writing = true)
    (houtcome : ∀ {w w' : World}, alike w w' → outcome w' = outcome w) :
    P (modify fun w => w.changeCells (outcome w) : Machine PUnit) := by
  have hchange (o : Except Fault Store.Cells) : P (modify (·.changeCells o) : Machine PUnit) := by
    cases o with
    | ok cells => exact h.setCells hwriting cells
    | error e => exact h.done _
  change P (get >>= fun w => (modify (·.changeCells (outcome w)) : Machine PUnit))
  exact h.read (fun hw => by rw [houtcome hw]) fun w => hchange (outcome w)

theorem has_fulfil {request : Request} (hwriting : request.writesCells = true → writing = true) :
    P (modify (·.fulfil request) : Machine PUnit) := by
  cases request with
  | output text => exact h.note (Event.not_isUnhandled_output text)
  | diagnostic text => exact h.note (Event.not_isUnhandled_diagnostic text)
  | addResult d => exact h.bind (h.store d) fun _ => h.done _
  | addCell d => exact h.bind (h.addCell (hwriting rfl) d) fun _ => h.done _
  | setCell key d => exact h.has_changeCells (hwriting rfl) fun hw => by rw [(h.looksLike hw).cells]
  | deleteCell key =>
    exact h.has_changeCells (hwriting rfl) fun hw => by rw [(h.looksLike hw).cells]
  | define name source => exact h.bind (h.enlist name source) fun _ => h.done _
  | readLine => exact h.bind h.takeLine fun _ => h.done _
  | files files => exact h.setFiles files

theorem has_follow {reply : Reply}
    (hwriting : ∀ request ∈ reply.requests, request.writesCells = true → writing = true)
    (hwait : reply.answer = .error .waiting → P (throw .waiting : Machine Product)) :
    P (follow reply) := by
  have hrequests : P (reply.requests.forM fun request => modify (·.fulfil request)) :=
    h.forM fun request hrequest => h.has_fulfil (hwriting request hrequest)
  refine h.bind hrequests fun _ => ?_
  cases hanswer : reply.answer with
  | ok product => exact h.done product
  | error cause =>
    cases cause with
    | fault | exit => exact h.stop nofun
    | waiting => exact hwait hanswer

theorem has_produced (product : Product) : P (produced product) := by
  unfold produced
  split
  · exact h.done _
  · exact h.bind (h.lift _) fun _ => h.has_yielding _
  · exact h.has_yielding _

theorem has_called {reply : Reply}
    (hwriting : ∀ request ∈ reply.requests, request.writesCells = true → writing = true)
    (hwait : reply.answer = .error .waiting → P (throw .waiting : Machine Product)) :
    P (called reply) :=
  h.bind (h.has_follow hwriting hwait) h.has_produced

/-- Only effects that nobody handles look at strictness, and only they warn. -/
theorem has_unhandled
    (hstrict : ∀ {w w' : World}, alike w w' → w'.settings.strict = w.settings.strict)
    (hnote : ∀ e : Event, P (Machine.note e)) (node : Descriptor) (tag : Value) :
    P (unhandled node tag) := by
  refine h.bind (h.render node) fun text => ?_
  refine h.read (fun hw => by rw [hstrict hw]) fun w => ?_
  split
  · exact h.bind (h.fail _) fun _ => h.bind (hnote _) fun _ => h.done _
  · exact h.bind (hnote _) fun _ => h.done _

theorem has_finishing {m : Machine (Option String)} (hm : P m) : P (finishing m) :=
  h.bind hm fun _ => h.done _

/-- Only where a node is arrived at, the limit of the depth is looked at. -/
theorem has_arrive (hlimit : ∀ {w w' : World}, alike w w' →
      w'.settings.maxDepth = w.settings.maxDepth ∧ w'.depth = w.depth) (node : Descriptor) :
    P (arrive node) := by
  have hrest : P do
      let head ← Machine.resolve (·.effectOf node)
      Machine.log .debug .interpreter
        ("effect: " ++ head.1.display ++ " (" ++ toString head.2.length ++ " args)")
      modify fun w => { w with depth := w.depth + 1 }
      return (Focus.perform node head.1 head.2, [Frame.leave]) :=
    h.bind (h.resolve _) fun _ => h.bind (h.log _ _) fun _ => h.bind h.descend fun _ => h.done _
  refine h.read (fun hw => by rw [Settings.exceeded, Settings.exceeded, (hlimit hw).1,
    (hlimit hw).2]) fun w => ?_
  split
  · exact h.bind (h.fail _) fun _ => hrest
  · exact hrest

theorem has_handOver (continuation input : Descriptor) : P (handOver continuation input) := by
  refine h.bind (h.resolve _) fun resolved => h.bind (h.store _) fun _ =>
    h.bind (h.resolve _) fun next? => ?_
  split
  · exact h.done _
  · exact h.bind (h.render resolved) fun _ => h.bind (h.log _ _) fun _ => h.done _

theorem has_gathered (keys : List String) : P (gathered keys) :=
  h.bind (h.mapM h.has_referenceTo keys) fun _ => h.has_yielding _

theorem has_lastOf (keys : List String) : P (lastOf keys) := by
  unfold lastOf
  split
  · exact h.done _
  · exact h.bind (h.has_referenceTo _) fun _ => h.has_yielding _

theorem has_proceed {frame : List Descriptor → List String → Frame}
    {combine : List String → Machine (Option String)} (hcombine : ∀ keys, P (combine keys))
    (nodes : List Descriptor) (keys : List String) : P (proceed frame combine nodes keys) := by
  cases nodes with
  | nil => exact h.has_finishing (hcombine keys)
  | cons d rest => exact h.done _

theorem has_begin (args : List Descriptor) (effect : Control) : P (begin args effect) := by
  cases effect with
  | bind | recover => exact h.done _
  | gather => exact h.bind (h.has_members _) fun _ => h.has_proceed h.has_gathered _ _
  | block => exact h.bind (h.has_members _) fun _ => h.has_proceed h.has_lastOf _ _

theorem has_ascend (focus : Focus) : P (Evaluation.ascend focus) :=
  h.bind h.ascend fun _ => h.done _

theorem has_resume (key? : Option String) (frame : Frame) : P (resume key? frame) := by
  cases frame with
  | leave => exact h.has_ascend _
  | feed continuation? =>
    cases continuation? with
    | none => exact h.done _
    | some continuation => exact h.bind (h.has_inputFor key?) fun _ => h.has_handOver _ _
  | rescue => exact h.done _
  | gather => exact h.has_proceed h.has_gathered _ _
  | block => exact h.has_proceed h.has_lastOf _ _

theorem has_rescued (continuation? : Option Descriptor) (e : Fault) :
    P (rescued continuation? e) := by
  refine h.bind (h.log _ _) fun _ => ?_
  cases continuation? with
  | none => exact h.done _
  | some continuation => exact h.has_handOver _ _

theorem has_unwind (cause : Stop) (frame : Frame) : P (unwind cause frame) := by
  cases frame with
  | leave => exact h.has_ascend _
  | feed | gather | block => exact h.done _
  | rescue =>
    cases cause with
    | fault e => exact h.has_rescued _ e
    | exit | waiting => exact h.done _

end ClosedUnderActions

namespace ClosedUnderEffects

variable {alike : World → World → Prop} {writing : Bool} {P : ∀ ⦃α : Type⦄, Machine α → Prop}
variable (h : ClosedUnderEffects alike writing P)
include h

theorem throws {α : Type} (cause : Stop) : P (throw cause : Machine α) := by
  cases cause with
  | fault | exit => exact h.stop nofun
  | waiting => exact h.wait

/-- Handlers may look at all that a world shows them, so that only those are meant that alike worlds
look the same to. -/
theorem has_runCustom (hwriting : writing = true)
    (hcalls : ∀ {w w' : World}, alike w w' → ∀ (handler : Handler) (arguments : List Value),
      handler.call arguments w'.context = handler.call arguments w.context)
    {tag : Value} (htag : Opcode.ofTag? tag = none) (args : List Descriptor) :
      P (runCustom tag args) := by
  have hinvoke (arguments : List Value) : P (invoke tag arguments) := by
    refine h.read (f := fun w => Machine.lift (w.registry.find tag) >>= fun handler =>
      follow (handler.call arguments w.context)) (fun {w w'} hw => ?_) fun w => ?_
    · simp only [Registry.find, (h.looksLike hw).handlers htag, hcalls hw]
    · exact h.bind (h.lift _) fun handler => h.has_follow (fun _ _ _ => hwriting) fun _ => h.wait
  exact h.bind (h.mapM h.has_customArgument args) fun arguments =>
    h.bind (hinvoke arguments) h.has_produced

theorem has_act (hwriting : writing = true)
    (hcalls : ∀ {w w' : World}, alike w w' → ∀ (handler : Handler) (arguments : List Value),
      handler.call arguments w'.context = handler.call arguments w.context)
    {node : Descriptor} {tag : Value} {args : List Descriptor}
    (hunhandled : P (unhandled node tag)) :
    P (act node tag args) := by
  refine h.bind (h.lift _) fun _ => ?_
  split
  · exact h.has_begin args _
  · exact h.has_finishing (h.has_runLeaf (fun _ => hwriting) (fun _ => h.wait) args)
  · rename_i htag
    refine h.read (fun hw => by rw [(h.looksLike hw).has_eq htag]) fun _ =>
      h.bind (h.lift _) fun known => ?_
    split
    · exact h.has_finishing (h.has_runCustom hwriting hcalls htag args)
    · exact h.has_finishing hunhandled

/-- What an effect does in two alike worlds one machine does in both, and it has the property unless
nobody handles the effect. Only the handler that is called has to reply the same in both. -/
theorem acts {w w' : World} (hlike : w.LooksLike w') (node : Descriptor) (tag : Value)
    (args : List Descriptor)
    (hwriting : ∀ effect : Leaf, Opcode.ofTag? tag = some (.leaf effect) →
      effect.writesCells = true → writing = true)
    (hcalls : Opcode.ofTag? tag = none → w.registry.has tag = .ok true →
      ∀ handler, w.registry.get? tag = some handler → ∀ arguments,
        handler.call arguments w'.context = handler.call arguments w.context ∧
          ∀ request ∈ (handler.call arguments w.context).requests, request.writesCells = true →
            writing = true) :
    ∃ m, act node tag args w = m w ∧ act node tag args w' = m w' ∧
      (P m ∨ m = finishing (unhandled node tag)) := by
  cases hhashable : tag.requireHashable with
  | error e =>
    have hact := act_of_unhashable hhashable node args
    exact ⟨_, by rw [hact], by rw [hact], .inl (h.throws (.fault e))⟩
  | ok _ =>
    cases htag : Opcode.ofTag? tag with
    | some opcode =>
      cases opcode with
      | control effect =>
        have hact := act_of_control hhashable htag node args
        exact ⟨_, by rw [hact], by rw [hact], .inl (h.has_begin args effect)⟩
      | leaf effect =>
        have hact := act_of_leaf hhashable htag node args
        exact ⟨_, by rw [hact], by rw [hact],
          .inl (h.has_finishing (h.has_runLeaf (hwriting effect htag) (fun _ => h.wait) args))⟩
    | none =>
      rw [act_of_none hhashable htag, act_of_none hhashable htag, hlike.has_eq htag]
      cases hknown : w.registry.has tag with
      | error e => exact ⟨Machine.fail e, rfl, rfl, .inl (h.fail e)⟩
      | ok known =>
        cases known with
        | false => exact ⟨_, rfl, rfl, .inr rfl⟩
        | true =>
          rcases runCustom_alike hlike (hlike.handlers htag) args with
            ⟨cause, -, hself, hother⟩ | ⟨handler, arguments, hget, -, hself, hother⟩
          · exact ⟨finishing (throw cause), finishing_congr hself rfl, finishing_congr hother rfl,
              .inl (h.has_finishing (h.throws cause))⟩
          · obtain ⟨hsame, hcells⟩ := hcalls htag hknown handler hget arguments
            rw [hsame] at hother
            exact ⟨finishing (called (handler.call arguments w.context)), finishing_congr hself rfl,
              finishing_congr hother rfl,
              .inl (h.has_finishing (h.has_called hcells fun _ => h.wait))⟩

omit h in
/-- A step is a machine with the property, carried out in the world of the state. -/
theorem next (h : ClosedUnderEffects Eq true P)
    (hnote : ∀ e : Event, P (Machine.note e)) {s t : State} (hstep : s.next = some t) :
    ∃ m frames, P m ∧ t = .after frames (m s.world) := by
  cases State.moves_of_next hstep with
  | arrive node => exact ⟨_, _, h.has_arrive (fun heq => heq ▸ ⟨rfl, rfl⟩) node, rfl⟩
  | act node tag args =>
    have hunhandled : P (unhandled node tag) :=
      h.has_unhandled (fun heq => by rw [heq]) hnote node tag
    exact ⟨_, _, h.has_act rfl (fun heq _ _ => by rw [heq]) hunhandled, rfl⟩
  | resume key? frame => exact ⟨_, _, h.has_resume key? frame, rfl⟩
  | unwind cause frame => exact ⟨_, _, h.has_unwind cause frame, rfl⟩

end ClosedUnderEffects

end Evaluation

end EffectTree
