import EffectTree.Proofs.Reaching

/-!
# The stages of an effect

An effect that evaluates no others looks at the world first. What it looks at can stop it; only when
nothing can go wrong any more does it settle, by changing the world and giving a result or none.
-/
namespace EffectTree.Evaluation

/-- Properties of machines that look, of those that settle and of whole effects, which are put
together from these. -/
structure ClosedUnderStages (Looks : ∀ ⦃α : Type⦄, Machine α → Prop)
    (Settles Ends : Machine (Option String) → Prop) :
    Prop where
  looks : ClosedUnderReading Eq Looks
  /-- A file may have been emptied, and a line taken, when something goes wrong. -/
  setFiles : ∀ files : Files, Looks (modify ({ · with files }) : Machine PUnit)
  takeLine : Looks takeLine
  none : Settles (pure none)
  yields : ∀ d : Descriptor, Settles (yielding d)
  change : ∀ {f : World → World} {m : Machine (Option String)},
    (∀ w : World, w.Reaches (f w)) → Settles m → Settles (modify f >>= fun _ => m)
  addCell : ∀ (d : Descriptor) {f : String → Machine (Option String)},
    (∀ key, Settles (f key)) → Settles (modifyGet (·.addCell d) >>= f)
  settled : ∀ {m : Machine (Option String)}, Settles m → Ends m
  stop : ∀ cause : Stop, Ends (throw cause)
  after : ∀ {α : Type} {m : Machine α} {f : α → Machine (Option String)}, Looks m →
    (∀ a, Ends (f a)) → Ends (m >>= f)

namespace ClosedUnderStages

variable {Looks : ∀ ⦃α : Type⦄, Machine α → Prop} {Settles Ends : Machine (Option String) → Prop}
    {α : Type}
variable (h : ClosedUnderStages Looks Settles Ends)
include h

theorem read {f : World → Machine (Option String)} (hf : ∀ w, Ends (f w)) : Ends (get >>= f) :=
  have hget : Looks (get >>= pure : Machine World) :=
    h.looks.read (fun hw => by rw [hw]) h.looks.done
  h.after hget hf

theorem note (e : Event) {m : Machine (Option String)} (hm : Settles m) :
    Settles (Machine.note e >>= fun _ => m) :=
  h.change (fun w => .single (.note w e)) hm

theorem has_raise (d? : Option Descriptor) : Ends (raise d?) := by
  cases d? with
  | none => exact h.stop _
  | some d =>
    exact h.after (h.looks.literal d) fun _ => h.after (h.looks.render d) fun _ => h.stop _

theorem has_putString (d? : Option Descriptor) : Ends (putString d?) := by
  cases d? with
  | none => exact h.settled h.none
  | some d =>
    refine h.after (h.looks.has_textOf d) fun v => ?_
    unfold writeOutput
    split
    · exact h.settled (h.note _ h.none)
    · exact h.after (h.looks.fail _) fun _ => h.settled h.none

theorem has_debug (label? value? : Option Descriptor) : Ends (debug label? value?) :=
  h.after (h.looks.has_optionalText label?) fun _ =>
    h.after (h.looks.has_renderOr _ value?) fun _ =>
    h.settled (h.note _ (h.yields _))

theorem has_readFile (d? : Option Descriptor) : Ends (readFile d?) :=
  h.after (h.looks.has_pathOf _ d?) fun _ => h.read fun _ => h.after (h.looks.lift _) fun _ =>
    h.settled (h.yields _)

theorem has_writeText (path : FilePath) (contents : Value) : Ends (writeText path contents) := by
  unfold writeText
  split
  · refine h.read fun w => h.after (h.looks.lift _) fun files =>
      h.after (h.setFiles files) fun _ => ?_
    split
    · exact h.stop _
    · exact h.settled h.none
  · exact h.stop _

theorem has_readLine : Ends readLine := by
  rw [readLine_eq]
  refine h.after h.takeLine fun line? => ?_
  cases line? with
  | none => exact h.stop _
  | some answer => exact h.after (h.looks.lift answer) fun _ => h.settled (h.yields _)

theorem has_define (name source : Value) : Ends (define name source) := by
  have hdefine : define name source = get >>= fun w =>
    Machine.lift (w.registry.define name source) >>= fun defined =>
      modify (·.changeRegistry (.ok defined)) >>= fun _ => pure Option.none := by
    rw [define_eq]
    funext w
    change (Machine.lift ((w.registry.define name source).map fun _ => ()) >>= fun _ =>
      pure Option.none)
      (w.changeRegistry (w.registry.define name source)) =
        (Machine.lift (w.registry.define name source) >>= _) w
    cases w.registry.define name source <;> rfl
  rw [hdefine]
  exact h.read fun w => h.after (h.looks.lift _) fun defined =>
    h.settled (h.change (fun w => w.changeRegistry_reaches (.ok defined)) h.none)

theorem has_expression (source : Value) : Ends (expression source) :=
  h.after (h.looks.lift _) fun _ => h.after (h.looks.lift _) fun _ =>
    h.after (h.looks.lift _) fun _ =>
    h.settled (h.yields _)

theorem has_runLeaf (effect : Leaf) (args : List Descriptor) : Ends (runLeaf effect args) := by
  cases effect with
  | produce => exact h.settled (h.yields _)
  | raise => exact h.has_raise _
  | createCell => exact h.settled (h.addCell _ fun _ => h.yields _)
  | readCell =>
    exact h.after (h.looks.literalOf _) fun _ => h.read fun _ => h.after (h.looks.lift _) fun _ =>
      h.settled (h.yields _)
  | writeCell =>
    exact h.after (h.looks.literalOf _) fun _ => h.read fun _ =>
      h.after (h.looks.lift _) fun cells =>
      h.settled (h.change (fun w => .single (.cells w cells)) h.none)
  | deleteCell =>
    exact h.after (h.looks.literalOf _) fun _ => h.read fun _ =>
      h.after (h.looks.lift _) fun deleted =>
      h.settled (h.change (fun w => .single (.cells w deleted.2)) h.none)
  | print => exact h.after (h.looks.mapM h.looks.render args) fun _ => h.settled (h.note _ h.none)
  | putString => exact h.has_putString _
  | debug => exact h.has_debug _ _
  | readFile => exact h.has_readFile _
  | writeFile =>
    exact h.after (h.looks.has_pathOf _ _) fun path => h.after (h.looks.has_optionalText _)
      fun contents =>
      h.has_writeText path contents
  | readLine => exact h.has_readLine
  | environment =>
    exact h.after (h.looks.literalOf _) fun _ => h.read fun _ => h.settled (h.yields _)
  | arguments => exact h.read fun _ => h.settled (h.yields _)
  | exit => exact h.after (h.looks.literalOf _) fun _ => h.after (h.looks.lift _) fun _ => h.stop _
  | define =>
    exact h.after (h.looks.literalOf _) fun name => h.after (h.looks.literalOf _) fun source =>
      h.has_define name source
  | expression => exact h.after (h.looks.literalOf _) fun source => h.has_expression source

/-- What follows a handler that asks for nothing. -/
theorem has_called {reply : Reply} (hreply : reply.requests = []) : Ends (called reply) := by
  have hcalled : called reply = Machine.accept reply.answer >>= produced := by
    unfold called follow
    rw [hreply]
    rfl
  rw [hcalled]
  cases reply.answer with
  | error cause => exact h.stop cause
  | ok product =>
    change Ends (produced product)
    unfold produced
    split
    · exact h.settled h.none
    · exact h.after (h.looks.lift _) fun _ => h.settled (h.yields _)
    · exact h.settled (h.yields _)

theorem has_unhandled (node : Descriptor) (tag : Value) : Ends (unhandled node tag) := by
  refine h.after (h.looks.render node) fun text => h.read fun w => ?_
  split
  · exact h.after (h.looks.fail _) fun _ => h.settled (h.note _ h.none)
  · exact h.settled (h.note _ h.none)

end ClosedUnderStages
end EffectTree.Evaluation
