import EffectTree.Proofs.EffectStages

/-!
# Effects that are done or not done

An effect that evaluates no other effects first finds out everything that can go wrong and changes
the world then. So where it fails or leaves the program, results, slots, cells and handlers are
those of before, and nothing has been written; only a file can have been emptied, and a line of the
input can have been taken.
-/
namespace EffectTree

namespace Handler

/-- A handler that only answers and asks for no changes. -/
def Passive (handler : Handler) : Prop := ∀ args c, (handler.call args c).requests = []

theorem passive_compiled (body : Expression.Compiled) : (compiled body).Passive := fun _ _ => rfl

theorem passive_ofFunction (apply : List Value → List String → Except Fault Product) :
    (ofFunction apply).Passive :=
  fun _ _ => rfl

end Handler

namespace Evaluation

/-- Worlds that are the same but for the files and the input. -/
def World.Intact (w w' : World) : Prop := w' = { w with files := w'.files, input := w'.input }

theorem World.Intact.trans {w₁ w₂ w₃ : World} (h₁ : w₁.Intact w₂) (h₂ : w₂.Intact w₃) :
    w₁.Intact w₃ := by
  unfold Intact at h₁ h₂ ⊢
  rw [h₁] at h₂
  exact h₂

/-- A machine that changes nothing but files and the input, however it ends. -/
def Inspects {α : Type} (m : Machine α) : Prop := ∀ w : World, w.Intact (worldAfter (m w))

/-- A machine that has changed nothing else where it stops. -/
def Atomic {α : Type} (m : Machine α) : Prop :=
  ∀ ⦃w w' : World⦄ ⦃cause : Stop⦄, m w = .error cause w' → w.Intact w'

/-- A machine that does not stop. -/
def Succeeds {α : Type} (m : Machine α) : Prop := ∀ w : World, ∃ a w', m w = .ok a w'

variable {α β : Type}

namespace Inspects

theorem done (a : α) : Inspects (pure a : Machine α) := fun _ => rfl

theorem stop (cause : Stop) : Inspects (throw cause : Machine α) := fun _ => rfl

theorem bind {m : Machine α} {f : α → Machine β} (hm : Inspects m) (hf : ∀ a, Inspects (f a)) :
    Inspects (m >>= f) :=
  worldAfter_bind (R := World.Intact) .trans hm hf

theorem closed : ClosedUnderReading Eq @Inspects where
  looksLike := .of_eq
  done := done
  stop _ := stop _
  bind := bind
  read _ hf w := hf w w

theorem atomic {m : Machine α} (hm : Inspects m) : Atomic m := by
  intro w w' cause h
  have hw := hm w
  rw [h] at hw
  exact hw

theorem andThen {m : Machine α} {f : α → Machine β} (hm : Inspects m) (hf : ∀ a, Atomic (f a)) :
    Atomic (m >>= f) := by
  intro w w' cause h
  have hw := hm w
  cases hr : m w with
  | ok a u =>
    rw [hr] at hw
    rw [bind_of_ok hr] at h
    exact hw.trans (hf a h)
  | error e u =>
    rw [hr] at hw
    rw [bind_of_error hr] at h
    cases h
    exact hw

end Inspects

namespace Succeeds

theorem done (a : α) : Succeeds (pure a : Machine α) := fun w => ⟨a, w, rfl⟩

theorem bind {m : Machine α} {f : α → Machine β} (hm : Succeeds m) (hf : ∀ a, Succeeds (f a)) :
    Succeeds (m >>= f) := by
  intro w
  obtain ⟨a, w', h⟩ := hm w
  rw [bind_of_ok h]
  exact hf a w'

theorem change (f : World → World) : Succeeds (modify f : Machine PUnit) := fun w => ⟨_, f w, rfl⟩

theorem answer (f : World → α × World) : Succeeds (modifyGet f : Machine α) :=
  fun w => ⟨(f w).1, (f w).2, rfl⟩

theorem atomic {m : Machine α} (hm : Succeeds m) : Atomic m := by
  intro w w' cause h
  obtain ⟨a, u, hu⟩ := hm w
  cases hu.symm.trans h

end Succeeds

theorem Atomic.stages : ClosedUnderStages @Inspects Succeeds Atomic where
  looks := Inspects.closed
  setFiles _ _ := rfl
  takeLine _ := rfl
  none := .done _
  yields _ := (Succeeds.answer _).bind fun _ => .done _
  change _ hm := (Succeeds.change _).bind fun _ => hm
  addCell _ _ hf := (Succeeds.answer _).bind hf
  settled := Succeeds.atomic
  stop cause := (Inspects.stop cause).atomic
  after := Inspects.andThen

/-- A custom effect changes nothing where it fails if its handler asks for nothing, as those do that
programs define. -/
theorem runCustom_atomic {tag : Value} {args : List Descriptor} {w w' : World} {cause : Stop}
    (hpassive : ∀ handler, w.registry.get? tag = some handler → handler.Passive)
    (h : runCustom tag args w = .error cause w') : w.Intact w' := by
  rcases runCustom_cases tag args w with ⟨_, -, hstops⟩ | ⟨handler, arguments, hget, -, hcalled⟩
  · cases h.symm.trans hstops
    exact rfl
  · have hatomic : Atomic (called (handler.call arguments w.context)) :=
      Atomic.stages.has_called (hpassive handler hget arguments w.context)
    exact hatomic (hcalled.symm.trans h)

/-- An effect that evaluates no others and fails or exits has changed nothing: no result or slot has
been added, no cell or handler set or deleted, nothing written or logged. What a handler of the host
changes before it fails is its own. -/
theorem failing_effect_changes_nothing {eval : Evaluator} {node : Descriptor} {tag : Value}
    {args : List Descriptor}
    {w w' : World} {cause : Stop} (hflat : ∀ effect, Opcode.ofTag? tag ≠ some (.control effect))
    (hpassive : ∀ handler, Opcode.ofTag? tag = none → w.registry.get? tag = some handler →
      handler.Passive)
    (h : dispatch eval node tag args w = .error cause w') : w.Intact w' := by
  unfold dispatch at h
  cases hhash : tag.requireHashable with
  | error e =>
    rw [hhash] at h
    cases h
    exact rfl
  | ok _ =>
    rw [hhash] at h
    cases htag : Opcode.ofTag? tag with
    | some opcode =>
      cases opcode with
      | control effect => exact absurd htag (hflat effect)
      | leaf effect =>
        rw [htag] at h
        exact (Atomic.stages.has_runLeaf effect args : Atomic _) h
    | none =>
      rw [htag] at h
      change (Machine.lift (w.registry.has tag) >>= fun known =>
        if known then runCustom tag args else unhandled node tag) w = .error cause w' at h
      cases hknown : w.registry.has tag with
      | error e =>
        rw [hknown] at h
        cases h
        exact rfl
      | ok known =>
        rw [hknown] at h
        cases known with
        | true => exact runCustom_atomic (fun handler => hpassive handler htag) h
        | false => exact (Atomic.stages.has_unhandled node tag : Atomic _) h

/-- A label and a value whose definition is missing: the label is found before the value fails. -/
def debugMissing : List Descriptor := [.literal (.ofStr "label"), .ref (.ofStr "missing")]

theorem debugMissing_changes_nothing : ∃ cause w',
    dispatch (evaluateAt 0) .unknown (.ofStr "Debug") debugMissing {} = .error cause w' ∧
      World.Intact {} w' := by
  have hflat : ∀ effect, Opcode.ofTag? (.ofStr "Debug") ≠ some (.control effect) := by
    intro effect h
    cases h
  obtain ⟨cause, w', h⟩ : ∃ cause w',
      dispatch (evaluateAt 0) .unknown (.ofStr "Debug") debugMissing {} = .error cause w' :=
        ⟨_, _, rfl⟩
  exact ⟨cause, w', h, failing_effect_changes_nothing hflat (fun _ htag => by cases htag) h⟩

end Evaluation

end EffectTree
