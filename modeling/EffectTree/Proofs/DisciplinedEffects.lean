import EffectTree.Evaluation.Stepwise
import EffectTree.Proofs.Discipline
import EffectTree.Proofs.ExpressionFaults
import EffectTree.Proofs.Reaching

/-!
# Effects under a discipline

If the definitions, the slots and the cells of a world keep to a discipline, then so do those of the
world that an effect leaves behind, and each result that it adds mentions only what was permitted
before. The effects are treated one by one; the steps of an evaluation follow from them.
-/
namespace EffectTree

/-- What a handler may give back: a value of any kind, or a descriptor that keeps to the
discipline. -/
def Discipline.AllowsProduct (D : Discipline) (keys : Set String) : Product → Prop
  | .value _ => True
  | .descriptor d => D.Allows keys d

/-- What a handler may ask for: anything but descriptors that do not keep to the discipline. -/
def Discipline.AllowsRequest (D : Discipline) (keys : Set String) : Evaluation.Request → Prop
  | .addResult d | .addCell d | .setCell _ d => D.Allows keys d
  | _ => True

/-- The reasons for which an evaluation can stop. -/
def Discipline.Bears (D : Discipline) : Evaluation.Stop → Prop
  | .fault e => D.Admits e
  | .exit _ | .waiting => True

/-- A handler that asks for nothing else and gives nothing else back, whatever results are there. -/
def Discipline.Binds (D : Discipline) (handler : Handler) : Prop :=
  ∀ keys args c, (∀ request ∈ (handler.call args c).requests, D.AllowsRequest keys request) ∧
    Ends (D.AllowsProduct keys) D.Bears (handler.call args c).answer

/-- A compiled handler asks for nothing and gives back values. -/
theorem Discipline.binds_compiled {D : Discipline} (body : Expression.Compiled) :
    D.Binds (.compiled body) := by
  intro keys args c
  refine ⟨fun _ h => absurd h List.not_mem_nil, ?_⟩
  have hcall := ends_of_ofValues (D := D)
    (Expression.call_ofValues body [.ofList args, .context c.text])
  simp only [Handler.call, Reply.ofExcept]
  cases hvalue : body.call [.ofList args, .context c.text] with
  | ok v => trivial
  | error e =>
    rw [hvalue] at hcall
    exact hcall

/-- A registry with no handlers but those that programs define. -/
def Registry.Compiled (registry : Registry) : Prop :=
  ∀ entry ∈ registry.entries, ∃ body, entry.2 = .compiled body

namespace Evaluation

/-- A world with nothing but descriptors of one kind for evaluation to find, and no handlers but
those that programs define. -/
structure World.HasOnly (w : World) (P : Descriptor → Prop) : Prop where
  definitions : ∀ entry ∈ w.resolver.definitions, P entry.2
  slots : ∀ entry ∈ w.resolver.slots, P entry.2
  cells : ∀ entry ∈ w.cells.entries, P entry.2
  handlers : w.registry.Compiled

/-- The keys of the results that are there, each with its slot. -/
def World.known (w : World) : Set String :=
  {key | key ∈ w.results.keys ∧ (Table.get? w.resolver.slots key).isSome}

namespace World

theorem changeCells_depth (w : World) (outcome : Except Fault Store.Cells) :
    (w.changeCells outcome).depth = w.depth := by
  cases outcome <;> rfl

theorem changeRegistry_depth (w : World) (outcome : Except Fault (Registry × List LogRecord)) :
    (w.changeRegistry outcome).depth = w.depth := by
  cases outcome <;> rfl

theorem fulfil_depth (w : World) (request : Request) : (w.fulfil request).depth = w.depth := by
  cases request with
  | setCell | deleteCell => exact changeCells_depth w _
  | define => exact changeRegistry_depth w _
  | _ => rfl

theorem mem_known_addResult (w : World) (d : Descriptor) :
    (w.addResult d).1 ∈ (w.addResult d).2.known := by
  constructor
  · simp [addResult, Store.Results.add, Store.Results.keys, Table.keys]
  · simp [addResult]

theorem known_addResult (w : World) (d : Descriptor) : w.known ⊆ (w.addResult d).2.known := by
  rintro key ⟨hkey, hslot⟩
  constructor
  · simp only [addResult, Store.Results.add, Store.Results.keys, Table.keys, List.map_append,
      List.mem_append]
    exact .inl hkey
  · by_cases h : key = (w.addResult d).1
    · exact h ▸ (mem_known_addResult w d).2
    · change (Table.get? (w.resolver.slots.put (w.addResult d).1 (Store.Results.slot d))
        key).isSome = true
      rwa [Table.get?_put_ne _ _ h]

end World

end Evaluation

open Evaluation

namespace Discipline

variable (D : Discipline)

/-- The definitions, the slots and the cells keep to the discipline, and the handlers do. -/
structure Holds (w : World) : Prop where
  definitions : ∀ entry ∈ w.resolver.definitions, D.Allows w.known entry.2
  slots : ∀ entry ∈ w.resolver.slots, D.Allows w.known entry.2
  cells : ∀ entry ∈ w.cells.entries, D.Allows w.known entry.2
  handlers : ∀ entry ∈ w.registry.entries, D.Binds entry.2

/-- Results that are added one after another, each of which keeps to the discipline before it is
there. -/
def Layered : List (String × Descriptor) → List (String × Descriptor) → Prop
  | _, [] => True
  | before, (key, d) :: added =>
    D.Allows {k | k ∈ Table.keys before} d ∧ Layered (before ++ [(key, d)]) added

/-- A world in which the discipline holds and all results are still there, those added in layers. -/
structure Follows (w w' : World) : Prop where
  holds : D.Holds w'
  settings : w'.settings = w.settings
  known : w.known ⊆ w'.known
  added : ∃ added, w'.results.entries = w.results.entries ++ added ∧
    D.Layered w.results.entries added
  results : ∀ entry ∈ w'.results.entries, entry ∈ w.results.entries ∨ D.Allows w'.known entry.2

/-- A machine that leaves a following world behind at the same depth, and gives what it is meant
to. -/
def Runs {α : Type} (P : α → World → Prop) (m : Machine α) (w : World) : Prop :=
  match m w with
  | .ok a w' => D.Follows w w' ∧ w'.depth = w.depth ∧ P a w'
  | .error cause w' => D.Follows w w' ∧ w'.depth = w.depth ∧ D.Bears cause

/-- An effect whose result, if it has one, is there. -/
abbrev Yields (m : Machine (Option String)) (w : World) : Prop :=
  D.Runs (fun key? w' => ∀ key ∈ key?, key ∈ w'.known) m w

variable {D} {w w' w'' : World} {d : Descriptor}

theorem holds_of_hasOnly {P : Descriptor → Prop} (hP : ∀ d, P d → D.Allows w.known d)
    (hw : w.HasOnly P) :
    D.Holds w where
  definitions entry hentry := hP _ (hw.definitions entry hentry)
  slots entry hentry := hP _ (hw.slots entry hentry)
  cells entry hentry := hP _ (hw.cells entry hentry)
  handlers entry hentry := by
    obtain ⟨body, hbody⟩ := hw.handlers entry hentry
    rw [hbody]
    exact binds_compiled body

theorem Holds.governs (hw : D.Holds w) : D.Governs w.known w.resolver :=
  ⟨hw.definitions, hw.slots, fun _ h => h.2⟩

theorem layered_append {before xs ys : List (String × Descriptor)} :
    D.Layered before (xs ++ ys) ↔ D.Layered before xs ∧ D.Layered (before ++ xs) ys := by
  induction xs generalizing before with
  | nil => simp [Layered]
  | cons entry xs ih =>
    obtain ⟨key, d⟩ := entry
    simp [Layered, ih, and_assoc]

theorem Follows.refl (hw : D.Holds w) : D.Follows w w :=
  ⟨hw, rfl, subset_rfl, ⟨[], by simp, trivial⟩, fun _ => .inl⟩

theorem Follows.trans (h : D.Follows w w') (h' : D.Follows w' w'') : D.Follows w w'' := by
  refine ⟨h'.holds, h'.settings.trans h.settings, h.known.trans h'.known, ?_,
    fun entry hentry => ?_⟩
  · obtain ⟨xs, hxs, hlayered⟩ := h.added
    obtain ⟨ys, hys, hlayered'⟩ := h'.added
    rw [hxs] at hys hlayered'
    exact ⟨xs ++ ys, by rw [hys, List.append_assoc], layered_append.mpr ⟨hlayered, hlayered'⟩⟩
  · rcases h'.results entry hentry with hold | hnew
    · exact (h.results entry hold).imp_right (.mono h'.known)
    · exact .inr hnew

/-- Cells and handlers may be exchanged for others that keep to the discipline. -/
theorem Follows.of_eq (hw : D.Holds w) (hresolver : w'.resolver = w.resolver)
    (hresults : w'.results = w.results) (hsettings : w'.settings = w.settings)
    (hcells : ∀ entry ∈ w'.cells.entries, D.Allows w.known entry.2)
    (hhandlers : ∀ entry ∈ w'.registry.entries, D.Binds entry.2) : D.Follows w w' := by
  have hknown : w'.known = w.known := by rw [World.known, World.known, hresolver, hresults]
  refine ⟨⟨?_, ?_, ?_, hhandlers⟩, hsettings, hknown.superset, ⟨[], by simp [hresults], trivial⟩,
    fun entry h => .inl (hresults ▸ h)⟩
  · rw [hknown, hresolver]
    exact hw.definitions
  · rw [hknown, hresolver]
    exact hw.slots
  · rw [hknown]
    exact hcells

theorem Follows.note (hw : D.Holds w) (e : Event) : D.Follows w (w.note e) :=
  .of_eq hw rfl rfl rfl hw.cells hw.handlers

theorem Follows.addResult (hw : D.Holds w) (hd : D.Allows w.known d) :
    D.Follows w (w.addResult d).2 := by
  have hknown := World.known_addResult w d
  refine ⟨⟨fun entry h => (hw.definitions entry h).mono hknown, fun entry h => ?_,
    fun entry h => (hw.cells entry h).mono hknown, hw.handlers⟩, rfl, hknown, ⟨[_], rfl, ?_⟩,
      fun entry h => ?_⟩
  · rcases Table.mem_put h with h | rfl
    · exact (hw.slots entry h).mono hknown
    · exact (allows_record (by simpa using hd)).mono hknown
  · exact ⟨hd.mono fun key hkey => hkey.1, trivial⟩
  · refine (List.mem_append.mp h).imp_right fun h => ?_
    rw [List.mem_singleton.mp h]
    exact hd.mono hknown

theorem mem_putEntry {key : Value} {entry : Value × Descriptor}
    {entries : List (Value × Descriptor)} (h : entry ∈ Store.Cells.putEntry key d entries) :
    entry ∈ entries ∨ entry.2 = d := by
  induction entries with
  | nil => exact .inr (by rw [List.mem_singleton.mp h])
  | cons first rest ih =>
    obtain ⟨k, old⟩ := first
    rw [Store.Cells.putEntry] at h
    split at h
    · rcases List.mem_cons.mp h with rfl | h
      · exact .inr rfl
      · exact .inl (List.mem_cons_of_mem _ h)
    · rcases List.mem_cons.mp h with rfl | h
      · exact .inl (List.mem_cons_self ..)
      · exact (ih h).imp_left (List.mem_cons_of_mem _)

theorem Follows.putCell (hw : D.Holds w) (hd : D.Allows w.known d) (key : Value) :
    D.Follows w { w with cells := w.cells.put key d } := by
  refine .of_eq hw rfl rfl rfl (fun entry h => ?_) hw.handlers
  rcases mem_putEntry h with h | h
  · exact hw.cells entry h
  · rw [h]
    exact hd

theorem Follows.addCell (hw : D.Holds w) (hd : D.Allows w.known d) : D.Follows w (w.addCell d).2 :=
  .of_eq hw rfl rfl rfl (putCell hw hd (.ofStr (w.addCell d).1)).holds.cells hw.handlers

theorem Follows.changeCells (hw : D.Holds w) {outcome : Except Fault Store.Cells}
    (h : Ends (fun cells => ∀ entry ∈ cells.entries, D.Allows w.known entry.2) D.Admits outcome) :
    D.Follows w (w.changeCells outcome) := by
  cases outcome with
  | ok cells => exact .of_eq hw rfl rfl rfl h hw.handlers
  | error e => exact .refl hw

theorem Follows.changeRegistry (hw : D.Holds w) {outcome : Except Fault (Registry × List LogRecord)}
    (h : Ends (fun made => ∀ entry ∈ made.1.entries, D.Binds entry.2) D.Admits outcome) :
    D.Follows w (w.changeRegistry outcome) := by
  cases outcome with
  | ok made => exact .of_eq hw rfl rfl rfl hw.cells h
  | error e => exact .refl hw

namespace Runs

open Evaluation

variable {α β : Type} {P : α → World → Prop} {Q : β → World → Prop}

theorem done (hw : D.Holds w) {a : α} (h : P a w) : D.Runs P (pure a) w := ⟨.refl hw, rfl, h⟩

theorem stop (hw : D.Holds w) {cause : Stop} (h : D.Bears cause) :
    D.Runs P (throw cause : Machine α) w :=
  ⟨.refl hw, rfl, h⟩

theorem fail (hw : D.Holds w) {e : Fault} (h : D.Admits e) :
    D.Runs P (Machine.fail e : Machine α) w := stop hw h

/-- A machine that does in one world what another does in a world that follows. -/
theorem of_follows {m m' : Machine α} (h : D.Follows w w') (hdepth : w'.depth = w.depth)
    (hm : D.Runs P m' w') (heq : m w = m' w') : D.Runs P m w := by
  unfold Runs at *
  rw [heq]
  split at hm <;> exact ⟨h.trans hm.1, hm.2.1.trans hdepth, hm.2.2⟩

theorem worldAfter {m : Machine α} (hm : D.Runs P m w) :
    D.Follows w (worldAfter (m w)) ∧ (Evaluation.worldAfter (m w)).depth = w.depth := by
  unfold Runs at hm
  split at hm <;> rename_i h <;> rw [h] <;> exact ⟨hm.1, hm.2.1⟩

theorem bind {m : Machine α} {f : α → Machine β} (hm : D.Runs P m w)
    (hf : ∀ a w', D.Follows w w' → P a w' → D.Runs Q (f a) w') : D.Runs Q (m >>= f) w := by
  unfold Runs at hm
  cases h : m w with
  | ok a w' =>
    rw [h] at hm
    exact of_follows hm.1 hm.2.1 (hf a w' hm.1 hm.2.2) (bind_of_ok h)
  | error cause w' =>
    rw [h] at hm
    exact of_follows hm.1 hm.2.1 (stop hm.1.holds hm.2.2) (bind_of_error h)

theorem orElseFault {m : Machine α} {handle : Fault → Machine α} (hm : D.Runs P m w)
    (hhandle : ∀ e w', D.Follows w w' → w'.depth = w.depth → D.Admits e → D.Runs P (handle e) w') :
    D.Runs P (m.orElseFault handle) w := by
  unfold Runs at hm
  cases h : m w with
  | ok a w' =>
    rw [h] at hm
    exact of_follows hm.1 hm.2.1 (done hm.1.holds hm.2.2) (by rw [Machine.orElseFault, h]; rfl)
  | error cause w' =>
    rw [h] at hm
    cases cause with
    | exit | waiting =>
      exact of_follows hm.1 hm.2.1 (stop hm.1.holds hm.2.2) (by rw [Machine.orElseFault, h]; rfl)
    | fault e =>
      exact of_follows hm.1 hm.2.1 (hhandle e w' hm.1 hm.2.1 hm.2.2)
        (by rw [Machine.orElseFault, h])

theorem nested {m : Machine (Option String)} (hw : D.Holds w)
    (hm : D.Yields m { w with depth := w.depth + 1 }) :
    D.Yields (Machine.nested m) w := by
  have hdown : D.Follows w { w with depth := w.depth + 1 } :=
    .of_eq hw rfl rfl rfl hw.cells hw.handlers
  unfold Yields Runs Machine.nested at *
  have hup {w' : World} (h : D.Holds w') : D.Follows w' { w' with depth := w'.depth - 1 } :=
    .of_eq h rfl rfl rfl h.cells h.handlers
  cases h : m { w with depth := w.depth + 1 } with
  | ok key? w' =>
    rw [h] at hm
    exact ⟨hdown.trans (hm.1.trans (hup hm.1.holds)), congrArg (· - 1) hm.2.1, hm.2.2⟩
  | error cause w' =>
    rw [h] at hm
    exact ⟨hdown.trans (hm.1.trans (hup hm.1.holds)), congrArg (· - 1) hm.2.1, hm.2.2⟩

theorem mono {P' : α → World → Prop} {m : Machine α} (hm : D.Runs P m w)
    (h : ∀ a w', D.Follows w w' → P a w' → P' a w') : D.Runs P' m w := by
  unfold Runs at hm ⊢
  split at hm
  · exact ⟨hm.1, hm.2.1, h _ _ hm.1 hm.2.2⟩
  · exact hm

theorem state (hw : D.Holds w) : D.Runs (fun w₁ w' => w₁ = w') get w := ⟨.refl hw, rfl, rfl⟩

theorem set (h : D.Follows w w') (hdepth : w'.depth = w.depth) :
    D.Runs (fun _ _ => True) (set w') w :=
  ⟨h, hdepth, trivial⟩

theorem modify {f : World → World} (h : D.Follows w (f w)) (hdepth : (f w).depth = w.depth) :
    D.Runs (fun _ _ => True) (modify f) w := ⟨h, hdepth, trivial⟩

theorem lift (hw : D.Holds w) {p : α → Prop} {r : Except Fault α} (h : Ends p D.Admits r) :
    D.Runs (fun a _ => p a) (Machine.lift r) w := by
  cases r with
  | ok a => exact done hw h
  | error e => exact stop hw h

theorem resolve (hw : D.Holds w) {p : α → Prop} {question : Resolver → Except Fault α}
    (h : Ends p D.Admits (question w.resolver)) :
    D.Runs (fun a _ => p a) (Machine.resolve question) w :=
  lift hw h

theorem note (hw : D.Holds w) (e : Event) : D.Runs (fun _ _ => True) (Machine.note e) w :=
  modify (.note hw e) rfl

theorem store (hw : D.Holds w) (hd : D.Allows w.known d) :
    D.Runs (fun key w' => key ∈ w'.known) (Machine.store d) w :=
  ⟨.addResult hw hd, rfl, World.mem_known_addResult w d⟩

theorem literal (hw : D.Holds w) (hd : D.Allows w.known d) :
    D.Runs (fun _ _ => True) (Machine.literal d) w :=
  resolve hw (literalValue_ends hw.governs hd)

theorem render (hw : D.Holds w) (hd : D.Allows w.known d) :
    D.Runs (fun _ _ => True) (Machine.render d) w :=
  resolve hw (render_ends hw.governs hd)

theorem literalOf (hw : D.Holds w) {d? : Option Descriptor} (hd : ∀ d ∈ d?, D.Allows w.known d) :
    D.Runs (fun _ _ => True) (Machine.literalOf d?) w := by
  cases d? with
  | none => exact done hw trivial
  | some d => exact literal hw (hd d rfl)

/-- A traversal whose outcomes stay good in the worlds that follow. -/
theorem mapM {f : α → Machine β} (hQ : ∀ b w w', D.Follows w w' → Q b w → Q b w') {as : List α}
    (hw : D.Holds w) (hf : ∀ a ∈ as, ∀ w', D.Follows w w' → D.Runs Q (f a) w') :
    D.Runs (fun bs w' => ∀ b ∈ bs, Q b w') (as.mapM f) w := by
  induction as generalizing w with
  | nil => exact done hw fun b hb => absurd hb List.not_mem_nil
  | cons a as ih =>
    rw [List.mapM_cons]
    refine (hf a (List.mem_cons_self ..) w (.refl hw)).bind fun b w₁ h₁ hb => ?_
    refine (ih h₁.holds fun a ha w' h' => hf a (List.mem_cons_of_mem _ ha) w' (h₁.trans h')).bind
      fun bs w₂ h₂ hbs => ?_
    refine done h₂.holds fun b' hb' => ?_
    rcases List.mem_cons.mp hb' with rfl | hb'
    · exact hQ b' w₁ w₂ h₂ hb
    · exact hbs b' hb'

theorem forM {f : α → Machine PUnit} {as : List α} (hw : D.Holds w)
    (hf : ∀ a ∈ as, ∀ w', D.Follows w w' → D.Runs (fun _ _ => True) (f a) w') :
    D.Runs (fun _ _ => True) (as.forM f) w := by
  induction as generalizing w with
  | nil => exact done hw trivial
  | cons a as ih =>
    refine (hf a List.mem_cons_self w (.refl hw)).bind fun _ _ h _ =>
      ih h.holds fun b hb w' h' => ?_
    exact hf b (List.mem_cons_of_mem _ hb) w' (h.trans h')

end Runs

open Runs

theorem yields_none (hw : D.Holds w) : D.Yields (pure none) w := done hw (by simp)

theorem yielding_yields (hw : D.Holds w) (hd : D.Allows w.known d) : D.Yields (yielding d) w :=
  (store hw hd).bind fun _ _ h hkey => done h.holds (by simpa using hkey)

theorem yielding_literal_yields (hw : D.Holds w) (v : Value) : D.Yields (yielding (.literal v)) w :=
  yielding_yields hw (allows_literal v)

theorem textOf_runs (hw : D.Holds w) (hd : D.Allows w.known d) :
    D.Runs (fun _ _ => True) (textOf d) w := by
  refine (literal hw hd).bind fun v w' h _ => ?_
  split
  · exact done h.holds trivial
  · exact render h.holds (hd.mono h.known)

section Arguments

variable {d? d'? : Option Descriptor} (hd : ∀ d ∈ d?, D.Allows w.known d)
    (hd' : ∀ d ∈ d'?, D.Allows w.known d)
include hd

theorem valueOrNull_allowed : D.Allows w.known (valueOrNull d?) := by
  cases d? with
  | none => exact allows_literal _
  | some d => exact hd d rfl

theorem optionalText_runs (hw : D.Holds w) : D.Runs (fun _ _ => True) (optionalText d?) w := by
  cases d? with
  | none => exact done hw trivial
  | some d => exact textOf_runs hw (hd d rfl)

theorem renderOr_runs (hw : D.Holds w) (absent : String) :
    D.Runs (fun _ _ => True) (renderOr absent d?) w := by
  cases d? with
  | none => exact done hw trivial
  | some d => exact render hw (hd d rfl)

theorem raise_yields (hw : D.Holds w) : D.Yields (raise d?) w := by
  cases d? with
  | none => exact fail hw fun _ _ h => Fault.noConfusion h
  | some d =>
    have hallows : D.Allows w.known d := hd d rfl
    refine (literal hw hallows).bind fun _ w₁ h₁ _ => ?_
    refine (render h₁.holds (hallows.mono h₁.known)).bind fun text w₂ h₂ _ => ?_
    exact fail h₂.holds fun _ _ h => Fault.noConfusion h

omit hd in
theorem writeOutput_runs (hw : D.Holds w) (v : Value) :
    D.Runs (fun _ _ => True) (writeOutput v) w := by
  unfold writeOutput
  split
  · exact note hw _
  · exact fail hw (admits_of_isOfValues rfl)

theorem putString_yields (hw : D.Holds w) : D.Yields (putString d?) w := by
  cases d? with
  | none => exact yields_none hw
  | some d =>
    refine (textOf_runs hw (hd d rfl)).bind fun text w₁ h₁ _ => ?_
    refine (writeOutput_runs h₁.holds text).bind fun _ w₂ h₂ _ => ?_
    exact yields_none h₂.holds

include hd' in
theorem debug_yields (hw : D.Holds w) : D.Yields (debug d? d'?) w := by
  refine (optionalText_runs hd hw).bind fun label w₁ h₁ _ => ?_
  have hshown : ∀ d ∈ d'?, D.Allows w₁.known d := fun d hd => (hd' d hd).mono h₁.known
  refine (renderOr_runs hshown h₁.holds _).bind fun text w₂ h₂ _ => ?_
  refine (note h₂.holds _).bind fun _ w₃ h₃ _ => ?_
  exact yielding_literal_yields h₃.holds _

theorem pathOf_runs (hw : D.Holds w) (opcode : String) :
    D.Runs (fun _ _ => True) (pathOf opcode d?) w := by
  refine (literalOf hw hd).bind fun v w₁ h₁ _ => ?_
  split
  · exact done h₁.holds trivial
  · have hshown : ∀ d ∈ d?, D.Allows w₁.known d := fun d hmem => (hd d hmem).mono h₁.known
    refine (renderOr_runs hshown h₁.holds _).bind fun text w₂ h₂ _ => ?_
    exact fail h₂.holds fun _ _ h => Fault.noConfusion h

end Arguments

theorem readText_admits (files : Files) (path : FilePath) (shown : String) :
    Ends (fun _ => True) D.Admits (files.readText path shown) := by
  unfold Files.readText
  (repeat' split) <;> first | trivial | exact fun _ _ h => Fault.noConfusion h

theorem writeText_admits (files : Files) (path : FilePath) (text : String) :
    Ends (fun _ => True) D.Admits (files.writeText path text) := by
  unfold Files.writeText
  (repeat' split) <;> first | trivial | exact fun _ _ h => Fault.noConfusion h

theorem readFile_yields {d? : Option Descriptor} (hd : ∀ d ∈ d?, D.Allows w.known d)
    (hw : D.Holds w) :
    D.Yields (readFile d?) w := by
  refine (pathOf_runs hd hw _).bind fun path w₁ h₁ _ => ?_
  refine (state h₁.holds).bind fun read w₂ h₂ _ => ?_
  refine (lift h₂.holds (readText_admits read.files path path.text)).bind fun text w₃ h₃ _ => ?_
  exact yielding_literal_yields h₃.holds _

theorem writeText_yields (hw : D.Holds w) (path : FilePath) (contents : Value) :
    D.Yields (writeText path contents) w := by
  unfold writeText
  split
  · refine (state hw).bind fun w₁ _ h _ => ?_
    refine (lift h.holds (writeText_admits w₁.files path _)).bind fun files w' h _ => ?_
    refine (modify (.of_eq h.holds rfl rfl rfl h.holds.cells h.holds.handlers) rfl).bind
      fun _ _ h _ => ?_
    split
    · exact fail h.holds (admits_of_isOfValues rfl)
    · exact yields_none h.holds
  · exact fail hw (admits_of_isOfValues rfl)

theorem writeFile_yields {path? contents? : Option Descriptor}
    (hpath : ∀ d ∈ path?, D.Allows w.known d) (hcontents : ∀ d ∈ contents?, D.Allows w.known d)
    (hw : D.Holds w) : D.Yields (writeFile path? contents?) w := by
  refine (pathOf_runs hpath hw _).bind fun path w₁ h₁ _ => ?_
  have hcontents₁ : ∀ d ∈ contents?, D.Allows w₁.known d :=
    fun d hd => (hcontents d hd).mono h₁.known
  refine (optionalText_runs hcontents₁ h₁.holds).bind fun contents w₂ h₂ _ => ?_
  exact writeText_yields h₂.holds path contents

theorem read_admits (r : LineReader) (timeout : Value) {answer : Except Fault String}
    (h : (r.read timeout).1 = some answer) : Ends (fun _ => True) D.Admits answer := by
  unfold LineReader.read at h
  dsimp only at h
  (repeat' split at h) <;> cases h <;> first | trivial | exact fun _ _ h => Fault.noConfusion h

theorem readLine_yields (hw : D.Holds w) : D.Yields readLine w := by
  have htake : D.Runs (fun answer? _ => ∀ answer ∈ answer?, Ends (fun _ => True) D.Admits answer)
      takeLine w :=
    ⟨.of_eq hw rfl rfl rfl hw.cells hw.handlers, rfl, fun _ h => read_admits _ _ h⟩
  rw [readLine_eq]
  refine htake.bind fun answer? w₁ h₁ hanswer => ?_
  cases answer? with
  | none => exact stop h₁.holds trivial
  | some answer =>
    refine (lift h₁.holds (hanswer answer rfl)).bind fun line w₂ h₂ _ => ?_
    exact yielding_literal_yields h₂.holds _

theorem environment_yields (hw : D.Holds w) (name : Value) : D.Yields (environment name) w :=
  (state hw).bind fun _ _ h _ => yielding_literal_yields h.holds _

theorem mem_putHandler {name : Value} {handler : Handler} {entry : Value × Handler}
    {entries : List (Value × Handler)} (h : entry ∈ Registry.putEntry name handler entries) :
    entry ∈ entries ∨ entry.2 = handler := by
  induction entries with
  | nil => exact .inr (by rw [List.mem_singleton.mp h])
  | cons first rest ih =>
    rw [Registry.putEntry] at h
    split at h
    · rcases List.mem_cons.mp h with rfl | h
      · exact .inr rfl
      · exact .inl (List.mem_cons_of_mem _ h)
    · rcases List.mem_cons.mp h with rfl | h
      · exact .inl (List.mem_cons_self ..)
      · exact (ih h).imp_left (List.mem_cons_of_mem _)

theorem contains_ofValues (registry : Registry) (name : Value) :
    OfValues (registry.contains name) := by
  simp [Registry.contains]

theorem register_ends {registry : Registry}
    (hregistry : ∀ entry ∈ registry.entries, D.Binds entry.2) (name : Value) {handler : Handler}
    (hhandler : D.Binds handler) :
    Ends (fun made => ∀ entry ∈ made.1.entries, D.Binds entry.2) D.Admits
      (registry.register name (some handler)) := by
  refine (ends_of_ofValues (contains_ofValues registry name)).bind fun _ _ => ?_
  rintro entry hentry
  rcases mem_putHandler hentry with h | h
  · exact hregistry entry h
  · rw [h]
    exact hhandler

/-- What a program registers is compiled. -/
theorem define_ends {registry : Registry} (hregistry : ∀ entry ∈ registry.entries, D.Binds entry.2)
    (name source : Value) :
    Ends (fun made => ∀ entry ∈ made.1.entries, D.Binds entry.2) D.Admits
      (registry.define name source) := by
  unfold Registry.define
  split
  · split
    · exact admits_of_isOfValues rfl
    · refine (ends_of_ofValues (Expression.compileValue_ofValues source)).bind fun body _ => ?_
      refine (register_ends hregistry _ (binds_compiled body)).bind fun made hmade => ?_
      exact hmade
  · exact admits_of_isOfValues rfl

theorem define_yields (hw : D.Holds w) (name source : Value) : D.Yields (define name source) w := by
  have hmade := define_ends hw.handlers name source
  have henlist : D.Runs (fun outcome _ => Ends (fun _ => True) D.Admits outcome)
      (enlist name source) w :=
    ⟨.changeRegistry hw hmade, World.fulfil_depth w (.define name source),
      hmade.map fun _ _ => trivial⟩
  rw [define_eq]
  refine henlist.bind fun outcome w₁ h₁ houtcome => (lift h₁.holds houtcome).bind fun _ _ h₂ _ => ?_
  exact yields_none h₂.holds

theorem describe_ends (v : Value) {keys : Set String} :
    Ends (D.Allows keys) D.Admits (Descriptor.describe v) := by
  cases h : Descriptor.describe v with
  | ok d => exact allows_of_nil (Descriptor.describe_mentions h)
  | error e => exact admits_of_isOfValues ((Descriptor.describe_ofValues v).of_error h)

theorem expression_yields (hw : D.Holds w) (source : Value) : D.Yields (expression source) w := by
  refine (lift hw (ends_of_ofValues (Expression.compileValue_ofValues source))).bind
    fun compiled w₁ h₁ _ => ?_
  refine (lift h₁.holds (ends_of_ofValues (Expression.evaluate_ofValues _ _))).bind
    fun v w₂ h₂ _ => ?_
  have hdescribed : Ends (D.Allows w₂.known) D.Admits (Descriptor.describe v) := describe_ends v
  refine (lift h₂.holds hdescribed).bind fun d w₃ h₃ hd => ?_
  exact yielding_yields h₃.holds (hd.mono h₃.known)

theorem get_ends (hw : D.Holds w) (key : Value) :
    Ends (D.Allows w.known) D.Admits (w.cells.get key) := by
  unfold Store.Cells.get
  split
  · exact fun _ _ h => Fault.noConfusion h
  · split
    · rename_i d hd
      obtain ⟨entry, hentry, rfl⟩ := Option.map_eq_some_iff.mp hd
      exact hw.cells entry (List.mem_of_find?_eq_some hentry)
    · exact fun _ _ h => Fault.noConfusion h

theorem delete_ends (hw : D.Holds w) (key : Value) :
    Ends (fun deleted => ∀ entry ∈ deleted.2.entries, D.Allows w.known entry.2) D.Admits
      (w.cells.delete key) := by
  unfold Store.Cells.delete
  split
  · exact hw.cells
  · refine (ends_of_ofValues (Value.requireHashable_ofKinds key)).map fun _ _ entry hentry => ?_
    exact hw.cells entry (List.mem_of_mem_filter hentry)

theorem set_ends (hw : D.Holds w) (hd : D.Allows w.known d) (key : Value) :
    Ends (fun cells => ∀ entry ∈ cells.entries, D.Allows w.known entry.2) D.Admits
      (w.cells.set key d) :=
  (ends_of_ofValues (Value.requireHashable_ofKinds key)).map fun _ _ =>
    (Follows.putCell hw hd key).holds.cells

section Leaf

variable {args : List Descriptor} (harg : ∀ i : Nat, ∀ d ∈ args[i]?, D.Allows w.known d)
    (hw : D.Holds w)
include harg hw

theorem createCell_yields : D.Yields (runLeaf .createCell args) w := by
  have hadd : D.Runs (fun _ _ => True) (modifyGet (·.addCell (valueOrNull args[0]?))) w :=
    ⟨.addCell hw (valueOrNull_allowed (harg 0)), rfl, trivial⟩
  exact hadd.bind fun _ _ h _ => yielding_literal_yields h.holds _

theorem readCell_yields : D.Yields (runLeaf .readCell args) w := by
  refine (literalOf hw (harg 0)).bind fun key _ h₁ _ => ?_
  refine (state h₁.holds).bind fun w₂ w' h₂ hw₂ => ?_
  subst hw₂
  refine (lift h₂.holds (get_ends h₂.holds key)).bind fun d w₃ h₃ hd => ?_
  exact yielding_yields h₃.holds (hd.mono h₃.known)

theorem writeCell_yields : D.Yields (runLeaf .writeCell args) w := by
  refine (literalOf hw (harg 0)).bind fun key _ h₁ _ => ?_
  refine (state h₁.holds).bind fun w₁ w' h₂ hw₁ => ?_
  subst hw₁
  have hd := (valueOrNull_allowed (harg 1)).mono (h₁.trans h₂).known
  refine (lift h₂.holds (set_ends h₂.holds hd key)).bind fun cells w₃ h₃ hcells => ?_
  have hcells₃ : ∀ entry ∈ cells.entries, D.Allows w₃.known entry.2 :=
    fun entry he => (hcells entry he).mono h₃.known
  refine (modify (.of_eq h₃.holds rfl rfl rfl hcells₃ h₃.holds.handlers) rfl).bind
    fun _ w₄ h₄ _ => ?_
  exact yields_none h₄.holds

theorem deleteCell_yields : D.Yields (runLeaf .deleteCell args) w := by
  refine (literalOf hw (harg 0)).bind fun key _ h₁ _ => ?_
  refine (state h₁.holds).bind fun w₁ w' h₂ hw₁ => ?_
  subst hw₁
  refine (lift h₂.holds (delete_ends h₂.holds key)).bind fun deleted w₃ h₃ hcells => ?_
  have hcells₃ : ∀ entry ∈ deleted.2.entries, D.Allows w₃.known entry.2 :=
    fun entry he => (hcells entry he).mono h₃.known
  refine (modify (.of_eq h₃.holds rfl rfl rfl hcells₃ h₃.holds.handlers) rfl).bind
    fun _ w₄ h₄ _ => ?_
  exact yields_none h₄.holds

theorem define_effect_yields : D.Yields (runLeaf .define args) w := by
  refine (literalOf hw (harg 0)).bind fun name w₁ h₁ _ => ?_
  have hsource : ∀ d ∈ args[1]?, D.Allows w₁.known d := fun d hd => (harg 1 d hd).mono h₁.known
  refine (literalOf h₁.holds hsource).bind fun source w₂ h₂ _ => ?_
  exact define_yields h₂.holds name source

end Leaf

/-- Every leaf effect keeps to the discipline. -/
theorem runLeaf_yields (hw : D.Holds w) (effect : Leaf) {args : List Descriptor}
    (hargs : ∀ d ∈ args, D.Allows w.known d) : D.Yields (runLeaf effect args) w := by
  have harg (i : Nat) : ∀ d ∈ args[i]?, D.Allows w.known d :=
    fun d hd => hargs d (List.mem_of_getElem? hd)
  cases effect with
  | produce => exact yielding_yields hw (valueOrNull_allowed (harg 0))
  | raise => exact raise_yields (harg 0) hw
  | createCell => exact createCell_yields harg hw
  | readCell => exact readCell_yields harg hw
  | writeCell => exact writeCell_yields harg hw
  | deleteCell => exact deleteCell_yields harg hw
  | print =>
    have hrender : ∀ d ∈ args, ∀ w', D.Follows w w' →
        D.Runs (fun _ _ => True) (Machine.render d) w' :=
      fun d hd w' h => render h.holds ((hargs d hd).mono h.known)
    refine (mapM (Q := fun _ _ => True) (fun _ _ _ _ _ => trivial) hw hrender).bind
      fun texts w₁ h₁ _ => ?_
    refine (note h₁.holds _).bind fun _ w₂ h₂ _ => ?_
    exact yields_none h₂.holds
  | putString => exact putString_yields (harg 0) hw
  | debug => exact debug_yields (harg 0) (harg 1) hw
  | readFile => exact readFile_yields (harg 0) hw
  | writeFile => exact writeFile_yields (harg 0) (harg 1) hw
  | readLine => exact readLine_yields hw
  | environment =>
    exact (literalOf hw (harg 0)).bind fun name _ h _ => environment_yields h.holds name
  | arguments => exact (state hw).bind fun _ _ h _ => yielding_yields h.holds (by simp)
  | exit =>
    refine (literalOf hw (harg 0)).bind fun v w₁ h₁ _ => ?_
    refine (lift h₁.holds (ends_of_ofValues (exitCode_ofValues v))).bind fun code w₂ h₂ _ => ?_
    exact stop h₂.holds trivial
  | define => exact define_effect_yields harg hw
  | expression =>
    exact (literalOf hw (harg 0)).bind fun source _ h _ => expression_yields h.holds source

theorem customArgument_runs (hw : D.Holds w) (hd : D.Allows w.known d) :
    D.Runs (fun _ _ => True) (customArgument d) w := by
  refine (literal hw hd).bind fun v _ h _ => ?_
  split
  · refine (render h.holds (hd.mono h.known)).bind fun text _ h _ => ?_
    split <;> exact done h.holds trivial
  · exact done h.holds trivial

theorem Follows.fulfil (hw : D.Holds w) {request : Request} (h : D.AllowsRequest w.known request) :
    D.Follows w (w.fulfil request) := by
  cases request with
  | output | diagnostic => exact .note hw _
  | addResult d => exact .addResult hw h
  | addCell d => exact .addCell hw h
  | setCell key d => exact .changeCells hw (set_ends hw h key)
  | deleteCell key => exact .changeCells hw ((delete_ends hw key).map fun _ h => h)
  | define name source => exact .changeRegistry hw (define_ends hw.handlers name source)
  | readLine | files => exact .of_eq hw rfl rfl rfl hw.cells hw.handlers

theorem AllowsRequest.mono {keys keys' : Set String} (hkeys : keys ⊆ keys') {request : Request}
    (h : D.AllowsRequest keys request) : D.AllowsRequest keys' request := by
  cases request with
  | addResult | addCell | setCell => exact Allows.mono hkeys h
  | _ => trivial

theorem AllowsProduct.mono {keys keys' : Set String} (hkeys : keys ⊆ keys') {product : Product}
    (h : D.AllowsProduct keys product) : D.AllowsProduct keys' product := by
  cases product with
  | value v => trivial
  | descriptor d => exact Allows.mono hkeys h

theorem follow_runs (hw : D.Holds w) {reply : Reply}
    (hrequests : ∀ request ∈ reply.requests, D.AllowsRequest w.known request)
    (hanswer : Ends (D.AllowsProduct w.known) D.Bears reply.answer) :
    D.Runs (fun product w' => D.AllowsProduct w'.known product) (follow reply) w := by
  have hall : D.Runs (fun _ _ => True)
      (reply.requests.forM fun request => (modify (·.fulfil request) : Machine PUnit)) w := by
    refine forM hw fun request hrequest w' h => ?_
    exact modify (.fulfil h.holds ((hrequests request hrequest).mono h.known))
      (World.fulfil_depth w' request)
  refine hall.bind fun _ w' h _ => ?_
  cases hreply : reply.answer with
  | ok product =>
    rw [hreply] at hanswer
    exact done h.holds (AllowsProduct.mono h.known hanswer)
  | error cause =>
    rw [hreply] at hanswer
    exact stop h.holds hanswer

theorem find_ends (hw : D.Holds w) (name : Value) :
    Ends D.Binds D.Admits (w.registry.find name) := by
  refine (ends_of_ofValues (Value.requireHashable_ofKinds name)).bind fun _ _ => ?_
  split
  · rename_i handler hget
    obtain ⟨entry, hentry, rfl⟩ := Option.map_eq_some_iff.mp hget
    exact hw.handlers entry (List.mem_of_find?_eq_some hentry)
  · exact admits_of_isOfValues rfl

theorem invoke_runs (hw : D.Holds w) (name : Value) (args : List Value) :
    D.Runs (fun product w' => D.AllowsProduct w'.known product) (invoke name args) w := by
  refine (state hw).bind fun w₁ w' h hw₁ => ?_
  subst hw₁
  refine (lift h.holds (find_ends h.holds name)).bind fun handler w' h' hbinds => ?_
  obtain ⟨hrequests, hanswer⟩ := hbinds w'.known args w₁.context
  exact follow_runs h'.holds hrequests hanswer

theorem produced_yields (hw : D.Holds w) {product : Product} (h : D.AllowsProduct w.known product) :
    D.Yields (produced product) w := by
  unfold produced
  split
  · exact yields_none hw
  · rename_i v _
    have hdescribed : Ends (D.Allows w.known) D.Admits (Descriptor.describe v) := describe_ends v
    refine (lift hw hdescribed).bind fun d w₁ h₁ hd => ?_
    exact yielding_yields h₁.holds (hd.mono h₁.known)
  · exact yielding_yields hw h

theorem runCustom_yields (hw : D.Holds w) (tag : Value) {args : List Descriptor}
    (hargs : ∀ d ∈ args, D.Allows w.known d) : D.Yields (runCustom tag args) w := by
  have hargument : ∀ d ∈ args, ∀ w', D.Follows w w' →
      D.Runs (fun _ _ => True) (customArgument d) w' :=
    fun d hd w' h => customArgument_runs h.holds ((hargs d hd).mono h.known)
  refine (mapM (Q := fun _ _ => True) (fun _ _ _ _ _ => trivial) hw hargument).bind
    fun values w₁ h₁ _ => ?_
  exact (invoke_runs h₁.holds tag values).bind fun product w₂ h₂ hproduct =>
    produced_yields h₂.holds hproduct

theorem unhandled_yields (hw : D.Holds w) (hd : D.Allows w.known d) (tag : Value) :
    D.Yields (unhandled d tag) w := by
  refine (render hw hd).bind fun text _ h _ => (state h.holds).bind fun w₁ _ h _ => ?_
  have hrest {w} (hw : D.Holds w) : D.Yields (Machine.log .warning .interpreter
      (tag.display ++ " effect is not handled: " ++ text.display) >>= fun _ => pure none) w :=
    (note hw _).bind fun _ _ h _ => yields_none h.holds
  split
  · exact (fail (P := fun _ _ => True) h.holds fun _ _ h => Fault.noConfusion h).bind fun _ _ h _ =>
      hrest h.holds
  · exact hrest h.holds

end Discipline

end EffectTree
