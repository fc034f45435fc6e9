import EffectTree.Proofs.Capture
import EffectTree.Proofs.Resemblance

/-!
# Built-in effects come first

A handler under the name of a built-in effect is never called. Worlds that differ in such handlers
only cannot be told apart by any evaluation, also if it defines handlers under these names itself,
as long as the handlers that it does call do not look which effects there are: its outcome is the
same, and the worlds that it leaves behind differ in such handlers only. Where one of them replaces
another, a record of it is logged; this is the one thing that is written.
-/
namespace EffectTree

open Evaluation

namespace Evaluation.Opcode

theorem ofTag?_congr {name tag : Value} (h : name.agrees tag = true) :
    ofTag? name = ofTag? tag := by
  rcases Descriptor.agrees_cases h with ⟨s, m, m', rfl, rfl⟩ | ⟨hname, htag⟩
  · rfl
  · cases name <;> cases tag <;> simp_all [ofTag?, Value.isStr]

end Evaluation.Opcode

namespace Handler

/-- A handler that does not look which custom effects there are. -/
def IgnoresEffects (handler : Handler) : Prop :=
  ∀ (args : List Value) (c : Context) (effects : List Value), handler.call args { c with effects } =
    handler.call args c

theorem IgnoresContext.effects {handler : Handler} (h : handler.IgnoresContext) :
    handler.IgnoresEffects :=
  fun args _ _ => h args _ _

/-- The text of the context does not tell. -/
theorem ignoresEffects_compiled (body : Expression.Compiled) : (compiled body).IgnoresEffects :=
  fun _ _ _ => rfl

end Handler

namespace Registry

/-- The handlers under names that are not built in. -/
def custom (registry : Registry) : List (Value × Handler) :=
  registry.entries.filter fun entry => (Opcode.ofTag? entry.1).isNone

theorem get?_eq_custom (registry : Registry) {tag : Value} (htag : Opcode.ofTag? tag = none) :
    registry.get? tag = (registry.custom.find? fun entry => entry.1.agrees tag).map (·.2) := by
  unfold get? custom
  rw [List.find?_filter]
  congr 2
  funext entry
  cases hagrees : entry.1.agrees tag with
  | false => simp
  | true => simp [Opcode.ofTag?_congr hagrees, htag]

theorem filter_putEntry (name : Value) (handler : Handler) (entries : List (Value × Handler)) :
    (putEntry name handler entries).filter (fun entry => (Opcode.ofTag? entry.1).isNone) =
      if (Opcode.ofTag? name).isNone then
        putEntry name handler (entries.filter fun entry => (Opcode.ofTag? entry.1).isNone)
      else entries.filter fun entry => (Opcode.ofTag? entry.1).isNone := by
  induction entries with
  | nil => by_cases hname : (Opcode.ofTag? name).isNone = true <;> simp [putEntry, hname]
  | cons entry rest ih =>
    by_cases hagrees : entry.1.agrees name = true
    · have hsame := Opcode.ofTag?_congr hagrees
      by_cases hname : (Opcode.ofTag? name).isNone = true <;> simp [putEntry, hagrees, hsame, hname]
    · by_cases hentry : (Opcode.ofTag? entry.1).isNone = true
      · by_cases hname : (Opcode.ofTag? name).isNone =
          true <;> simp [putEntry, hagrees, hentry, ih, hname]
      · simp [putEntry, hagrees, hentry, ih]

theorem custom_put (registry : Registry) (name : Value) (handler : Handler) :
    (registry.put name handler).custom =
      if (Opcode.ofTag? name).isNone then putEntry name handler registry.custom
        else registry.custom :=
  filter_putEntry name handler registry.entries

end Registry

/-- Whether a record tells that a handler under the name of a built-in effect is replaced. -/
def Event.replacesBuiltin : Event → Bool
  | .log ⟨.info, .registry, message⟩ =>
    Opcode.names.any fun name => message = "Redefining custom effect " ++ name
  | _ => false

namespace Transcript

/-- What is written but for such records. -/
def essential (t : Transcript) : List Event := t.events.filter fun e => !e.replacesBuiltin

theorem essential_add (t : Transcript) (e : Event) :
    (t.add e).essential = t.essential ++ [e].filter fun e => !e.replacesBuiltin := by
  simp [essential, List.filter_append]

theorem replacesBuiltin_of_builtin {name : Value} (h : Opcode.ofTag? name ≠ none) :
    (Event.log ⟨.info, .registry, "Redefining custom effect " ++ name.display⟩).replacesBuiltin =
    true := by
  cases name with
  | str s mark =>
    have hsome : (Opcode.table.get? s).isSome := Option.isSome_iff_ne_none.mpr h
    have hmem : s ∈ Opcode.names := Table.get?_isSome.mp hsome
    exact List.any_eq_true.mpr ⟨s, hmem, decide_eq_true rfl⟩
  | _ => exact absurd rfl h

theorem essential_addRecords_of_builtin (t : Transcript) (registry : Registry) {name : Value}
    (h : Opcode.ofTag? name ≠ none) :
    (t.addRecords (registry.replacing name)).essential = t.essential := by
  unfold Registry.replacing
  split
  · rw [addRecords, List.foldl_cons, List.foldl_nil, essential_add]
    simp [replacesBuiltin_of_builtin h]
  · rfl

theorem essential_addRecords {t t' : Transcript} (h : t.essential = t'.essential)
    (records : List LogRecord) :
    (t.addRecords records).essential = (t'.addRecords records).essential := by
  induction records generalizing t t' with
  | nil => exact h
  | cons r records ih =>
    apply ih
    rw [essential_add, essential_add, h]

theorem filterMap_essential {f : Event → Option String}
    (hf : ∀ e, e.replacesBuiltin = true → f e = none) (t : Transcript) :
    t.essential.filterMap f = t.events.filterMap f := by
  unfold essential
  induction t.events with
  | nil => rfl
  | cons e events ih =>
    cases he : e.replacesBuiltin with
    | true =>
      rw [List.filter_cons_of_neg (by simp [he]), List.filterMap_cons_none (hf e he), ih]
    | false =>
      rw [List.filter_cons_of_pos (by simp [he])]
      simp only [List.filterMap_cons, ih]

theorem streams_eq {t t' : Transcript} (h : t.essential = t'.essential) :
    t.output = t'.output ∧ t.diagnostics = t'.diagnostics := by
  have htexts (f : Event → Option String) (hf : ∀ e, e.replacesBuiltin = true → f e = none) :
      t.events.filterMap f = t'.events.filterMap f := by
    rw [← filterMap_essential hf, ← filterMap_essential hf, h]
  have hlog (e : Event) (he : e.replacesBuiltin = true) : ∃ r, e = .log r := by
    cases e with
    | log r => exact ⟨r, rfl⟩
    | output | diagnostic => cases he
  constructor
  · refine congrArg String.join (htexts _ fun e he => ?_)
    obtain ⟨r, rfl⟩ := hlog e he
    rfl
  · refine congrArg String.join (htexts _ fun e he => ?_)
    obtain ⟨r, rfl⟩ := hlog e he
    rfl

end Transcript

namespace Evaluation

/-- Worlds that differ in handlers under built-in names only, and in records that such handlers are
replaced. -/
def Resemblance.builtinsApart : Resemblance where
  handlers r r' := r.custom = r'.custom
  limits := Eq
  written t t' := t.essential = t'.essential
  get?_eq := by
    intro r r' tag h htag
    rw [r.get?_eq_custom htag, r'.get?_eq_custom htag, h]
  put := by
    intro r r' name handler h
    rw [r.custom_put, r'.custom_put, h]
  add := by
    intro t t' e h
    rw [t.essential_add, t'.essential_add, h]
  replacing := by
    intro r r' t t' name h hwritten
    cases hname : Opcode.ofTag? name with
    | none =>
      have hsame : r'.replacing name = r.replacing name := by
        simp only [Registry.replacing, r.get?_eq_custom hname, r'.get?_eq_custom hname, h]
      rw [hsame]
      exact Transcript.essential_addRecords hwritten _
    | some opcode =>
      rw [t.essential_addRecords_of_builtin r (by simp [hname]),
        t'.essential_addRecords_of_builtin r' (by simp [hname])]
      exact hwritten

open Resemblance

theorem builtinsApart_relates_iff {w w' : World} : builtinsApart.Relates w w' ↔
    w' = { w with registry := w'.registry, transcript := w'.transcript } ∧
      w.registry.custom = w'.registry.custom ∧
        w.transcript.essential = w'.transcript.essential := by
  constructor
  · rintro ⟨halike, hhandlers, hlimits, hwritten⟩
    refine ⟨?_, hhandlers, hwritten⟩
    obtain ⟨_, _, _, _, _, ⟨_, _, _⟩, _, _, _, _, _, _, _⟩ := w
    obtain ⟨_, _, _, _, _, ⟨_, _, _⟩, _, _, _, _, _, _, _⟩ := w'
    cases halike
    simp_all [builtinsApart]
  · rintro ⟨hrest, hhandlers, hwritten⟩
    refine ⟨?_, hhandlers, ?_, hwritten⟩
    · rw [hrest]
      exact ⟨rfl, rfl, rfl, rfl, rfl, rfl, rfl, rfl, rfl, rfl, rfl, rfl⟩
    · rw [hrest]
      rfl

/-- No handler under a built-in name makes a difference to an evaluation, whatever it evaluates and
defines: it ends with the same result, fault or exit, and has written the same, and the worlds
afterwards differ in such handlers only. -/
theorem builtins_come_first {w w' : World} (h : builtinsApart.Relates w w') (node : Descriptor)
    (hignores : ∀ s handler, (State.start node w).Reaches s → s.Calls handler →
      handler.IgnoresEffects) :
    builtinsApart.Matches (evaluate node w) (evaluate node w') ∧ (run node w).1 = (run node w').1 ∧
      (run node w).2.transcript.output = (run node w').2.transcript.output ∧
      (run node w).2.transcript.diagnostics = (run node w').2.transcript.diagnostics := by
  have halike : ∀ s s', (State.start node w).Reaches s → builtinsApart.Pairs s s' →
      StepAlike s s' := by
    refine fun s s' hs hpairs => ⟨.inl hpairs.world.limits.symm, fun handler hcall arguments => ?_⟩
    have hsettings : s'.world.settings = s.world.settings :=
      hpairs.world.settings hpairs.world.limits.symm
    rw [hpairs.world.context, hsettings]
    exact hignores s handler hs hcall arguments s.world.context s'.world.registry.names
  have hmatches := h.evaluate_matches node halike
  refine ⟨hmatches, ?_⟩
  unfold run
  generalize evaluate node w = r at hmatches
  generalize evaluate node w' = r' at hmatches
  cases hmatches with
  | ok key? hu => exact ⟨rfl, Transcript.streams_eq hu.written⟩
  | error cause hu =>
    cases cause with
    | fault | exit => exact ⟨rfl, Transcript.streams_eq (hu.note _).written⟩
    | waiting => exact ⟨rfl, Transcript.streams_eq hu.written⟩

/-- A program that defines an effect of a built-in name and performs it. -/
def redefining : Descriptor :=
  .effect (.ofStr "Do") [.tuple
    [.effect (.ofStr "DefineEffect") [.literal (.ofStr "Pure"), .literal (.ofStr "(args) => 2")],
      .effect (.ofStr "Pure") [.literal (.ofInt 1)]]]

/-- A host that has given a handler under this name before. -/
def overridden : World :=
  { registry := { entries := [(.ofStr "Pure", .ofFunction fun _ _ => .ok (.value (.ofInt 3)))] } }

theorem redefining_comes_first : builtinsApart.Relates {} overridden ∧
    builtinsApart.Matches (evaluate redefining {}) (evaluate redefining overridden) ∧
      (run redefining {}).1 = (run redefining overridden).1 := by
  have hrelates : builtinsApart.Relates {} overridden :=
    builtinsApart_relates_iff.mpr ⟨rfl, rfl, rfl⟩
  have hcalls : (State.start redefining {}).allAhead State.callsWithArgumentsOnly 20 = true := by
    decide +kernel
  obtain ⟨hmatches, houtcome, -⟩ :=
    builtins_come_first hrelates redefining fun s handler hs hcall =>
    (hcall.ignoresContext (State.of_allAhead hcalls hs)).effects
  exact ⟨hrelates, hmatches, houtcome⟩

end Evaluation

end EffectTree
