import EffectTree.Proofs.EffectOrigin
import EffectTree.Proofs.Keys
import EffectTree.Proofs.Stability
import EffectTree.Proofs.StrictSettings

/-!
# Keys of cells

A program is given the key of each cell that it creates. It also says under which key it writes, and
a write to a key that names no cell makes a new cell of it. Without such a write every key is one
that has been issued, the cells that have been deleted stay away, and creating a cell never
overwrites one; and such a write is all that it takes to break this. Handlers of the host could do
anything to the cells, so only those are meant that leave them alone.
-/
namespace EffectTree

open Store

namespace Store.Cells

variable {cells : Cells} {key : Value}

theorem has_iff : cells.has key = true ↔ ∃ k ∈ cells.keys, k.agrees key = true := by
  simp [has, keys]

theorem has_eq_false_iff : cells.has key = false ↔ ∀ k ∈ cells.keys, k.agrees key = false := by
  simp [has, keys]

theorem keys_put_of_has (h : cells.has key = true) (d : Descriptor) :
    (cells.put key d).keys = cells.keys := by
  obtain ⟨entries⟩ := cells
  simp only [has, keys, put] at h ⊢
  induction entries with
  | nil => cases h
  | cons entry rest ih =>
    rw [putEntry]
    split
    · rfl
    · rename_i hentry
      simp only [List.any_cons, hentry, Bool.false_or] at h
      simp [ih h]

theorem keys_put_of_not_has (h : cells.has key = false) (d : Descriptor) :
    (cells.put key d).keys = cells.keys ++ [key] := by
  obtain ⟨entries⟩ := cells
  simp only [has, keys, put] at h ⊢
  induction entries with
  | nil => rfl
  | cons entry rest ih =>
    simp only [List.any_cons, Bool.or_eq_false_iff] at h
    rw [putEntry, if_neg (by simp [h.1])]
    simp [ih h.2]

theorem keys_erase_subset : (cells.erase key).keys ⊆ cells.keys :=
  List.map_subset _ (List.filter_subset_self _)

theorem mem_keys_put {d : Descriptor} {k : Value} (h : k ∈ (cells.put key d).keys) :
    k ∈ cells.keys ∨ k = key ∧ cells.has key = false := by
  cases hhas : cells.has key with
  | true => exact .inl (keys_put_of_has hhas d ▸ h)
  | false =>
    rw [keys_put_of_not_has hhas, List.mem_append, List.mem_singleton] at h
    exact h.imp_right fun heq => ⟨heq, rfl⟩

theorem has_put (h : key.agrees key = true) (d : Descriptor) :
    (cells.put key d).has key = true := by
  cases hhas : cells.has key with
  | true => rwa [has_iff, keys_put_of_has hhas, ← has_iff]
  | false => exact has_iff.mpr ⟨key, by simp [keys_put_of_not_has hhas], h⟩

end Store.Cells

theorem eq_str_of_agrees {s : String} {key : Value} (h : (Value.ofStr s).agrees key = true) :
    ∃ mark, key = .str s mark := by
  cases key with
  | str s' mark =>
    have heq : s = s' := by simpa [Value.agrees, Value.ofStr, Value.eqv,
      Value.sameUndefined] using h
    exact ⟨mark, heq ▸ rfl⟩
  | _ => simp [Value.agrees, Value.ofStr, Value.eqv, Value.sameUndefined] at h

/-- A handler that asks for no change of the cells. -/
def Handler.LeavesCells (handler : Handler) : Prop :=
  ∀ args c, ∀ request ∈ (handler.call args c).requests, request.writesCells = false

theorem Handler.leavesCells_of_takesArgumentsOnly {handler : Handler}
    (h : handler.takesArgumentsOnly = true) :
    handler.LeavesCells := by
  cases handler with
  | compiled body => exact fun _ _ request hrequest => absurd hrequest List.not_mem_nil
  | native apply => cases h

namespace Evaluation

open Machine

theorem literalOf_cases (d? : Option Descriptor) (w : World) :
    (∃ key, literalOf d? w = .ok key w) ∨ ∃ e, literalOf d? w = .error (.fault e) w := by
  cases d? with
  | none => exact .inl ⟨_, rfl⟩
  | some d =>
    cases h : w.resolver.literalValue d with
    | ok key =>
      have hliteral : literal d w = .ok key w := resolve_of_ok h
      exact .inl ⟨key, hliteral⟩
    | error e =>
      have hliteral : literal d w = .error (.fault e) w := resolve_of_error h
      exact .inr ⟨e, hliteral⟩

namespace State

/-- A leaf effect is about to be performed. -/
def PerformsLeaf (s : State) (effect : Leaf) (args : List Descriptor) : Prop :=
  s.tooDeep = false ∧ ∃ node tag, s.focus = .perform node tag args ∧
    Opcode.ofTag? tag = some (.leaf effect)

/-- A cell is about to be created. -/
def Creates (s : State) : Prop := ∃ args, s.PerformsLeaf .createCell args

def nextKey (s : State) : Value := .ofStr (keyText (s.world.issued + 1))

/-- A value is about to be written to a cell that is not there. -/
def Inserts (s : State) : Prop :=
  ∃ args key, s.PerformsLeaf .writeCell args ∧ literalOf args[0]? s.world = .ok key s.world ∧
    key.requireHashable = .ok () ∧ s.world.cells.has key = false

/-- What one step does to the cells. -/
inductive CellStep (s t : State) : Prop
  | kept (hcells : t.world.cells = s.world.cells)
  | created (hcreates : s.Creates) (d : Descriptor)
      (hcells : t.world.cells = s.world.cells.put s.nextKey d)
  | written (args : List Descriptor) (hperforms : s.PerformsLeaf .writeCell args) (key : Value)
      (hkey : literalOf args[0]? s.world = .ok key s.world)
      (hhashable : key.requireHashable = .ok ())
      (d : Descriptor) (hcells : t.world.cells = s.world.cells.put key d)
  | deleted (key : Value) (hcells : t.world.cells = s.world.cells.erase key)

end State

theorem Steady.kept {m : Machine Move} (hm : Steady false m) {s : State} (frames : List Frame) :
    s.CellStep (State.after frames (m s.world)) :=
  .kept (by rw [State.after_world, World.Calm.cells_eq (hm.calm _)])

/-- Nothing takes keys back that have been issued. -/
theorem issued_closed :
    ClosedUnderEffects Eq true fun _ m => ∀ w : World, w.issued ≤ (worldAfter (m w)).issued where
  looksLike := .of_eq
  done _ _ := le_rfl
  stop _ _ := le_rfl
  wait _ := le_rfl
  bind := worldAfter_bind (R := fun w w' : World => w.issued ≤ w'.issued) le_trans
  read _ hf w := hf w w
  note _ _ := le_rfl
  store _ w := w.issued_lt_nextUnused.le
  addCell _ _ _ := Nat.le_succ _
  setCells _ _ _ := le_rfl
  setFiles _ _ := le_rfl
  takeLine _ := le_rfl
  enlist name source w := by
    change w.issued ≤ (w.changeRegistry (w.registry.define name source)).issued
    cases w.registry.define name source <;> exact le_rfl
  descend _ := le_rfl
  ascend _ := le_rfl

theorem unhandled_kept (node : Descriptor) (tag : Value) (s : State) (frames : List Frame) :
    s.CellStep (State.after frames (finishing (unhandled node tag) s.world)) := by
  cases hrender : s.world.resolver.render node with
  | error e =>
    have hstop : finishing (unhandled node tag) s.world = .error _ s.world :=
      bind_of_error (unhandled_of_error hrender)
    rw [hstop]
    exact .kept rfl
  | ok text =>
    cases hstrict : s.world.settings.strict.truthy with
    | true =>
      have hstop : finishing (unhandled node tag) s.world = .error _ s.world :=
        bind_of_error (unhandled_of_strict hrender hstrict)
      rw [hstop]
      exact .kept rfl
    | false =>
      have hwarn : finishing (unhandled node tag) s.world =
          .ok (.finish none, []) (s.world.note _) :=
        bind_of_ok (unhandled_of_lenient hrender hstrict)
      rw [hwarn]
      exact .kept rfl

section Writing

variable {w : World} {args : List Descriptor}

theorem runLeaf_of_no_key {effect : Leaf} {e : Fault}
    (h : literalOf args[0]? w = .error (.fault e) w)
    (heffect : effect = .writeCell ∨ effect = .deleteCell) :
    runLeaf effect args w = .error (.fault e) w := by
  rcases heffect with rfl | rfl <;> exact bind_of_error h

variable {key : Value} (h : literalOf args[0]? w = .ok key w)
include h

theorem writeCell_of_key :
    runLeaf .writeCell args w = match w.cells.set key (valueOrNull args[1]?) with
    | .ok cells => .ok none { w with cells }
    | .error e => .error (.fault e) w := by
  simp only [runLeaf]
  rw [bind_of_ok h, get_bind]
  cases w.cells.set key (valueOrNull args[1]?) <;> rfl

theorem deleteCell_of_key : runLeaf .deleteCell args w = match w.cells.delete key with
    | .ok deleted => .ok none { w with cells := deleted.2 }
    | .error e => .error (.fault e) w := by
  simp only [runLeaf]
  rw [bind_of_ok h, get_bind]
  cases w.cells.delete key <;> rfl

end Writing

namespace State

variable {s : State} {args : List Descriptor} {frames : List Frame}

theorem CellStep.stopped {m : Machine (Option String)} {cause : Stop}
    (h : m s.world = .error cause s.world) :
    s.CellStep (after frames (finishing m s.world)) := by
  have hstop : finishing m s.world = .error cause s.world := bind_of_error h
  rw [hstop]
  exact .kept rfl

theorem PerformsLeaf.created (h : s.PerformsLeaf .createCell args) :
    s.CellStep (after frames (finishing (runLeaf .createCell args) s.world)) :=
  .created ⟨args, h⟩ (valueOrNull args[0]?) rfl

theorem PerformsLeaf.written (h : s.PerformsLeaf .writeCell args) :
    s.CellStep (after frames (finishing (runLeaf .writeCell args) s.world)) := by
  rcases literalOf_cases args[0]? s.world with ⟨key, hkey⟩ | ⟨e, hkey⟩
  · have hwrite := writeCell_of_key hkey
    cases hhashable : key.requireHashable with
    | error e =>
      simp only [Cells.set, hhashable, Except.map] at hwrite
      exact .stopped hwrite
    | ok _ =>
      simp only [Cells.set, hhashable, Except.map] at hwrite
      have hfinish : finishing (runLeaf .writeCell args) s.world = .ok (.finish none, []) _ :=
        bind_of_ok hwrite
      rw [hfinish]
      exact .written args h key hkey hhashable _ rfl
  · exact .stopped (runLeaf_of_no_key hkey (.inl rfl))

theorem deleted_cellStep (s : State) (args : List Descriptor) (frames : List Frame) :
    s.CellStep (after frames (finishing (runLeaf .deleteCell args) s.world)) := by
  rcases literalOf_cases args[0]? s.world with ⟨key, hkey⟩ | ⟨e, hkey⟩
  · have hdelete := deleteCell_of_key hkey
    cases hresult : s.world.cells.delete key with
    | error e =>
      rw [hresult] at hdelete
      exact .stopped hdelete
    | ok deleted =>
      rw [hresult] at hdelete
      have hfinish : finishing (runLeaf .deleteCell args) s.world = .ok (.finish none, []) _ :=
        bind_of_ok hdelete
      rw [hfinish]
      unfold Cells.delete at hresult
      split at hresult
      · cases hresult
        exact .kept rfl
      · obtain ⟨_, -, rfl⟩ := Except.map_eq_ok.mp hresult
        exact .deleted key rfl
  · exact .stopped (runLeaf_of_no_key hkey (.inr rfl))

theorem perform_cellStep (hleaves : ∀ handler, s.Calls handler → handler.LeavesCells)
    {node : Descriptor} {tag : Value} (hfocus : s.focus = .perform node tag args)
    (hdeep : s.tooDeep = false) :
    s.CellStep (after frames (act node tag args s.world)) := by
  by_cases hwrites : ∃ effect : Leaf, Opcode.ofTag? tag = some (.leaf effect) ∧
    effect.writesCells = true
  · obtain ⟨effect, htag, hwrites⟩ := hwrites
    rw [act_of_leaf (requireHashable_of_ofTag? htag) htag]
    cases effect <;> try cases hwrites
    · exact PerformsLeaf.created ⟨hdeep, node, tag, hfocus, htag⟩
    · exact PerformsLeaf.written ⟨hdeep, node, tag, hfocus, htag⟩
    · exact deleted_cellStep s args frames
  · have hclosed : ClosedUnderEffects _ false (@Steady false) := Steady.closed
    obtain ⟨m, hself, -, hm⟩ := hclosed.acts (.refl s.world) node tag args
      (fun effect htag heffect => absurd ⟨effect, htag, heffect⟩ hwrites)
      fun htag hhas handler hget arguments => ⟨rfl, fun request hrequest hrequests => by
        have hcalls : s.Calls handler := ⟨node, tag, args, hfocus, htag, hhas, hget⟩
        rw [hleaves handler hcalls _ _ request hrequest] at hrequests
        cases hrequests⟩
    rw [hself]
    rcases hm with hm | rfl
    · exact hm.kept frames
    · exact unhandled_kept node tag s frames

theorem step_cellStep {s t : State} (hleaves : ∀ handler, s.Calls handler → handler.LeavesCells)
    (h : s.step = some t) : s.CellStep t := by
  rcases step_cases h with ⟨-, rfl⟩ | ⟨hdeep, node, tag, args, hfocus, rfl, -⟩ | ⟨m, frames,
    hm, rfl, -⟩
  · exact .kept rfl
  · exact perform_cellStep hleaves hfocus hdeep
  · exact hm.kept frames

theorem Creates.not_inserts (h : s.Creates) : ¬ s.Inserts := by
  obtain ⟨_, -, node, tag, hfocus, htag⟩ := h
  rintro ⟨_, _, ⟨-, node', tag', hfocus', htag'⟩, -⟩
  cases hfocus.symm.trans hfocus'
  cases htag.symm.trans htag'

theorem issued_le {s t : State} (h : s.Reaches t) : s.world.issued ≤ t.world.issued := by
  induction h with
  | refl => exact le_rfl
  | tail _ hstep ih =>
    have hle := ClosedUnderEffects.step_world (R := fun w w' => w.issued ≤ w'.issued) issued_closed
      (fun _ _ => le_rfl) hstep
    exact ih.trans hle

theorem PerformsLeaf.step {effect : Leaf} (h : s.PerformsLeaf effect args) :
    s.step = some (after s.frames (finishing (runLeaf effect args) s.world)) := by
  obtain ⟨hdeep, node, tag, hfocus, htag⟩ := h
  rw [step_of_not_tooDeep hdeep]
  obtain ⟨focus, frames, w⟩ := s
  cases hfocus
  rw [← act_of_leaf (requireHashable_of_ofTag? htag) htag node args]
  rfl

/-- Creating a cell issues its key, and leaves a cell under it. -/
theorem Creates.step {s t : State} (hs : s.Creates) (h : s.step = some t) :
    s.world.issued < t.world.issued ∧ ∃ d, t.world.cells = s.world.cells.put s.nextKey d := by
  obtain ⟨args, hperforms⟩ := hs
  obtain rfl := Option.some.inj (h.symm.trans hperforms.step)
  have hissued : s.world.issued < (s.world.addCell (valueOrNull args[0]?)).2.nextUnused :=
    (Nat.lt_succ_self _).trans (s.world.addCell (valueOrNull args[0]?)).2.issued_lt_nextUnused
  exact ⟨hissued, valueOrNull args[0]?, rfl⟩

/-- A step adds no key but the one that is issued for a cell that it creates, unless it writes to a
cell that is not there. -/
theorem mem_keys_step {s t : State} (hleaves : ∀ handler, s.Calls handler → handler.LeavesCells)
    (h : s.step = some t) (hnot : ¬ s.Inserts) {key : Value} (hkey : key ∈ t.world.cells.keys) :
    key ∈ s.world.cells.keys ∨ s.Creates ∧ key = s.nextKey := by
  cases step_cellStep hleaves h with
  | kept hcells => exact .inl (hcells ▸ hkey)
  | created hcreates d hcells =>
    rw [hcells] at hkey
    exact (Cells.mem_keys_put hkey).imp_right fun hnew => ⟨hcreates, hnew.1⟩
  | written args hperforms key' hname hhashable d hcells =>
    rw [hcells] at hkey
    refine (Cells.mem_keys_put hkey).elim .inl fun hnew => ?_
    exact absurd ⟨args, key', hperforms, hname, hhashable, hnew.2⟩ hnot
  | deleted key' hcells => exact .inl (Cells.keys_erase_subset (hcells ▸ hkey))

/-- An earlier state of the run has issued the key for a cell that it created. -/
def Issued (start s : State) (key : Value) : Prop :=
  ∃ e t, start.Reaches e ∧ e.Creates ∧ e.step = some t ∧ t.Reaches s ∧ key = e.nextKey

/-- Keys are never chosen by the program, as far as a state of a run shows. -/
structure KeepsKeys (start s : State) : Prop where
  /-- Every key of a cell has been issued for it. -/
  issued : ∀ key ∈ s.world.cells.keys, Issued start s key
  /-- A cell that was deleted has not come back. -/
  gone : ∀ e e' key, start.Reaches e → e.Reaches e' → e'.Reaches s → e.world.cells.has key = true →
    e'.world.cells.has key = false → s.world.cells.has key = false
  /-- Creating a cell does not overwrite one. -/
  fresh : s.Creates → s.world.cells.has s.nextKey = false

section Run

variable {start s : State}

theorem Issued.mono {t : State} {key : Value} (h : Issued start s key) (hst : s.Reaches t) :
    Issued start t key := by
  obtain ⟨e, e', hstart, hcreates, hstep, hreaches, hkey⟩ := h
  exact ⟨e, e', hstart, hcreates, hstep, hreaches.trans hst, hkey⟩

theorem Issued.number {key : Value} (h : Issued start s key) :
    ∃ n ≤ s.world.issued, key = .ofStr (keyText n) := by
  obtain ⟨e, t, -, hcreates, hstep, hreaches, rfl⟩ := h
  have hle := issued_le hreaches
  have hlt := (hcreates.step hstep).1
  exact ⟨e.world.issued + 1, by omega, rfl⟩

variable (hstart : start.world.cells.entries = []) (hnot : ∀ s, start.Reaches s → ¬ s.Inserts)
variable (hleaves : ∀ s handler, start.Reaches s → s.Calls handler → handler.LeavesCells)
include hstart hnot hleaves

/-- As long as nothing is written to a cell that is not there, all keys are issued ones. -/
theorem issued_of_reaches (hs : start.Reaches s) :
    ∀ key ∈ s.world.cells.keys, Issued start s key := by
  induction hs with
  | refl => simp [Cells.keys, hstart]
  | tail hs hstep ih =>
    intro key hkey
    rcases mem_keys_step (fun handler => hleaves _ handler hs) hstep (hnot _ hs) hkey with
      hold | ⟨hcreates, rfl⟩
    · exact (ih key hold).mono (.single hstep)
    · exact ⟨_, _, hs, hcreates, hstep, .refl, rfl⟩

omit hstart in
/-- A key that has been issued and names no cell stays away, for the keys to come are others. -/
theorem notMem_of_reaches {e : State} (he : start.Reaches e) (hs : e.Reaches s) {n : Nat}
    (hn : n ≤ e.world.issued) (hkey : .ofStr (keyText n) ∉ e.world.cells.keys) :
    .ofStr (keyText n) ∉ s.world.cells.keys := by
  induction hs with
  | refl => exact hkey
  | tail hs hstep ih =>
    intro hmem
    have hreaches := he.trans hs
    rcases mem_keys_step (fun handler => hleaves _ handler hreaches) hstep (hnot _ hreaches) hmem
      with hold | ⟨-, hnew⟩
    · exact ih hold
    · have hle := issued_le hs
      have hnumber : n = _ + 1 := keyText_injective (Value.str.inj hnew).1
      omega

theorem keepsKeys_of_reaches (hs : start.Reaches s) : KeepsKeys start s where
  issued := issued_of_reaches hstart hnot hleaves hs
  gone e e' key he hee' he's hhas hgone := by
    obtain ⟨k, hk, hagrees⟩ := Cells.has_iff.mp hhas
    obtain ⟨n, hn, rfl⟩ := (issued_of_reaches hstart hnot hleaves he k hk).number
    have hnotMem : .ofStr (keyText n) ∉ e'.world.cells.keys := fun hmem => by
      rw [Cells.has_eq_false_iff.mp hgone _ hmem] at hagrees
      cases hagrees
    have hlate := notMem_of_reaches hnot hleaves (he.trans hee') he's
      (hn.trans (issued_le hee')) hnotMem
    refine Cells.has_eq_false_iff.mpr fun k hk => ?_
    obtain ⟨m, -, rfl⟩ := (issued_of_reaches hstart hnot hleaves hs k hk).number
    by_contra hagrees'
    obtain ⟨mark, rfl⟩ := eq_str_of_agrees hagrees
    obtain ⟨mark', hkeys⟩ := eq_str_of_agrees (Bool.eq_true_of_not_eq_false hagrees')
    rw [keyText_injective (Value.str.inj hkeys).1] at hlate
    exact hlate hk
  fresh hcreates := by
    refine Cells.has_eq_false_iff.mpr fun k hk => ?_
    obtain ⟨n, hn, rfl⟩ := (issued_of_reaches hstart hnot hleaves hs k hk).number
    have hne : keyText n ≠ keyText (s.world.issued + 1) := fun heq => by
      have := keyText_injective heq
      omega
    rw [nextKey, agrees_ofStr, decide_eq_false hne]

end Run

theorem Inserts.step (h : s.Inserts) :
    ∃ t key d, s.step = some t ∧ s.world.cells.has key = false ∧
      t.world.cells = s.world.cells.put key d := by
  obtain ⟨args, key, hperforms, hname, hhashable, hhas⟩ := h
  have hwrite : runLeaf .writeCell args s.world =
      .ok none { s.world with cells := s.world.cells.put key (valueOrNull args[1]?) } := by
    rw [writeCell_of_key hname, Cells.set, hhashable]
    rfl
  have hfinish : finishing (runLeaf .writeCell args) s.world = .ok (.finish none, []) _ :=
    bind_of_ok hwrite
  have hstep := hperforms.step
  rw [hfinish] at hstep
  exact ⟨_, key, valueOrNull args[1]?, hstep, hhas, rfl⟩

/-- That breaks what keys are to be, in the state after it if not before. -/
theorem Inserts.not_keepsKeys {start s : State} (hs : start.Reaches s) (hinserts : s.Inserts) :
    ∃ t, s.step = some t ∧ ¬ KeepsKeys start t := by
  obtain ⟨t, key, d, hstep, hhas, hcells⟩ := hinserts.step
  refine ⟨t, hstep, fun hkeeps => ?_⟩
  have hmem : key ∈ t.world.cells.keys := by simp [hcells, Cells.keys_put_of_not_has hhas]
  obtain ⟨e, u, he, hcreates, hcreated, hu, rfl⟩ := hkeeps.issued key hmem
  obtain ⟨hlt, d', hput⟩ := hcreates.step hcreated
  have hself : e.nextKey.agrees e.nextKey = true := by simp [nextKey, agrees_ofStr]
  rcases Relation.ReflTransGen.total_of_right_unique step_rightUnique he hs with hes | hse
  · rcases hes.cases_head with rfl | ⟨u', hstep', hus⟩
    · exact hcreates.not_inserts hinserts
    · obtain rfl := step_rightUnique hcreated hstep'
      have hthere : u.world.cells.has e.nextKey = true := hput ▸ Cells.has_put hself d'
      have hgone := hkeeps.gone u s e.nextKey (he.tail hcreated) hus (.single hstep) hthere hhas
      rw [hcells, Cells.has_put hself] at hgone
      cases hgone
  · rcases hse.cases_head with rfl | ⟨t', hstep', hte⟩
    · exact hcreates.not_inserts hinserts
    · obtain rfl := step_rightUnique hstep hstep'
      have hle := issued_le hte
      have hle' := issued_le hu
      omega

end State

/-- Every key of a cell has been issued for it, cells that were deleted stay away and no cell is
overwritten where one is created, in all states of a run that begins without cells and calls no
handler that changes them, if and only if the run never writes to a cell that is not there. -/
theorem keeps_keys_iff {w : World} (hw : w.cells.entries = []) (node : Descriptor)
    (hleaves : ∀ s handler,
      (State.start node w).Reaches s → s.Calls handler → handler.LeavesCells) :
    (∀ s, (State.start node w).Reaches s → State.KeepsKeys (.start node w) s) ↔
      ∀ s, (State.start node w).Reaches s → ¬ s.Inserts := by
  refine ⟨fun h s hs hinserts => ?_, fun hnot s hs => State.keepsKeys_of_reaches hw hnot hleaves hs⟩
  obtain ⟨t, hstep, hbroken⟩ := hinserts.not_keepsKeys hs
  exact hbroken (h t (hs.tail hstep))

/-- A cell whose key is issued. -/
def creating : Descriptor := .effect (.ofStr "CreateRef") [.literal (.ofInt 1)]

def aboutToCreate : State :=
  ⟨.perform creating (.ofStr "CreateRef") [.literal (.ofInt 1)], [.leave],
    World.descended {} (.ofStr "CreateRef") [.literal (.ofInt 1)]⟩

theorem creating_inserts_nothing {s : State} (hs : (State.start creating {}).Reaches s) :
    ¬ s.Inserts := by
  have hbegin : (State.start creating {}).step = some aboutToCreate :=
    congrArg some (congrArg (State.after []) (arrive_of_ok rfl rfl))
  have hperforms : aboutToCreate.PerformsLeaf .createCell [.literal (.ofInt 1)] :=
    ⟨by decide, creating, .ofStr "CreateRef", rfl, by decide⟩
  rcases hs.cases_head with rfl | ⟨t, hstep, hs⟩
  · rintro ⟨_, _, ⟨-, _, _, hfocus, -⟩, -⟩
    cases hfocus
  obtain rfl := State.step_rightUnique hbegin hstep
  rcases hs.cases_head with rfl | ⟨t, hstep, hs⟩
  · exact State.Creates.not_inserts ⟨_, hperforms⟩
  obtain rfl := Option.some.inj (hperforms.step.symm.trans hstep)
  rcases hs.cases_head with rfl | ⟨t, hstep, hs⟩
  · rintro ⟨_, _, ⟨-, _, _, hfocus, -⟩, -⟩
    cases hfocus
  cases hstep
  rcases hs.cases_head with rfl | ⟨t, hstep, hs⟩
  · rintro ⟨_, _, ⟨-, _, _, hfocus, -⟩, -⟩
    cases hfocus
  cases hstep

theorem creating_keeps_keys :
    ({} : World).cells.entries = [] ∧
      ∀ s, (State.start creating {}).Reaches s → State.KeepsKeys (.start creating {}) s := by
  have hcalls : (State.start creating {}).allAhead State.callsWithArgumentsOnly 4 = true := by
    decide +kernel
  have hleaves (s : State) (handler : Handler) (hs : (State.start creating {}).Reaches s)
      (hcall : s.Calls handler) : handler.LeavesCells :=
    Handler.leavesCells_of_takesArgumentsOnly
      (hcall.takesArgumentsOnly (State.of_allAhead hcalls hs))
  exact ⟨rfl, (keeps_keys_iff rfl creating hleaves).mpr fun _ => creating_inserts_nothing⟩

/-- A cell whose key the program chooses. -/
def choosing : Descriptor :=
  .effect (.ofStr "SetRef") [.literal (.ofStr "chosen"), .literal (.ofInt 1)]

def aboutToWrite : State :=
  ⟨.perform choosing (.ofStr "SetRef") [.literal (.ofStr "chosen"), .literal (.ofInt 1)], [.leave],
    World.descended {} (.ofStr "SetRef") [.literal (.ofStr "chosen"), .literal (.ofInt 1)]⟩

theorem start_reaches_aboutToWrite : (State.start choosing {}).Reaches aboutToWrite :=
  .single (congrArg some (congrArg (State.after []) (arrive_of_ok rfl rfl)))

theorem aboutToWrite_inserts : aboutToWrite.Inserts := by
  have hname : literal (.literal (.ofStr "chosen")) aboutToWrite.world =
      .ok (.ofStr "chosen") aboutToWrite.world :=
    resolve_of_ok rfl
  exact ⟨_, _, ⟨by decide, choosing, .ofStr "SetRef", rfl, by decide⟩, hname, rfl, rfl⟩

theorem choosing_breaks_keys :
    ∃ s, (State.start choosing {}).Reaches s ∧ ¬ State.KeepsKeys (.start choosing {}) s := by
  obtain ⟨t, hstep, hbroken⟩ := aboutToWrite_inserts.not_keepsKeys start_reaches_aboutToWrite
  exact ⟨t, start_reaches_aboutToWrite.tail hstep, hbroken⟩

end Evaluation

end EffectTree
