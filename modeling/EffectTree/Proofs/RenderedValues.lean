import EffectTree.Proofs.FieldwiseMerging
import EffectTree.Proofs.RenderingEnds

/-!
# Rendering what decodes

Decoding looks for a field through a projection and has a limited depth; rendering goes on with the
fields as they stand and writes a name that it is inside already. Without variables a field is what
its projection leads to, and a name that came up inside itself would have a value inside itself. So
a descriptor that has a value is rendered like the value.
-/
namespace EffectTree

namespace Descriptor

/-- Without variables, with scalars for literals and with distinct names in each record. -/
inductive Concrete : Descriptor → Prop
  | literal {v : Value} (h : v.isScalar = true) : Concrete (.literal v)
  | unknown : Concrete .unknown
  | tuple {items : List Descriptor} (h : ∀ d ∈ items, Concrete d) : Concrete (.tuple items)
  | record {fields : Table Descriptor} (hdistinct : fields.keys.Nodup)
      (h : ∀ entry ∈ fields, Concrete entry.2) :
      Concrete (.record fields)
  | effect {tag : Value} {args : List Descriptor} (h : ∀ d ∈ args, Concrete d) :
      Concrete (.effect tag args)
  | ref {name : Value} : Concrete (.ref name)
  | result {key : Value} : Concrete (.result key)
  | index {target : Descriptor} {field : Value} {mark : Mark} (h : Concrete target) :
      Concrete (.index target field mark)
  | inter {parts : List Descriptor} (h : ∀ d ∈ parts, Concrete d) : Concrete (.inter parts)
  | op {name : Value} {args : List Descriptor} (h : ∀ d ∈ args, Concrete d) :
      Concrete (.op name args)

namespace Concrete

variable {d : Descriptor}

theorem free_notMem_mentions (h : d.Concrete) (name : Value) : .free name ∉ d.mentions := by
  induction h with
  | literal | unknown | ref | result => simp
  | index _ ih => rwa [mentions_index]
  | tuple _ ih | inter _ ih | op _ ih =>
    simp only [mem_mentions_tuple, mem_mentions_inter, mem_mentions_op, not_exists, not_and]
    exact ih
  | effect _ ih =>
    simp only [mem_mentions_effect, reduceCtorEq, false_or, not_exists, not_and]
    exact ih
  | record _ _ ih =>
    simp only [mem_mentions_record, not_and, forall_exists_index, and_imp]
    exact fun entry hentry hm => absurd hm (ih entry hentry)

theorem freeVars_eq_nil (h : d.Concrete) : d.freeVars = [] :=
  List.eq_nil_iff_forall_not_mem.mpr fun name hname => h.free_notMem_mentions name
    ((mem_freeVars_iff name d).mp hname)

theorem put {table : Table Descriptor} (h : ∀ entry ∈ table, entry.2.Concrete) (hd : d.Concrete)
    (name : String) :
    ∀ entry ∈ table.put name d, entry.2.Concrete := by
  intro entry hentry
  rcases Table.mem_put hentry with hentry | rfl
  · exact h entry hentry
  · exact hd

end Concrete

theorem ofValue_of_isScalar {v : Value} (h : v.isScalar = true) : ofValue v = .ok (.literal v) := by
  cases v with
  | null | bool | int | float | str => rfl
  | _ => cases h

mutual

theorem concrete_ofValue : {v : Value} → {d : Descriptor} → ofValue v = .ok d → d.Concrete
  | .null, _, h | .bool _, _, h | .int .., _, h | .float .., _, h | .str .., _, h => by
      cases h
      exact .literal rfl
  | .list xs _, _, h | .tuple xs _, _, h => by
      obtain ⟨ds, hds, rfl⟩ := Except.map_eq_ok.mp h
      exact .tuple (concrete_ofItems hds)
  | .dict es _, _, h => by
      obtain ⟨fields, hfields, rfl⟩ := Except.map_eq_ok.mp h
      obtain ⟨hdistinct, hconcrete⟩ :=
        concrete_ofEntries (by exact List.nodup_nil) (by simp) hfields
      exact .record hdistinct hconcrete
  | .complex .., _, h | .bytes .., _, h | .set .., _, h | .ellipsis, _, h | .builtin _, _, h
  | .generic .., _, h | .union .., _, h | .context _, _, h => by cases h

theorem concrete_ofItems :
    {vs : List Value} → {ds : List Descriptor} → ofItems vs = .ok ds → ∀ d ∈ ds, d.Concrete
  | [], _, h => by
      cases h
      simp
  | v :: vs, _, h => by
      rw [ofItems] at h
      split at h
      · cases h
      · rename_i d hd
        obtain ⟨ds, hds, rfl⟩ := Except.map_eq_ok.mp h
        exact List.forall_mem_cons.mpr ⟨concrete_ofValue hd, concrete_ofItems hds⟩

theorem concrete_ofEntries :
    {es : List (Value × Value)} → {acc fields : Table Descriptor} → acc.keys.Nodup →
    (∀ entry ∈ acc, entry.2.Concrete) → ofEntries es acc = .ok fields →
    fields.keys.Nodup ∧ ∀ entry ∈ fields, entry.2.Concrete
  | [], _, _, hdistinct, hacc, h => by
      cases h
      exact ⟨hdistinct, hacc⟩
  | (k, v) :: rest, acc, _, hdistinct, hacc, h => by
      rw [ofEntries] at h
      split at h
      · cases h
      · rename_i d hd
        exact concrete_ofEntries (Table.nodup_keys_put hdistinct _ _)
          (Concrete.put hacc (concrete_ofValue hd) _) h

end

end Descriptor

namespace Resolution

open Descriptor

mutual

theorem concrete_merge {left : Descriptor} (hleft : left.Concrete) :
    (right : Descriptor) → right.Concrete → (merge left right).Concrete
  | .unknown, _ => hleft
  | .record rs, hright => by
      cases hright with
      | record hdistinct h =>
        cases hleft with
        | record hdistinct' h' =>
          exact .record (nodup_keys_mergeFields hdistinct') (concrete_mergeFields h' rs h)
        | _ => exact .record hdistinct h
  | .literal _, h | .tuple _, h | .effect .., h | .var _, h | .ref _, h | .result _, h
  | .index .., h | .inter _, h
  | .op .., h => h

theorem concrete_mergeFields {acc : Table Descriptor} (hacc : ∀ entry ∈ acc, entry.2.Concrete) :
    (fields : List (String × Descriptor)) → (∀ entry ∈ fields, entry.2.Concrete) →
    ∀ entry ∈ mergeFields acc fields, entry.2.Concrete
  | [], _ => hacc
  | (name, right) :: rest, h => by
      rw [List.forall_mem_cons] at h
      rw [mergeFields]
      split
      · rename_i left hleft
        have hmerged := concrete_merge (hacc _ (Table.mem_of_get? hleft)) right h.1
        exact concrete_mergeFields (Concrete.put hacc hmerged name) rest h.2
      · exact concrete_mergeFields (Concrete.put hacc h.1 name) rest h.2

end

/-- A part is one of the descriptors in the whole, or the number of items. -/
theorem concrete_project {d part : Descriptor} {field : Value} (hd : d.Concrete)
    (h : project d field = .ok (some part)) : part.Concrete := by
  cases hd with
  | @record fields hdistinct hfields =>
    cases field with
    | str name mark =>
      simp only [project] at h
      split at h
      · cases h
      · rename_i value hvalue
        have hconcrete := hfields _ (Table.mem_of_get? hvalue)
        rw [closeOver_of_closed hconcrete.freeVars_eq_nil] at h
        cases h
        exact hconcrete
    | _ =>
      simp only [project] at h
      split at h <;> cases h
  | tuple hitems =>
    rcases project_tuple_cases h with rfl | hpart
    · exact .literal rfl
    · exact hitems part hpart
  | _ => cases h

theorem of_whenDecoded {α : Type} {decoded : Except Obstacle α} {next : α → Except Fault Step}
    {d : Descriptor} (h : whenDecoded decoded next = .ok (.next d)) :
    ∃ a, decoded = .ok a ∧ next a = .ok (.next d) := by
  unfold whenDecoded at h
  split at h
  · cases h
  · cases h
  · exact ⟨_, rfl, h⟩

theorem concrete_conditionalStep {decode : Descriptor → Except Obstacle Value}
    {args : List Descriptor} {d : Descriptor} (hargs : ∀ d ∈ args, d.Concrete)
    (h : conditionalStep decode args = .ok (.next d)) : d.Concrete := by
  unfold conditionalStep at h
  split at h
  · rename_i condition yes no
    obtain ⟨v, -, hnext⟩ := of_whenDecoded h
    cases hnext
    split
    · exact hargs yes (by simp)
    · exact hargs no (by simp)
  · cases h

theorem concrete_operatorStep {decode : Descriptor → Except Obstacle Value} {name : Value}
    {args : List Descriptor} {d : Descriptor} (h : operatorStep decode name args = .ok (.next d)) :
    d.Concrete := by
  unfold operatorStep at h
  split at h
  · split at h
    · cases h
    · obtain ⟨values, -, hnext⟩ := of_whenDecoded h
      unfold outcomeStep at hnext
      split at hnext
      · rename_i outcome houtcome
        obtain ⟨v, -, hv⟩ := Except.bind_eq_ok.mp houtcome
        cases hnext
        exact concrete_ofValue hv
      · cases hnext
  · split at h <;> cases h

section Steps

variable {r : Resolver} (hdefinitions : ∀ entry ∈ r.definitions, entry.2.Concrete)
  (hslots : ∀ entry ∈ r.slots, entry.2.Concrete)
  {head : Descriptor → Except Fault Descriptor} (hhead : ∀ d found, d.Concrete →
    head d = .ok found → found.Concrete)

theorem concrete_named {table : Table Descriptor} (htable : ∀ entry ∈ table, entry.2.Concrete)
    {missing : Value → Fault} {name : Value} {d : Descriptor}
    (h : named table missing name = .ok d) : d.Concrete := by
  unfold named at h
  split at h
  · split at h
    · rename_i found hfound
      cases h
      exact htable _ (Table.mem_of_get? hfound)
    · cases h
  · split at h <;> cases h

include hdefinitions hslots hhead

/-- A step leads to a part, to a definition or a slot, or to the descriptor of a value. -/
theorem concrete_step {d next : Descriptor} (hd : d.Concrete)
    (h : step r head d = .ok (.next next)) :
    next.Concrete := by
  cases hd with
  | ref =>
    simp only [step] at h
    split at h
    · cases h
    · rename_i target htarget
      split at h
      · cases h
      · cases h
        exact concrete_named hdefinitions htarget
  | result =>
    obtain ⟨found, hfound, hnext⟩ := Except.map_eq_ok.mp h
    rw [partStep] at hnext
    split at hnext
    · cases hnext
    · cases hnext
      exact concrete_named hslots hfound
  | index htarget =>
    obtain ⟨part?, hpart, hnext⟩ := Except.map_eq_ok.mp h
    obtain ⟨target, hfound, hproject⟩ := Except.bind_eq_ok.mp hpart
    cases part? with
    | none =>
      cases hnext
      exact .unknown
    | some part =>
      rw [partStep] at hnext
      split at hnext
      · cases hnext
      · cases hnext
        exact concrete_project (hhead _ _ htarget hfound) hproject
  | inter hparts =>
    obtain ⟨merged, hmerged, hnext⟩ := Except.map_eq_ok.mp h
    cases hnext
    refine Except.foldlM_invariant (P := Concrete) (Q := Concrete) ?_ .unknown hparts hmerged
    intro acc part acc' hacc hpart hstep
    obtain ⟨found, hfound, rfl⟩ := Except.map_eq_ok.mp hstep
    exact concrete_merge hacc found (hhead _ _ hpart hfound)
  | op hargs =>
    simp only [step] at h
    split at h
    · exact concrete_conditionalStep hargs h
    · exact concrete_operatorStep h
  | _ => cases h

theorem concrete_iterate {limit : Int} {k : Nat} {d found : Descriptor} (hd : d.Concrete)
    (h : iterate limit (step r head) k d = .ok found) : found.Concrete := by
  induction k generalizing d with
  | zero => cases h
  | succ k ih =>
    rw [iterate] at h
    split at h
    · cases h
    · cases h
      exact hd
    · rename_i next hnext
      exact ih (concrete_step hdefinitions hslots hhead hd hnext) h

omit hhead in
theorem concrete_headAt {n : Nat} {d found : Descriptor} (hd : d.Concrete)
    (h : headAt r n d = .ok found) :
    found.Concrete := by
  induction n generalizing d found with
  | zero => cases h
  | succ n ih => exact concrete_iterate hdefinitions hslots (fun _ _ => ih) hd h

end Steps

section Inversion

variable {r : Resolver} {d found : Descriptor}

/-- A search that ends well has room for a step, and goes on with what the step leads to. -/
theorem step_of_head (h : r.head d = .ok found) :
    ∃ n, r.nesting = n + 1 ∧ 0 < r.maxSteps ∧ (step r (headAt r n) d = .ok .stable ∨
      ∃ next, step r (headAt r n) d = .ok (.next next) ∧ r.head next = .ok found) := by
  rw [Resolver.head] at h
  cases hn : r.nesting with
  | zero =>
    rw [hn] at h
    cases h
  | succ n =>
    rw [hn, headAt] at h
    cases hk : r.maxSteps.toNat with
    | zero =>
      rw [hk] at h
      cases h
    | succ k =>
      rw [hk, iterate] at h
      refine ⟨n, rfl, by omega, ?_⟩
      split at h
      · cases h
      · rename_i hstable
        exact .inl hstable
      · rename_i next hnext
        refine .inr ⟨next, hnext, ?_⟩
        have hkept : Kept (fun _ => True) (iterate r.maxSteps (step r (headAt r n)) k next)
            (iterate r.maxSteps (step r (headAt r n)) (k + 1) next) :=
          iterate_kept (fun _ => .same _) (Nat.le_succ k) (.inr trivial) next
        rw [Resolver.head, hn, headAt, hk]
        exact hkept.ok h

theorem head_of_ref {name : Value} (h : r.head (.ref name) = .ok found) :
    ∃ text mark target, name = .str text mark ∧ r.definitions.get? text = some target ∧
      r.head target = .ok found := by
  obtain ⟨n, -, -, hstep⟩ := step_of_head h
  simp only [step] at hstep
  split at hstep
  · simp at hstep
  · rename_i target htarget
    unfold named at htarget
    split at htarget
    · rename_i text mark
      split at htarget
      · rename_i hget
        cases htarget
        split at hstep
        · simp at hstep
        · rcases hstep with hstep | ⟨next, hnext, hfound⟩
          · cases hstep
          · cases hnext
            exact ⟨text, mark, target, rfl, hget, hfound⟩
      · cases htarget
    · split at htarget <;> cases htarget

/-- The head of a field, as a projection finds it, is that of the field as it stands. -/
theorem head_of_field {fields : Table Descriptor} {name : String}
    (hfind : fields.get? name = some d) (hclosed : d.freeVars = [])
    (h : r.head (.index (.record fields) (.ofStr name) .fresh) = .ok found) :
    r.head d = .ok found := by
  obtain ⟨n, hn, hsteps, hstep⟩ := step_of_head h
  cases n with
  | zero => simp [step, headAt, bind, Except.bind, Except.map] at hstep
  | succ n =>
    have hrecord : headAt r (n + 1) (.record fields) = .ok (.record fields) :=
      headAt_of_stable hsteps rfl
    rw [step_index_record hrecord hfind hclosed] at hstep
    rcases hstep with hstep | ⟨next, hnext, hfound⟩
    · cases hstep
    · cases hnext
      exact hfound

end Inversion

theorem forall₂_imp_of_mem {α β : Type} {R S : α → β → Prop} {xs : List α} {ys : List β}
    (h : List.Forall₂ R xs ys) (hRS : ∀ x ∈ xs, ∀ y ∈ ys, R x y → S x y) : List.Forall₂ S xs ys :=
  List.forall₂_iff_zip.mpr ⟨h.length_eq, fun hmem =>
    hRS _ (List.of_mem_zip hmem).1 _ (List.of_mem_zip hmem).2 (List.forall₂_zip h hmem)⟩

/-- A descriptor decodes to a value with enough levels. -/
def Decodes (r : Resolver) (d : Descriptor) (v : Value) : Prop :=
  ∃ levels, decodeWith r.head levels d = .ok v

section Decoding

variable {head : Descriptor → Except Fault Descriptor}

/-- With more levels nothing is lost but that a descriptor is not literal. -/
theorem decodeWith_levels_kept {levels levels' : Nat} (hle : levels ≤ levels') (d : Descriptor) :
    Kept (· = .notLiteral) (decodeWith head levels d) (decodeWith head levels' d) := by
  induction levels generalizing levels' d with
  | zero => exact .lost _ rfl
  | succ levels ih =>
    obtain ⟨levels', rfl⟩ : ∃ k, levels' = k + 1 := ⟨levels' - 1, by omega⟩
    have hparts (d : Descriptor) :
        Kept (· = .notLiteral) (decodeWith head levels d) (decodeWith head levels' d) :=
      ih (by omega) d
    rw [decodeWith, decodeWith]
    cases head d with
    | error e => exact .same _
    | ok found =>
      cases found with
      | tuple items => exact (Kept.mapM hparts items).map _
      | record fields => exact (Kept.mapM (fun entry => (hparts _).map _) fields).map _
      | _ => exact .same _

theorem Decodes.unique {r : Resolver} {d : Descriptor} {v v' : Value} (h : Decodes r d v)
    (h' : Decodes r d v') :
    v = v' := by
  obtain ⟨levels, h⟩ := h
  obtain ⟨levels', h'⟩ := h'
  have hmax := (decodeWith_levels_kept (le_max_left levels levels') d).ok h
  have hmax' := (decodeWith_levels_kept (le_max_right levels levels') d).ok h'
  exact Except.ok.inj (hmax.symm.trans hmax')

theorem exists_head_of_decodeWith {levels : Nat} {d : Descriptor} {v : Value}
    (h : decodeWith head levels d = .ok v) :
    ∃ found, head d = .ok found := by
  cases levels with
  | zero => cases h
  | succ levels =>
    rw [decodeWith] at h
    cases hd : head d with
    | error e =>
      rw [hd] at h
      cases h
    | ok found => exact ⟨found, rfl⟩

theorem decodeWith_of_head {levels : Nat} {d d' : Descriptor} {v : Value}
    (hhead : ∀ found, head d = .ok found → head d' = .ok found)
    (h : decodeWith head levels d = .ok v) :
    decodeWith head levels d' = .ok v := by
  obtain ⟨found, hfound⟩ := exists_head_of_decodeWith h
  rwa [decodeWith_eq_of_head ((hhead found hfound).trans hfound.symm)]

end Decoding

/-- The entries of a decoded record are named like its fields, and what is in them is what the
fields decode to as they stand. -/
theorem fields_decode {r : Resolver} {levels : Nat} {fields : Table Descriptor}
    {es : List (Value × Value)} (hdistinct : fields.keys.Nodup)
    (hfields : ∀ field ∈ fields, field.2.Concrete) (h : (fields.mapM fun field =>
      (decodeWith r.head levels (.index (.record fields) (.ofStr field.1) .fresh)).map fun v =>
        (Value.ofStr field.1, v)) = .ok es) :
    List.Forall₂ (fun field entry => entry.1 = .ofStr field.1 ∧
      decodeWith r.head levels field.2 = .ok entry.2)
      fields es := by
  refine forall₂_imp_of_mem (Except.mapM_eq_ok.mp h) fun field hfield entry _ hentry => ?_
  obtain ⟨v, hv, rfl⟩ := Except.map_eq_ok.mp hentry
  have hfind : fields.get? field.1 = some field.2 := Table.get?_of_mem hdistinct hfield
  have hclosed := (hfields field hfield).freeVars_eq_nil
  exact ⟨rfl, decodeWith_of_head (fun _ => head_of_field hfind hclosed) hv⟩

theorem keys_of_decoded {fields : Table Descriptor} {es : List (Value × Value)}
    {R : String × Descriptor → Value × Value → Prop}
    (h : List.Forall₂ (fun field entry => entry.1 = .ofStr field.1 ∧ R field entry) fields es) :
    (es.map fun entry => entry.1.display) = fields.keys := by
  rw [Table.keys, ← List.forall₂_eq_eq_eq, List.forall₂_map_left_iff, List.forall₂_map_right_iff]
  exact h.flip.imp fun entry field h => by rw [h.1]; rfl

/-- The names that rendering is inside of stand for values that are at least so deep. -/
def Around (r : Resolver) (seen : List Value) (depth : Nat) : Prop :=
  ∀ name mark target v, .str name mark ∈ seen → r.definitions.get? name = some target →
    Decodes r target v →
    depth ≤ v.depth

/-- A descriptor with a value less deep than those around it is not one of them. -/
theorem exists_surroundings {r : Resolver} {levels depth : Nat} {seen : List Value} {d : Descriptor}
    {v : Value} (hv : decodeWith r.head levels d = .ok v) (hdepth : v.depth < depth)
    (hseen : Around r seen depth) :
    ∃ inner, surroundings seen d = .ok (.inr inner) ∧ Around r inner v.depth := by
  have hless : Around r seen v.depth := fun name mark target w hmem hget hw =>
    hdepth.le.trans (hseen name mark target w hmem hget hw)
  by_cases href : ∃ name, d = .ref name
  · obtain ⟨name, rfl⟩ := href
    obtain ⟨found, hfound⟩ := exists_head_of_decodeWith hv
    obtain ⟨text, mark, target, rfl, hget, htarget⟩ := head_of_ref hfound
    have hdecodes : Decodes r target v :=
      ⟨levels, by rwa [decodeWith_eq_of_head (htarget.trans hfound.symm)]⟩
    have hunseen : ¬ seen.any (·.agrees (.str text mark)) = true := by
      rw [any_agrees_iff]
      rintro ⟨mark', hmem⟩
      exact absurd hdepth (Nat.not_lt.mpr (hseen text mark' target v hmem hget hdecodes))
    refine ⟨_, surroundings_of_unseen hunseen, fun name' mark' target' w hmem hget' hw => ?_⟩
    rcases List.mem_cons.mp hmem with heq | hmem
    · cases heq
      cases hget.symm.trans hget'
      rw [hdecodes.unique hw]
    · exact hless name' mark' target' w hmem hget' hw
  · exact ⟨seen, surroundings_of_ne_ref fun name heq => href ⟨name, heq⟩, hless⟩

/-- Inside of names for deeper values the first descriptor is rendered like the second one by
itself, which has a text where there is room. -/
structure PrintsLike (r r' : Resolver) (depth : Nat) (d d' : Descriptor) : Prop where
  same : ∀ room seen, Around r seen depth → renderAt r room seen d = renderAt r' room [] d'
  text : ∀ room, depth ≤ room → ∃ text, renderAt r' room [] d' = .ok (.ofStr text)

variable {r r' : Resolver}

theorem printsLike_of_heads {levels depth : Nat} {d d' head : Descriptor} {v : Value}
    (hv : decodeWith r.head levels d = .ok v) (hdepth : v.depth < depth)
    (hhead : r.head d = .ok head) (hhead' : r'.head d' = .ok d') (href : ∀ name, d' ≠ .ref name)
    (hsame : ∀ room inner, Around r inner v.depth →
      renderHead (renderAt r room inner) head = renderHead (renderAt r' room []) d')
    (htext : ∀ room, v.depth ≤ room →
      ∃ text, renderHead (renderAt r' room []) d' = .ok (.ofStr text)) :
    PrintsLike r r' depth d d' := by
  have hplain (room : Nat) : renderAt r' (room + 1) [] d' =
      renderHead (renderAt r' room []) d' := by
    simp only [renderAt, surroundings_of_ne_ref href, hhead']
  constructor
  · intro room seen hseen
    cases room with
    | zero => rfl
    | succ room =>
      obtain ⟨inner, hinner, haround⟩ := exists_surroundings hv hdepth hseen
      rw [hplain, ← hsame room inner haround]
      simp only [renderAt, hinner, hhead]
  · intro room hroom
    obtain ⟨room, rfl⟩ : ∃ k, room = k + 1 := ⟨room - 1, by omega⟩
    rw [hplain]
    exact htext room (by omega)

theorem exists_of_forall₂ {α β : Type} {R : α → β → Prop} {xs : List α} {ys : List β}
    (h : List.Forall₂ R xs ys) {y : β} (hy : y ∈ ys) : ∃ x, R x y := by
  have hys : List.Forall₂ (fun y x => (∃ x, R x y) ∧ R x y) ys xs :=
    h.flip.imp fun _ x hxy => ⟨⟨x, hxy⟩, hxy⟩
  exact ((List.forall₂_and_left ys xs).mp hys).1 y hy

theorem forall₂_zip_keys {R : Descriptor → Descriptor → Prop} {fields : Table Descriptor}
    {ds : List Descriptor} (h : List.Forall₂ (fun field d => R field.2 d) fields ds) :
    List.Forall₂ (fun field field' => field.1 = field'.1 ∧ R field.2 field'.2) fields
      (fields.keys.zip ds) := by
  induction h with
  | nil => exact .nil
  | cons hd _ ih => exact .cons ⟨rfl, hd⟩ ih

section Values

variable {levels depth : Nat} {d : Descriptor} (hsteps : 0 < r'.maxSteps)
    (hnesting : 0 < r'.nesting)
include hsteps hnesting

theorem printsLike_literal {v : Value} (hscalar : v.isScalar = true)
    (hv : decodeWith r.head levels d = .ok v) (hdepth : v.depth < depth)
    (hhead : r.head d = .ok (.literal v)) : PrintsLike r r' depth d (.literal v) := by
  refine printsLike_of_heads hv hdepth hhead (head_of_stable hsteps hnesting fun _ => rfl)
    (by simp) ?_ ?_
  · exact fun _ _ _ => rfl
  · intro room _
    cases v with
    | null | bool | int | float | str => exact ⟨_, rfl⟩
    | _ => cases hscalar

theorem printsLike_tuple {items ds : List Descriptor} {vs : List Value}
    (hv : decodeWith r.head levels d = .ok (.ofList vs)) (hdepth : (Value.ofList vs).depth < depth)
    (hhead : r.head d = .ok (.tuple items))
    (hparts : List.Forall₂ (PrintsLike r r' (Value.ofList vs).depth) items ds) :
    PrintsLike r r' depth d (.tuple ds) := by
  refine printsLike_of_heads hv hdepth hhead (head_of_stable hsteps hnesting fun _ => rfl)
    (by simp) ?_ ?_
  · intro room inner haround
    have hsame : renderParts (renderAt r room inner) items =
        renderParts (renderAt r' room []) ds := by
      rw [renderParts, renderParts,
        Except.mapM_congr_forall₂ (hparts.imp fun _ _ h => h.same room inner haround)]
    rw [renderHead, renderHead, hsame]
  · intro room hroom
    obtain ⟨text, htext⟩ : ∃ text, renderParts (renderAt r' room []) ds = .ok text := by
      refine exists_renderParts fun part hpart => ?_
      obtain ⟨item, hitem⟩ := exists_of_forall₂ hparts hpart
      obtain ⟨text, htext⟩ := hitem.text room hroom
      exact ⟨text, _, htext⟩
    exact ⟨_, by rw [renderHead, htext]; rfl⟩

theorem printsLike_record {fields fields' : Table Descriptor} {es : List (Value × Value)}
    (hv : decodeWith r.head levels d = .ok (.ofDict es)) (hdepth : (Value.ofDict es).depth < depth)
    (hhead : r.head d = .ok (.record fields))
    (hparts : List.Forall₂ (fun field field' => field.1 = field'.1 ∧
      PrintsLike r r' (Value.ofDict es).depth field.2 field'.2) fields fields') :
    PrintsLike r r' depth d (.record fields') := by
  refine printsLike_of_heads hv hdepth hhead (head_of_stable hsteps hnesting fun _ => rfl)
    (by simp) ?_ ?_
  · intro room inner haround
    have hmembers : fields.mapM (renderMember (renderAt r room inner)) =
        fields'.mapM (renderMember (renderAt r' room [])) :=
      Except.mapM_congr_forall₂ (hparts.imp fun _ _ h => by
        rw [renderMember, renderMember, h.1, h.2.same room inner haround])
    cases hparts with
    | nil => rfl
    | cons => simp only [renderHead, hmembers]
  · intro room hroom
    obtain ⟨members, hmembers⟩ : ∃ members, fields'.mapM (renderMember (renderAt r' room [])) =
        .ok members := by
      refine exists_members fun field' hfield' => ?_
      obtain ⟨field, -, hfield⟩ := exists_of_forall₂ hparts hfield'
      obtain ⟨text, htext⟩ := hfield.text room hroom
      exact ⟨text, _, htext⟩
    cases fields' with
    | nil => exact ⟨_, rfl⟩
    | cons => exact ⟨_, by simp only [renderHead, hmembers]; rfl⟩

end Values

section Agreement

variable (hdefinitions : ∀ entry ∈ r.definitions, entry.2.Concrete)
    (hslots : ∀ entry ∈ r.slots, entry.2.Concrete)
  (hsteps : 0 < r'.maxSteps) (hnesting : 0 < r'.nesting)
include hdefinitions hslots hsteps hnesting

/-- What decodes to a value is rendered like the descriptor of the value. -/
theorem exists_printsLike {levels : Nat} {d : Descriptor} {v : Value} (hd : d.Concrete)
    (hv : decodeWith r.head levels d = .ok v) :
    ∃ d', ofValue v = .ok d' ∧ ∀ depth, v.depth < depth → PrintsLike r r' depth d d' := by
  -- On the levels of decoding. The parts are rendered inside of the whole, so the names around
  -- them stand for values
  -- at least as deep as the whole one.
  induction levels generalizing d v with
  | zero => cases hv
  | succ levels ih =>
    obtain ⟨head, hhead⟩ := exists_head_of_decodeWith hv
    have hconcrete : head.Concrete := concrete_headAt hdefinitions hslots hd hhead
    have hparts := hv
    rw [decodeWith, hhead] at hparts
    cases hconcrete with
    | literal hscalar =>
      cases hparts
      exact ⟨.literal v, ofValue_of_isScalar hscalar, fun depth hdepth =>
        printsLike_literal hsteps hnesting hscalar hv hdepth hhead⟩
    | @tuple items hitems =>
      obtain ⟨vs, hvs, rfl⟩ := Except.map_eq_ok.mp hparts
      have hprints : List.Forall₂ (fun item w => ∃ d', ofValue w = .ok d' ∧
          PrintsLike r r' (Value.ofList vs).depth item d') items vs := by
        refine forall₂_imp_of_mem (Except.mapM_eq_ok.mp hvs) fun item hitem w hw hdecodes => ?_
        obtain ⟨d', hd', hprints⟩ := ih (hitems item hitem) hdecodes
        exact ⟨d', hd', hprints _ (Value.depthOfItems_le.mp le_rfl w hw)⟩
      obtain ⟨ds, hds, hprints⟩ := Except.exists_mapM_forall₂ hprints
      refine ⟨.tuple ds, ?_, fun depth hdepth =>
        printsLike_tuple hsteps hnesting hv hdepth hhead hprints⟩
      rw [Value.ofList, ofValue, Artifact.ofItems_eq, hds]
      rfl
    | @record fields hdistinct hfields =>
      obtain ⟨es, hes, rfl⟩ := Except.map_eq_ok.mp hparts
      have hdecodes := fields_decode hdistinct hfields hes
      have hkeys := keys_of_decoded hdecodes
      have hprints : List.Forall₂ (fun field w => ∃ d', ofValue w = .ok d' ∧
          PrintsLike r r' (Value.ofDict es).depth field.2 d') fields (es.map (·.2)) := by
        refine List.forall₂_map_right_iff.mpr
          (forall₂_imp_of_mem hdecodes fun field hfield entry hentry h => ?_)
        obtain ⟨d', hd', hprints⟩ := ih (hfields field hfield) h.2
        exact ⟨d', hd', hprints _ (Value.depthOfEntries_le.mp le_rfl entry hentry)⟩
      obtain ⟨ds, hds, hprints⟩ := Except.exists_mapM_forall₂ hprints
      refine ⟨.record (fields.keys.zip ds), ?_, fun depth hdepth =>
        printsLike_record hsteps hnesting hv hdepth hhead (forall₂_zip_keys hprints)⟩
      rw [Value.ofDict, ofValue,
        Artifact.ofEntries_eq (fun _ _ => List.not_mem_nil) (hkeys ▸ hdistinct), hds, ← hkeys]
      rfl
    | _ => cases hparts

end Agreement

end Resolution

namespace Resolver

open Resolution

/-- A descriptor without variables that decodes to a value is rendered like the descriptor of the
value, just as if there were no definitions and no slots, and it has a text if the value is not too
deep for rendering. -/
theorem render_decoded (r : Resolver) (hdefinitions : ∀ entry ∈ r.definitions, entry.2.Concrete)
    (hslots : ∀ entry ∈ r.slots, entry.2.Concrete) {d : Descriptor} (hd : d.Concrete) {v : Value}
    (hv : r.decode d = .ok v) :
    ∃ d', Descriptor.ofValue v = .ok d' ∧ r.render d = r.render d' ∧
      r.render d' = { r with definitions := [], slots := [] }.render d' ∧
      (v.depth < r.nesting → ∃ text, r.render d = .ok (.ofStr text)) := by
  obtain ⟨head, hhead⟩ := exists_head_of_decodeWith hv
  obtain ⟨n, hn, hsteps, -⟩ := step_of_head hhead
  have hnesting : 0 < r.nesting := hn ▸ n.succ_pos
  have hnone (depth : Nat) : Around r [] depth := fun _ _ _ _ hmem => absurd hmem List.not_mem_nil
  have hprints (r' : Resolver) (hsteps : 0 < r'.maxSteps) (hnesting : 0 < r'.nesting) :
      ∃ d', Descriptor.ofValue v = .ok d' ∧ ∀ depth, v.depth < depth → PrintsLike r r' depth d d' :=
    exists_printsLike hdefinitions hslots hsteps hnesting hd hv
  obtain ⟨d', hd', hself⟩ := hprints r hsteps hnesting
  obtain ⟨d'', hd'', hbare⟩ := hprints { r with definitions := [], slots := [] } hsteps hnesting
  cases hd'.symm.trans hd''
  have hsame := (hself _ v.depth.lt_succ_self).same r.nesting [] (hnone _)
  refine ⟨d', hd', hsame, ?_, fun hdepth => ?_⟩
  · exact hsame.symm.trans ((hbare _ v.depth.lt_succ_self).same r.nesting [] (hnone _))
  · obtain ⟨text, htext⟩ := (hself _ v.depth.lt_succ_self).text r.nesting hdepth
    exact ⟨text, hsame.trans htext⟩

/-- A point with coordinates that are computed, and a result with a point in it. -/
def drawing : Resolver where
  definitions :=
    [("Side", .op (.ofStr "add") [.literal (.ofInt 2), .literal (.ofInt 3)]),
      ("Corner", .record [("x", .ref (.ofStr "Side")), ("y", .ref (.ofStr "Side"))])]
  slots := [("k", Store.Results.slot (.tuple [.ref (.ofStr "Corner")]))]

/-- A corner that is found in the result, with a label. -/
def labelled : Descriptor :=
  .inter [.index (Store.Results.reference (.ofStr "k")) (.ofInt 0) .fresh,
    .record [("label", .literal (.ofStr "end"))]]

example : drawing.render labelled = .ok (.ofStr "\x7b x: 5; y: 5; label: \"end\" \x7d") := by
  cbv

theorem labelled_render_decoded :
    let v : Value := .ofDict [(.ofStr "x", .ofInt 5), (.ofStr "y", .ofInt 5),
      (.ofStr "label", .ofStr "end")]
    drawing.decode labelled = .ok v ∧
      ∃ d, Descriptor.ofValue v = .ok d ∧ drawing.render labelled = drawing.render d ∧
        drawing.render d = { drawing with definitions := [], slots := [] }.render d ∧
        (v.depth < drawing.nesting → ∃ text, drawing.render labelled = .ok (.ofStr text)) := by
  have hside : (Descriptor.op (.ofStr "add") [.literal (.ofInt 2), .literal (.ofInt 3)]).Concrete :=
    .op (by simpa using ⟨.literal rfl, .literal rfl⟩)
  have hcorner : (Descriptor.record
      [("x", .ref (.ofStr "Side")), ("y", .ref (.ofStr "Side"))]).Concrete :=
    .record (by decide) (by simpa using .ref)
  have hslot : (Store.Results.slot (.tuple [.ref (.ofStr "Corner")])).Concrete :=
    .record (by decide) (by simpa using .tuple (by simpa using .ref))
  have hlabel : (Descriptor.record [("label", .literal (.ofStr "end"))]).Concrete :=
    .record (by decide) (by simpa using .literal rfl)
  have hlabelled : labelled.Concrete := .inter (by simpa using ⟨.index (.index .result), hlabel⟩)
  have hdecode : drawing.decode labelled =
      .ok (.ofDict [(.ofStr "x", .ofInt 5), (.ofStr "y", .ofInt 5),
        (.ofStr "label", .ofStr "end")]) := by
    cbv
  exact ⟨hdecode, render_decoded drawing (by simpa [drawing] using ⟨hside, hcorner⟩)
    (by simpa [drawing] using hslot)
    hlabelled hdecode⟩

end Resolver

end EffectTree
