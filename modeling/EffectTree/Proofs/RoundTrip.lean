import EffectTree.Artifact.Encoder
import EffectTree.Proofs.Decoding

/-!
# Descriptors in JSON and back

Decoding gives back the descriptor that has been written. Plain JSON, which has no special keys, is
decoded as the data that it is.
-/
namespace EffectTree

/-- A JSON value in which every key of an object is allowed. -/
inductive Value.JsonWith (allowed : String → Prop) : Value → Prop
  | null : JsonWith allowed .null
  | bool (b : Bool) : JsonWith allowed (.bool b)
  | int (i : Int) (mark : Mark) : JsonWith allowed (.int i mark)
  | float (x : Float) (mark : Mark) : JsonWith allowed (.float x mark)
  | str (s : String) (mark : Mark) : JsonWith allowed (.str s mark)
  | list {items : List Value} {mark : Mark} (hitems : ∀ v ∈ items, JsonWith allowed v) :
      JsonWith allowed (.list items mark)
  | dict {es : List (Value × Value)} {mark : Mark}
      (hkeys : ∀ entry ∈ es, ∃ name mark', entry.1 = .str name mark' ∧ allowed name)
      (hdistinct : (es.map fun entry => entry.1.display).Nodup)
      (hvalues : ∀ entry ∈ es, JsonWith allowed entry.2) :
      JsonWith allowed (.dict es mark)

abbrev Value.IsJson (v : Value) : Prop := v.JsonWith fun _ => True

/-- A JSON value without special keys. -/
abbrev Value.IsPlainJson (v : Value) : Prop := v.JsonWith fun name => name.startsWith "$" = false

/-- A descriptor whose data are JSON values. -/
inductive Descriptor.OfJson : Descriptor → Prop
  | literal {v : Value} (h : v.IsJson) : OfJson (.literal v)
  | unknown : OfJson .unknown
  | tuple {items : List Descriptor} (h : ∀ d ∈ items, OfJson d) : OfJson (.tuple items)
  | record {fields : List (String × Descriptor)} (hdistinct : (fields.map (·.1)).Nodup)
      (h : ∀ entry ∈ fields, OfJson entry.2) : OfJson (.record fields)
  | effect {tag : Value} {args : List Descriptor} (htag : tag.IsJson) (h : ∀ d ∈ args, OfJson d) :
      OfJson (.effect tag args)
  | var {name : Value} (h : name.IsJson) : OfJson (.var name)
  | ref {name : Value} (h : name.IsJson) : OfJson (.ref name)
  | result {key : Value} (h : key.IsJson) : OfJson (.result key)
  | index {target : Descriptor} {field : Value} {mark : Mark} (h : OfJson target)
      (hfield : field.IsJson) :
      OfJson (.index target field mark)
  | inter {parts : List Descriptor} (h : ∀ d ∈ parts, OfJson d) : OfJson (.inter parts)
  | op {name : Value} {args : List Descriptor} (hname : name.IsJson) (h : ∀ d ∈ args, OfJson d) :
      OfJson (.op name args)

namespace Artifact

theorem encodeItems_eq (ds : List Descriptor) : encodeItems ds = ds.map encode := by
  induction ds with
  | nil => rfl
  | cons d ds ih => rw [encodeItems, ih, List.map_cons]

theorem encodeFields_eq (fields : List (String × Descriptor)) :
    encodeFields fields = fields.map fun entry => memberOf entry.1 (encode entry.2) := by
  induction fields with
  | nil => rfl
  | cons entry rest ih => rw [encodeFields, ih, List.map_cons]

theorem isJson_object (members : List (String × Value)) (mark : Mark)
    (hdistinct : (members.map (·.1)).Nodup) (h : ∀ entry ∈ members, entry.2.IsJson) :
    (Value.dict (members.map fun entry => memberOf entry.1 entry.2) mark).IsJson := by
  refine .dict ?_ ?_ ?_
  · simp only [List.forall_mem_map]
    exact fun entry _ => ⟨_, _, rfl, trivial⟩
  · rw [List.map_map]
    exact hdistinct
  · simp only [List.forall_mem_map]
    exact h

theorem form_isJson {key : String} {v : Value} (h : v.IsJson) : (form key v).IsJson :=
  isJson_object [(key, v)] .fresh (by simp) (by simpa using h)

theorem pair_isJson {key other : String} {v w : Value} (mark : Mark) (hne : key ≠ other)
    (hv : v.IsJson) (hw : w.IsJson) :
    (Value.dict [memberOf key v, memberOf other w] mark).IsJson :=
  isJson_object [(key, v), (other, w)] mark (by simpa using hne) (by simpa using ⟨hv, hw⟩)

theorem encodeItems_isJson {ds : List Descriptor} (h : ∀ d ∈ ds, (encode d).IsJson) :
    (Value.ofList (encodeItems ds)).IsJson := by
  rw [encodeItems_eq]
  exact .list (by simpa only [List.forall_mem_map] using h)

theorem encode_isJson {d : Descriptor} (h : d.OfJson) : (encode d).IsJson := by
  induction h with
  | literal h => exact form_isJson h
  | unknown => exact form_isJson (.bool true)
  | tuple _ ih => exact encodeItems_isJson ih
  | @record fields hdistinct _ ih =>
    refine form_isJson ?_
    rw [encodeFields_eq]
    have := isJson_object (fields.map fun entry => (entry.1, encode entry.2)) .fresh
    simp only [List.map_map, List.forall_mem_map] at this
    exact this hdistinct ih
  | effect htag _ ih => exact pair_isJson _ (by decide) htag (encodeItems_isJson ih)
  | var h => exact form_isJson h
  | ref h => exact form_isJson h
  | result h => exact form_isJson h
  | index _ hfield ih => exact pair_isJson _ (by decide) ih hfield
  | inter _ ih => exact form_isJson (encodeItems_isJson ih)
  | op hname _ ih => exact pair_isJson _ (by decide) hname (encodeItems_isJson ih)

@[simp] theorem memberOf_fst (name : String) (v : Value) : (memberOf name v).1 = .ofKey name := rfl

@[simp] theorem memberOf_snd (name : String) (v : Value) : (memberOf name v).2 = v := rfl

@[simp] theorem specialKeys_nil : specialKeys [] = [] := rfl

@[simp] theorem specialKeys_memberOf (name : String) (v : Value) (rest : List (Value × Value)) :
    specialKeys (memberOf name v :: rest) =
      if name.startsWith "$" then name :: specialKeys rest else specialKeys rest := by
  cases h : name.startsWith "$" <;> simp only [specialKeys, memberOf, Value.ofKey,
    List.filterMap_cons, h] <;> rfl

mutual

theorem decode_encode : (d : Descriptor) → decode (encode d) = .ok d
  | .literal v => by simp [encode, form, decode]
  | .unknown => by simp [encode, form, decode]
  | .tuple items => by
      rw [encode, decode, decodeItems_encodeItems items]
      rfl
  | .record fields => by
      simp [encode, form, decode, decodeFieldsAt_eq, fieldsIn, decodeFields_encodeFields fields,
        Except.map]
  | .effect tag args => by
      simp [encode, decode, decodeArgs_eq, argumentsIn, decodeItems_encodeItems args, Except.map]
  | .var name => by simp [encode, form, decode]
  | .ref name => by simp [encode, form, decode]
  | .result key => by simp [encode, form, decode]
  | .index target field mark => by
      simp [encode, decode, decodeAt_eq, decode_encode target, Except.map]
  | .inter parts => by
      simp [encode, form, decode, decodePartsAt_eq, partsIn, decodeItems_encodeItems parts,
        Except.map]
  | .op name args => by
      simp [encode, decode, decodeArgs_eq, argumentsIn, decodeItems_encodeItems args, Except.map]

theorem decodeItems_encodeItems : (ds : List Descriptor) → decodeItems (encodeItems ds) = .ok ds
  | [] => rfl
  | d :: ds => by
      rw [encodeItems, decodeItems, decode_encode d, decodeItems_encodeItems ds]
      rfl

theorem decodeFields_encodeFields : (fields : List (String × Descriptor)) →
    decodeFields (encodeFields fields) = .ok fields
  | [] => rfl
  | (name, d) :: rest => by
      rw [encodeFields, memberOf, decodeFields, decode_encode d, decodeFields_encodeFields rest]
      rfl

end

theorem exists_mapM {ε ε' α β : Type} {f : α → Except ε β} {g : α → Except ε' β} (xs : List α)
    (h : ∀ x ∈ xs, ∃ y, f x = .ok y ∧ g x = .ok y) :
    ∃ ys, xs.mapM f = .ok ys ∧ xs.mapM g = .ok ys := by
  induction xs with
  | nil => exact ⟨[], rfl, rfl⟩
  | cons x xs ih =>
    obtain ⟨y, hf, hg⟩ := h x List.mem_cons_self
    obtain ⟨ys, hfs, hgs⟩ := ih fun z hz => h z (List.mem_cons_of_mem _ hz)
    exact ⟨y :: ys, by rw [List.mapM_cons, hf, hfs]; rfl, by rw [List.mapM_cons, hg, hgs]; rfl⟩

theorem ofItems_eq (xs : List Value) : Descriptor.ofItems xs = xs.mapM Descriptor.ofValue := by
  induction xs with
  | nil => rfl
  | cons x xs ih =>
    rw [Descriptor.ofItems, List.mapM_cons, ih]
    cases Descriptor.ofValue x with
    | error e => rfl
    | ok d => cases xs.mapM Descriptor.ofValue <;> rfl

theorem ofEntries_eq {es : List (Value × Value)} {acc : Table Descriptor}
    (hnew : ∀ entry ∈ es, entry.1.display ∉ acc.keys)
    (hdistinct : (es.map fun entry => entry.1.display).Nodup) :
    Descriptor.ofEntries es acc = ((es.map (·.2)).mapM Descriptor.ofValue).map fun ds =>
      acc ++ named es ds := by
  induction es generalizing acc with
  | nil => simp [Descriptor.ofEntries, named, Except.map, pure, Except.pure]
  | cons entry rest ih =>
    obtain ⟨k, v⟩ := entry
    rw [Descriptor.ofEntries, List.map_cons, List.mapM_cons]
    cases hv : Descriptor.ofValue v with
    | error e => rfl
    | ok d =>
      rw [List.map_cons, List.nodup_cons] at hdistinct
      have hrest : ∀ entry ∈ rest, entry.1.display ∉ Table.keys (acc ++ [(k.display, d)]) := by
        intro entry hentry hmem
        simp only [Table.keys, List.map_append, List.mem_append, List.map_cons, List.map_nil,
          List.mem_singleton] at hmem
        rcases hmem with hmem | hmem
        · exact hnew entry (List.mem_cons_of_mem _ hentry) hmem
        · exact hdistinct.1 (hmem ▸ List.mem_map_of_mem hentry)
      simp only [Table.put_of_notMem d (hnew _ List.mem_cons_self), ih hrest hdistinct.2]
      cases (rest.map (·.2)).mapM Descriptor.ofValue with
      | error e => rfl
      | ok ds => simp [Except.map, named, bind, Except.bind, pure, Except.pure]

theorem specialKeys_eq_nil {es : List (Value × Value)}
    (h : ∀ entry ∈ es, ∃ name mark, entry.1 = .str name mark ∧ name.startsWith "$" = false) :
    specialKeys es = [] := by
  rw [specialKeys, List.filterMap_eq_nil_iff]
  intro entry hentry
  obtain ⟨name, mark, hname, hplain⟩ := h entry hentry
  simp [hname, hplain]

/-- Plain JSON is decoded as the data that it is. -/
theorem decode_plain {v : Value} (h : v.IsPlainJson) :
    ∃ d, decode v = .ok d ∧ Descriptor.ofValue v = .ok d := by
  induction h with
  | @list items mark _ ih =>
    obtain ⟨ds, hdecode, hof⟩ := exists_mapM items ih
    refine ⟨.tuple ds, ?_, ?_⟩
    · rw [decode, decodeItems_eq, hdecode]
      rfl
    · rw [Descriptor.ofValue, ofItems_eq, hof]
      rfl
  | @dict es mark hkeys hdistinct _ ih =>
    obtain ⟨ds, hdecode, hof⟩ :=
      exists_mapM (es.map (·.2)) (by simpa only [List.forall_mem_map] using ih)
    refine ⟨.record (named es ds), ?_, ?_⟩
    · rw [decode]
      simp only [specialKeys_eq_nil hkeys, decodeFields_eq, hdecode]
      rfl
    · rw [Descriptor.ofValue, ofEntries_eq (fun _ _ => List.not_mem_nil) hdistinct, hof]
      rfl
  | _ => exact ⟨_, rfl, rfl⟩

/-- The format has a JSON value for every descriptor of JSON values, and plain JSON in it is plain
data. -/
theorem format_expresses_descriptors :
    (∀ d : Descriptor, decode (encode d) = .ok d) ∧
    (∀ d : Descriptor, d.OfJson → (encode d).IsJson) ∧
      ∀ v : Value, v.IsPlainJson → ∃ d, decode v = .ok d ∧ Descriptor.ofValue v = .ok d :=
  ⟨decode_encode, fun _ => encode_isJson, fun _ => decode_plain⟩

/-- Fields with the names of special forms, and a plain object with the name of an argument list. -/
theorem format_expresses_special_names :
    let d : Descriptor := .record
      [("$effect", .literal (form "$lit" (.ofInt 1))), ("args", .unknown)]
    let v : Value := .ofDict [memberOf "args" (.ofList [.null])]
    (decode (encode d) = .ok d ∧ (encode d).IsJson) ∧ decode v = Descriptor.ofValue v := by
  intro d v
  have hd : d.OfJson := by
    refine .record (by decide) ?_
    simp only [List.forall_mem_cons, List.not_mem_nil, false_implies, implies_true, and_true]
    exact ⟨.literal (form_isJson (.int 1 _)), .unknown⟩
  have hv : v.IsPlainJson := by
    refine .dict ?_ (by simp) ?_
    · simp only [List.forall_mem_cons, List.not_mem_nil, false_implies, implies_true, and_true]
      exact ⟨_, _, rfl, by simp⟩
    · simp only [List.forall_mem_cons, List.not_mem_nil, false_implies, implies_true, and_true]
      exact .list (by simpa using .null)
  obtain ⟨hback, hjson, hplain⟩ := format_expresses_descriptors
  obtain ⟨d', hdecode, hof⟩ := hplain v hv
  exact ⟨⟨hback d, hjson d hd⟩, hdecode.trans hof.symm⟩

end Artifact

end EffectTree
