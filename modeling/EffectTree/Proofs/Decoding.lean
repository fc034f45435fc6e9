import EffectTree.Artifact.Decoder
import EffectTree.Proofs.PlainData

/-!
# Forms of descriptors in JSON

A JSON value is of one of the forms for descriptors or of none. A form has parts, which are decoded
in their order, and what is decoded from them is put together. So a value is decoded just if it and
all parts inside of it are of some form.
-/
namespace EffectTree.Artifact

theorem map_map_eq {ε α β γ : Type} (f : α → β) (g : β → γ) (x : Except ε α) :
    (x.map f).map g = x.map fun a => g (f a) := by
  cases x <;> rfl

theorem isKey_eq_agrees (name : String) (k : Value) : isKey name k = k.agrees (.ofStr name) := by
  cases k <;>
    simp [isKey, Value.agrees, Value.ofStr, Value.eqv, Value.sameUndefined, Value.numbersEqv,
      Value.parts?, Value.real?]

@[simp] theorem isKey_ofKey (name key : String) : isKey name (.ofKey key) = decide (key = name) :=
  rfl

@[simp] theorem member?_nil (name : String) : member? name [] = none := rfl

@[simp] theorem member?_cons (name : String) (entry : Value × Value) (rest : List (Value × Value)) :
    member? name (entry :: rest) = if isKey name entry.1 then some entry.2
      else member? name rest := by
  rw [isKey_eq_agrees, member?, Value.lookup?, List.find?_cons]
  cases entry.1.agrees (.ofStr name) <;> rfl

/-- What looks for the first member under a name and goes on with it. -/
theorem scan_eq {α : Type} {scan : List (Value × Value) → α} {name : String} {absent : α}
    {found : Value → α} (hnil : scan [] = absent)
    (hcons : ∀ k v rest, scan ((k, v) :: rest) = if isKey name k then found v else scan rest)
    (es : List (Value × Value)) : scan es = (member? name es).elim absent found := by
  induction es with
  | nil => exact hnil
  | cons entry rest ih =>
    rw [hcons entry.1 entry.2 rest, member?_cons, ih]
    split <;> rfl

theorem decodeItems_eq (xs : List Value) : decodeItems xs = xs.mapM decode := by
  induction xs with
  | nil => rfl
  | cons x xs ih =>
    rw [decodeItems, List.mapM_cons, ih]
    cases decode x with
    | error e => rfl
    | ok d => cases xs.mapM decode <;> rfl

def named (es : List (Value × Value)) (ds : List Descriptor) : List (String × Descriptor) :=
  (es.map fun entry => entry.1.display).zip ds

theorem decodeFields_eq (es : List (Value × Value)) :
    decodeFields es = ((es.map (·.2)).mapM decode).map (named es) := by
  induction es with
  | nil => rfl
  | cons entry rest ih =>
    rw [decodeFields, List.map_cons, List.mapM_cons, ih]
    cases decode entry.2 with
    | error e => rfl
    | ok d => cases (rest.map (·.2)).mapM decode <;> rfl

/-- The arguments in the member `args` of a form. -/
def argumentsIn (shown : String) : Value → Except Fault (List Descriptor)
  | .list xs _ => decodeItems xs
  | _ => .error (.artifact ("\"args\" must be an array: " ++ shown))

def partsIn : Value → Except Fault (List Descriptor)
  | .list xs _ => decodeItems xs
  | v => v.items.map fun parts => parts.map .literal

def fieldsIn : Value → Except Fault (List (String × Descriptor))
  | .dict es _ => decodeFields es
  | v => .error (.artifact ("Record fields must be an object: " ++ v.shown))

variable (es : List (Value × Value)) (key : String)

theorem decodeAt_eq : decodeAt key es = (member? key es).elim (.ok .unknown) decode :=
  scan_eq rfl (fun k v rest => by rw [decodeAt]) es

theorem decodeArgs_eq (shown : String) :
    decodeArgs shown es = (member? "args" es).elim (.ok []) (argumentsIn shown) :=
  scan_eq rfl (fun k v rest => by cases v <;> simp [decodeArgs, argumentsIn]) es

theorem decodePartsAt_eq : decodePartsAt key es = (member? key es).elim (.ok []) partsIn :=
  scan_eq rfl (fun k v rest => by cases v <;> simp [decodePartsAt, partsIn]) es

theorem decodeFieldsAt_eq : decodeFieldsAt key es = (member? key es).elim (.ok []) fieldsIn :=
  scan_eq rfl (fun k v rest => by cases v <;> simp [decodeFieldsAt, fieldsIn]) es

theorem exists_member_of_specialKeys {es : List (Value × Value)} {key : String} {keys : List String}
    (h : specialKeys es = key :: keys) : ∃ v, member? key es = some v := by
  have hmem : key ∈ specialKeys es := h ▸ List.mem_cons_self
  obtain ⟨⟨k, v⟩, hentry, hk⟩ := List.mem_filterMap.mp hmem
  have hkey : isKey key k = true := by
    cases k <;> simp_all [isKey]
  rw [← Option.isSome_iff_exists, member?, Value.lookup?, Option.isSome_map, List.find?_isSome]
  exact ⟨_, hentry, isKey_eq_agrees key k ▸ hkey⟩

/-- The arguments of an object are the given values. -/
def HasArguments (es : List (Value × Value)) (parts : List Value) : Prop :=
  (member? "args" es = none ∧ parts = []) ∨ ∃ mark, member? "args" es = some (.list parts mark)

theorem HasArguments.eq {es : List (Value × Value)} {parts : List Value} (h : HasArguments es parts)
    {shown : String} :
    (member? "args" es).elim (.ok []) (argumentsIn shown) = parts.mapM decode := by
  rcases h with ⟨hnone, rfl⟩ | ⟨mark, hsome⟩
  · rw [hnone]
    rfl
  · rw [hsome]
    exact decodeItems_eq parts

theorem partsIn_of_ne_list {v : Value} (h : ∀ items mark, v ≠ .list items mark) :
    partsIn v = v.items.map fun parts => parts.map .literal := by
  cases v with
  | list items mark => exact absurd rfl (h items mark)
  | _ => rfl

/-- A value of one of the forms for descriptors, and its parts. -/
inductive Formed : Value → List Value → Prop
  | scalar {v : Value} (hlist : ∀ items mark, v ≠ .list items mark)
      (hdict : ∀ es mark, v ≠ .dict es mark) : Formed v []
  | array (items : List Value) (mark : Mark) : Formed (.list items mark) items
  | object {es : List (Value × Value)} {mark : Mark} (h : specialKeys es = []) :
      Formed (.dict es mark) (es.map (·.2))
  | leaf {es : List (Value × Value)} {mark : Mark} {key : String} (h : specialKeys es = [key])
      (hkey : key ∈ ["$var", "$ref", "$result", "$unknown", "$lit"]) : Formed (.dict es mark) []
  | applied {es : List (Value × Value)} {mark : Mark} {key : String} {parts : List Value}
      (h : specialKeys es = [key])
      (hkey : key ∈ ["$effect", "$op"]) (hparts : HasArguments es parts) :
        Formed (.dict es mark) parts
  | projection {es : List (Value × Value)} {mark : Mark} {target field : Value}
      (h : specialKeys es = ["$index"])
      (htarget : member? "$index" es = some target) (hfield : member? "field" es = some field) :
      Formed (.dict es mark) [target]
  | fields {es fields : List (Value × Value)} {mark mark' : Mark} {key : String}
      (h : specialKeys es = [key])
      (hkey : key ∈ ["$record", "$kind"]) (hfields : member? key es = some (.dict fields mark')) :
      Formed (.dict es mark) (fields.map (·.2))
  | intersection {es : List (Value × Value)} {mark mark' : Mark} {parts : List Value}
      (h : specialKeys es = ["$and"])
      (hparts : member? "$and" es = some (.list parts mark')) : Formed (.dict es mark) parts
  /-- The characters of a text and the names of an object pass for literal parts of an
  intersection. -/
  | spelled {es : List (Value × Value)} {mark : Mark} {v : Value} {items : List Value}
      (h : specialKeys es = ["$and"])
      (hv : member? "$and" es = some v) (hlist : ∀ items mark, v ≠ .list items mark)
      (hitems : v.items = .ok items) :
      Formed (.dict es mark) []

/-- An intersection of a value that has no items. -/
inductive Bare : Value → Value → Prop
  | intro {es : List (Value × Value)} {mark : Mark} {payload : Value}
      (h : specialKeys es = ["$and"])
      (hpayload : member? "$and" es = some payload)
      (hitems : payload.items = .error (.notIterable payload)) :
      Bare (.dict es mark) payload

/-- The parts of a form are decoded first to last and then put together. -/
theorem Formed.decode_eq {v : Value} {parts : List Value} (h : Formed v parts) :
    ∃ build : List Descriptor → Descriptor, decode v = (parts.mapM decode).map build := by
  cases h with
  | scalar hlist hdict =>
    refine ⟨fun _ => .literal v, ?_⟩
    cases v with
    | list items mark => exact absurd rfl (hlist items mark)
    | dict es mark => exact absurd rfl (hdict es mark)
    | _ => rfl
  | array items mark => exact ⟨.tuple, by rw [decode, decodeItems_eq]⟩
  | @object es mark h =>
    refine ⟨fun ds => .record (named es ds), ?_⟩
    rw [decode]
    simp only [h, decodeFields_eq, map_map_eq]
  | leaf h hkey =>
    rw [decode]
    simp only [h]
    fin_cases hkey <;> exact ⟨fun _ => _, rfl⟩
  | @applied es mark key parts h hkey hparts =>
    rw [decode]
    simp only [h, decodeArgs_eq, hparts.eq]
    fin_cases hkey <;> exact ⟨_, rfl⟩
  | @projection es mark target field h htarget hfield =>
    refine ⟨fun ds => .index (ds.headD .unknown) field mark, ?_⟩
    rw [decode]
    simp only [h, decodeAt_eq, htarget, hfield]
    cases hd : decode target <;> simp [hd] <;> rfl
  | @fields es fields mark mark' key h hkey hfields =>
    rw [decode]
    simp only [h, decodeFieldsAt_eq, hfields, Option.elim_some, fieldsIn, decodeFields_eq,
      map_map_eq]
    fin_cases hkey <;> exact ⟨_, rfl⟩
  | intersection h hparts =>
    rw [decode]
    simp only [h, decodePartsAt_eq, hparts, Option.elim_some, partsIn, decodeItems_eq]
    exact ⟨.inter, rfl⟩
  | @spelled es mark v items h hv hlist hitems =>
    refine ⟨fun _ => .inter (items.map .literal), ?_⟩
    rw [decode]
    simp only [h, decodePartsAt_eq, hv, Option.elim_some, partsIn_of_ne_list hlist, hitems]
    rfl

theorem items_eq_error {v : Value} {e : Fault} (h : v.items = .error e) : e = .notIterable v := by
  cases v <;> cases h <;> rfl

/-- How a value of no form is refused: with a fault of the artifact, except for an intersection of
what has no items. -/
def Refused (v : Value) : Prop :=
  (∃ text, decode v = .error (.artifact text)) ∨ ∃ payload, Bare v payload ∧
    decode v = .error (.notIterable payload)

section Refusals

variable {es : List (Value × Value)} {mark : Mark} {key : String}

theorem refused_of_arguments {shown : String} {build : List Descriptor → Descriptor}
    (hdecode : decode (.dict es mark) = (decodeArgs shown es).map build)
    (h : ∀ parts, ¬ HasArguments es parts) : Refused (.dict es mark) := by
  rw [decodeArgs_eq] at hdecode
  cases hargs : member? "args" es with
  | none => exact absurd (.inl ⟨hargs, rfl⟩) (h [])
  | some v =>
    rw [hargs] at hdecode
    cases v with
    | list items mark => exact absurd (.inr ⟨mark, hargs⟩) (h items)
    | _ => exact .inl ⟨_, hdecode⟩

theorem refused_of_fields {build : List (String × Descriptor) → Descriptor} {v : Value}
    (hv : member? key es = some v)
    (hdecode : decode (.dict es mark) = (decodeFieldsAt key es).map build)
    (h : ∀ fields mark', member? key es ≠ some (.dict fields mark')) : Refused (.dict es mark) := by
  rw [decodeFieldsAt_eq, hv] at hdecode
  cases v with
  | dict fields mark' => exact absurd hv (h fields mark')
  | _ => exact .inl ⟨_, hdecode⟩

theorem refused_of_parts {v : Value} (hkey : specialKeys es = ["$and"])
    (hv : member? "$and" es = some v)
    (hdecode : decode (.dict es mark) = (decodePartsAt "$and" es).map .inter)
    (h : ∀ parts, ¬ Formed (.dict es mark) parts) : Refused (.dict es mark) := by
  have hlist : ∀ items mark', v ≠ .list items mark' := by
    rintro items mark' rfl
    exact h items (.intersection hkey hv)
  rw [decodePartsAt_eq, hv, Option.elim_some, partsIn_of_ne_list hlist] at hdecode
  cases hitems : v.items with
  | ok items => exact absurd (.spelled hkey hv hlist hitems) (h [])
  | error e =>
    obtain rfl := items_eq_error hitems
    rw [hitems] at hdecode
    exact .inr ⟨v, .intro hkey hv hitems, hdecode⟩

theorem refused_of_special (hkey : specialKeys es = [key])
    (h : ∀ parts, ¬ Formed (.dict es mark) parts) :
    Refused (.dict es mark) := by
  obtain ⟨v, hv⟩ := exists_member_of_specialKeys hkey
  by_cases hleaf : key ∈ ["$var", "$ref", "$result", "$unknown", "$lit"]
  · exact absurd (.leaf hkey hleaf) (h [])
  by_cases happlied : key ∈ ["$effect", "$op"]
  · have hargs : ∀ parts, ¬ HasArguments es parts :=
      fun parts hparts => h parts (.applied hkey happlied hparts)
    fin_cases happlied <;>
      exact refused_of_arguments (by rw [decode]; simp only [hkey]; rfl) hargs
  by_cases hfields : key ∈ ["$record", "$kind"]
  · have hmember : ∀ fields mark', member? key es ≠ some (.dict fields mark') :=
      fun fields mark' hmember =>
      h _ (.fields hkey hfields hmember)
    fin_cases hfields <;>
      exact refused_of_fields hv (by rw [decode]; simp only [hkey]; rfl) hmember
  by_cases hindex : key = "$index"
  · subst hindex
    cases hfield : member? "field" es with
    | some field => exact absurd (.projection hkey hv hfield) (h _)
    | none =>
      rw [Refused, decode]
      simp only [hkey, hfield]
      exact .inl ⟨_, rfl⟩
  by_cases hand : key = "$and"
  · subst hand
    exact refused_of_parts hkey hv (by rw [decode]; simp only [hkey]; rfl) h
  · rw [Refused, decode]
    simp only [List.mem_cons, List.not_mem_nil, or_false, not_or] at hleaf happlied hfields
    simp only [hkey, hleaf, happlied, hfields, hindex, hand, if_false]
    exact .inl ⟨_, rfl⟩

end Refusals

theorem refused_of_not_formed {v : Value} (h : ∀ parts, ¬ Formed v parts) : Refused v := by
  cases v with
  | list items mark => exact absurd (.array items mark) (h items)
  | dict es mark =>
    cases hkeys : specialKeys es with
    | nil => exact absurd (.object hkeys) (h _)
    | cons key rest =>
      cases rest with
      | nil => exact refused_of_special hkeys h
      | cons other more =>
        rw [Refused, decode]
        simp only [hkeys]
        exact .inl ⟨_, rfl⟩
  | _ => exact absurd (.scalar (by rintro _ _ ⟨⟩) (by rintro _ _ ⟨⟩)) (h [])

theorem sizeOf_lt_of_member {es : List (Value × Value)} {name : String} {v : Value}
    (h : member? name es = some v) :
    sizeOf v < sizeOf es := by
  induction es with
  | nil => cases h
  | cons entry rest ih =>
    obtain ⟨k, w⟩ := entry
    rw [member?_cons] at h
    rw [List.cons.sizeOf_spec, Prod.mk.sizeOf_spec]
    split at h
    · obtain rfl : w = v := Option.some.inj h
      omega
    · have := ih h
      omega

theorem sizeOf_lt_of_mem_values {es : List (Value × Value)} {v : Value} (h : v ∈ es.map (·.2)) :
    sizeOf v < sizeOf es := by
  obtain ⟨⟨k, w⟩, hentry, hw⟩ := List.mem_map.mp h
  obtain rfl : w = v := hw
  have := List.sizeOf_lt_of_mem hentry
  rw [Prod.mk.sizeOf_spec] at this
  omega

theorem Formed.sizeOf_lt {v part : Value} {parts : List Value} (h : Formed v parts)
    (hpart : part ∈ parts) :
    sizeOf part < sizeOf v := by
  cases h with
  | scalar | leaf | spelled => cases hpart
  | array items mark =>
    have := List.sizeOf_lt_of_mem hpart
    rw [Value.list.sizeOf_spec]
    omega
  | object =>
    have := sizeOf_lt_of_mem_values hpart
    rw [Value.dict.sizeOf_spec]
    omega
  | applied _ _ hparts =>
    obtain ⟨-, rfl⟩ | ⟨mark', hmember⟩ := hparts
    · cases hpart
    · have := List.sizeOf_lt_of_mem hpart
      have := sizeOf_lt_of_member hmember
      rw [Value.list.sizeOf_spec] at this
      rw [Value.dict.sizeOf_spec]
      omega
  | projection _ htarget _ =>
    obtain rfl := List.mem_singleton.mp hpart
    have := sizeOf_lt_of_member htarget
    rw [Value.dict.sizeOf_spec]
    omega
  | fields _ _ hfields =>
    have := sizeOf_lt_of_mem_values hpart
    have := sizeOf_lt_of_member hfields
    rw [Value.dict.sizeOf_spec] at this ⊢
    omega
  | intersection _ hparts =>
    have := List.sizeOf_lt_of_mem hpart
    have := sizeOf_lt_of_member hparts
    rw [Value.list.sizeOf_spec] at this
    rw [Value.dict.sizeOf_spec]
    omega

/-- A value of some form all of whose parts are so too. -/
inductive WellFormed : Value → Prop
  | intro {v : Value} {parts : List Value} (h : Formed v parts)
      (hparts : ∀ part ∈ parts, WellFormed part) :
      WellFormed v

/-- A value in which the first part of no form is an intersection of a value that has no items. -/
inductive Misreported (payload : Value) : Value → Prop
  | here {v : Value} (h : Bare v payload) : Misreported payload v
  | inside {v part : Value} {before after : List Value} (h : Formed v (before ++ part :: after))
      (hbefore : ∀ p ∈ before, WellFormed p) (hpart : Misreported payload part) :
        Misreported payload v

theorem WellFormed.decodes {v : Value} (h : WellFormed v) : ∃ d, decode v = .ok d := by
  induction h with
  | intro h _ ih =>
    obtain ⟨build, hbuild⟩ := h.decode_eq
    obtain ⟨ds, hds⟩ := Except.exists_mapM_eq_ok.mpr ih
    exact ⟨build ds, by rw [hbuild, hds]; rfl⟩

theorem Bare.decode_eq {v payload : Value} (h : Bare v payload) :
    decode v = .error (.notIterable payload) := by
  obtain ⟨hkey, hpayload, hitems⟩ := h
  have hlist : ∀ items mark, payload ≠ .list items mark := by
    rintro items mark rfl
    cases hitems
  rw [decode]
  simp only [hkey, decodePartsAt_eq, hpayload, Option.elim_some, partsIn_of_ne_list hlist, hitems]
  rfl

/-- The first part that is not well-formed decides on all of them. -/
theorem mapM_decode_of_error {part : Value} {before after : List Value} {e : Fault}
    (hbefore : ∀ p ∈ before, WellFormed p) (h : decode part = .error e) :
    (before ++ part :: after).mapM decode = .error e := by
  obtain ⟨ds, hds⟩ := Except.exists_mapM_eq_ok.mpr fun p hp => (hbefore p hp).decodes
  rw [List.mapM_append, hds, List.mapM_cons, h]
  rfl

theorem Misreported.decode_eq {v payload : Value} (h : Misreported payload v) :
    decode v = .error (.notIterable payload) := by
  induction h with
  | here h => exact h.decode_eq
  | inside h hbefore _ ih =>
    obtain ⟨build, hbuild⟩ := h.decode_eq
    rw [hbuild, mapM_decode_of_error hbefore ih]
    rfl

def MisreportedIn (payload : Value) (parts : List Value) : Prop :=
  ∃ before part after, parts = before ++ part :: after ∧ (∀ p ∈ before, WellFormed p) ∧
    Misreported payload part

theorem MisreportedIn.mapM_eq {payload : Value} {parts : List Value}
    (h : MisreportedIn payload parts) :
    parts.mapM decode = .error (.notIterable payload) := by
  obtain ⟨before, part, after, rfl, hbefore, hpart⟩ := h
  exact mapM_decode_of_error hbefore hpart.decode_eq

def Decided (v : Value) : Prop :=
  WellFormed v ∨ (∃ text, decode v = .error (.artifact text)) ∨ ∃ payload, Misreported payload v

theorem Decided.wellFormed {v : Value} {d : Descriptor} (h : Decided v) (hd : decode v = .ok d) :
    WellFormed v := by
  rcases h with h | ⟨text, h⟩ | ⟨payload, h⟩
  · exact h
  · cases hd.symm.trans h
  · cases hd.symm.trans h.decode_eq

theorem decided_parts {parts : List Value} (h : ∀ part ∈ parts, Decided part) :
    (∀ part ∈ parts, WellFormed part) ∨ (∃ text, parts.mapM decode = .error (.artifact text)) ∨
      ∃ payload, MisreportedIn payload parts := by
  cases hmap : parts.mapM decode with
  | ok ds =>
    refine .inl fun part hpart => ?_
    obtain ⟨d, hd⟩ := Except.exists_mapM_eq_ok.mp ⟨ds, hmap⟩ part hpart
    exact (h part hpart).wellFormed hd
  | error e =>
    obtain ⟨before, part, after, ds, rfl, hbefore, hpart⟩ := Except.mapM_eq_error hmap
    have hsound (p : Value) (hp : p ∈ before) : WellFormed p := by
      obtain ⟨d, hd⟩ := Except.exists_mapM_eq_ok.mp ⟨ds, hbefore⟩ p hp
      exact (h p (List.mem_append_left _ hp)).wellFormed hd
    rcases h part (by simp) with hwell | ⟨text, htext⟩ | ⟨payload, hmis⟩
    · obtain ⟨d, hd⟩ := hwell.decodes
      cases hpart.symm.trans hd
    · exact .inr (.inl ⟨text, congrArg _ (Except.error.inj (hpart.symm.trans htext))⟩)
    · exact .inr (.inr ⟨payload, before, part, after, rfl, hsound, hmis⟩)

theorem Formed.decided {v : Value} {parts : List Value} (h : Formed v parts)
    (hparts : ∀ part ∈ parts, Decided part) :
    Decided v := by
  rcases decided_parts hparts with hwell | ⟨text, htext⟩ | ⟨payload, before, part, after, rfl,
    hbefore, hmis⟩
  · exact .inl (.intro h hwell)
  · obtain ⟨build, hbuild⟩ := h.decode_eq
    exact .inr (.inl ⟨text, by rw [hbuild, htext]; rfl⟩)
  · exact .inr (.inr ⟨payload, .inside h hbefore hmis⟩)

/-- Every value is decoded, refused or misreported. -/
theorem decided (v : Value) : Decided v := by
  by_cases hform : ∃ parts, Formed v parts
  · obtain ⟨parts, hparts⟩ := hform
    refine hparts.decided fun part hpart => ?_
    have := hparts.sizeOf_lt hpart
    exact decided part
  · rcases refused_of_not_formed fun parts hparts =>
      hform ⟨parts, hparts⟩ with htext | ⟨payload, hbare, -⟩
    · exact .inr (.inl htext)
    · exact .inr (.inr ⟨payload, .here hbare⟩)
termination_by sizeOf v

theorem decodes_iff {v : Value} : (∃ d, decode v = .ok d) ↔ WellFormed v :=
  ⟨fun ⟨_, hd⟩ => (decided v).wellFormed hd, WellFormed.decodes⟩

end EffectTree.Artifact
