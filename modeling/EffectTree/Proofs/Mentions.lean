import EffectTree.Proofs.Capture
import EffectTree.Proofs.PlainData
import EffectTree.Resolution.Head

/-!
# What descriptors mention

The free variables of a descriptor, the results that it refers to and the effects in it. None of the
operations on descriptors brings up anything new: what they give mentions only what they have been
given mentions.
-/
namespace EffectTree

/-- What a descriptor can mention: a variable that is free in it, a result, or an effect of some
tag. -/
inductive Mention where
  | free (name : Value)
  | result (key : Value)
  | effect (tag : Value)

theorem Table.mem_put {α : Type} {table : Table α} {key : String} {value : α} {entry : String × α}
    (h : entry ∈ table.put key value) : entry ∈ table ∨ entry = (key, value) := by
  induction table with
  | nil => exact .inr (List.mem_singleton.mp h)
  | cons first rest ih =>
    obtain ⟨k, v⟩ := first
    rw [put] at h
    split at h
    · rename_i hk
      rcases List.mem_cons.mp h with rfl | h
      · exact .inr (by rw [hk])
      · exact .inl (List.mem_cons_of_mem _ h)
    · rcases List.mem_cons.mp h with rfl | h
      · exact .inl (List.mem_cons_self ..)
      · exact (ih h).imp_left (List.mem_cons_of_mem _)

theorem Table.has_put {α : Type} (table : Table α) (key : String) (value : α) (name : String) :
    (table.put key value).has name = (table.has name || decide (key = name)) := by
  induction table with
  | nil => simp [put, has]
  | cons first rest ih =>
    obtain ⟨k, v⟩ := first
    rw [put]
    split
    · rename_i hk
      subst hk
      by_cases h : k = name <;> simp [has, h]
    · simpa [has, Bool.or_assoc] using congrArg (decide (k = name) || ·) ih

theorem Table.mem_of_get? {α : Type} {table : Table α} {key : String} {value : α}
    (h : table.get? key = some value) : (key, value) ∈ table := by
  obtain ⟨entry, hentry, rfl⟩ := Option.map_eq_some_iff.mp h
  have hkey : entry.1 = key := by simpa using List.find?_some hentry
  exact hkey ▸ List.mem_of_find?_eq_some hentry

namespace Descriptor

/-- Whether fields declare the variable that is mentioned. -/
def binds (fields : List (String × Descriptor)) : Mention → Bool
  | .free name => declares fields name
  | _ => false

mutual

/-- The free variables, the results and the effects of a descriptor, in order of occurrence. -/
def mentions : Descriptor → List Mention
  | var name => [.free name]
  | result key => [.result key]
  | effect tag args => .effect tag :: mentionsList args
  | tuple items => mentionsList items
  | record fields => (mentionsFields fields).filter fun m => !binds fields m
  | index target _ _ => mentions target
  | inter parts => mentionsList parts
  | op _ args => mentionsList args
  | literal _ | unknown | ref _ => []

def mentionsList : List Descriptor → List Mention
  | [] => []
  | d :: ds => mentions d ++ mentionsList ds

def mentionsFields : List (String × Descriptor) → List Mention
  | [] => []
  | (_, d) :: rest => mentions d ++ mentionsFields rest

end

variable {m : Mention}

@[simp] theorem mem_mentionsList {ds : List Descriptor} :
    m ∈ mentionsList ds ↔ ∃ d ∈ ds, m ∈ d.mentions := by
  induction ds with
  | nil => simp [mentionsList]
  | cons d ds ih => simp [mentionsList, ih]

@[simp] theorem mem_mentionsFields {fields : List (String × Descriptor)} :
    m ∈ mentionsFields fields ↔ ∃ entry ∈ fields, m ∈ entry.2.mentions := by
  induction fields with
  | nil => simp [mentionsFields]
  | cons entry rest ih => simp [mentionsFields, ih]

@[simp] theorem mem_mentions_tuple {items : List Descriptor} :
    m ∈ (tuple items).mentions ↔ ∃ d ∈ items, m ∈ d.mentions := by
  rw [mentions, mem_mentionsList]

@[simp] theorem mem_mentions_inter {parts : List Descriptor} :
    m ∈ (inter parts).mentions ↔ ∃ d ∈ parts, m ∈ d.mentions := by
  rw [mentions, mem_mentionsList]

@[simp] theorem mem_mentions_op {name : Value} {args : List Descriptor} :
    m ∈ (op name args).mentions ↔ ∃ d ∈ args, m ∈ d.mentions := by
  rw [mentions, mem_mentionsList]

@[simp] theorem mem_mentions_effect {tag : Value} {args : List Descriptor} :
    m ∈ (effect tag args).mentions ↔ m = .effect tag ∨ ∃ d ∈ args, m ∈ d.mentions := by
  rw [mentions, List.mem_cons, mem_mentionsList]

@[simp] theorem mem_mentions_record {fields : List (String × Descriptor)} :
    m ∈ (record fields).mentions ↔ (∃ entry ∈ fields, m ∈ entry.2.mentions) ∧
      binds fields m = false := by
  simp [mentions]

@[simp] theorem mentions_index (target : Descriptor) (field : Value) (mark : Mark) :
    (index target field mark).mentions = target.mentions := rfl

@[simp] theorem mentions_literal (v : Value) : (literal v).mentions = [] := rfl

@[simp] theorem mentions_unknown : unknown.mentions = [] := rfl

@[simp] theorem mentions_ref (name : Value) : (ref name).mentions = [] := rfl

@[simp] theorem mentions_var (name : Value) : (var name).mentions = [.free name] := rfl

@[simp] theorem mentions_result (key : Value) : (result key).mentions = [.result key] := rfl

mutual

theorem mem_freeVars_iff (name : Value) :
    (d : Descriptor) → (name ∈ d.freeVars ↔ .free name ∈ d.mentions)
  | var _ => by simp [freeVars]
  | tuple items => by rw [freeVars, mentions, mem_freeVarsList_iff name items]
  | record fields => by
      rw [freeVars, mentions, List.mem_filter, List.mem_filter,
        mem_freeVarsFields_iff name fields, binds]
  | effect _ args => by simp [freeVars, mentions, mem_freeVarsList_iff name args]
  | index target _ _ => by rw [freeVars, mentions, mem_freeVars_iff name target]
  | inter parts => by rw [freeVars, mentions, mem_freeVarsList_iff name parts]
  | op _ args => by rw [freeVars, mentions, mem_freeVarsList_iff name args]
  | literal _ | unknown | ref _ | result _ => by simp [freeVars]

theorem mem_freeVarsList_iff (name : Value) : (ds : List Descriptor) →
    (name ∈ freeVarsList ds ↔ .free name ∈ mentionsList ds)
  | [] => by simp [freeVarsList, mentionsList]
  | d :: ds => by
      simp only [freeVarsList, mentionsList, List.mem_append, mem_freeVars_iff name d,
        mem_freeVarsList_iff name ds]

theorem mem_freeVarsFields_iff (name : Value) : (fields : List (String × Descriptor)) →
    (name ∈ freeVarsFields fields ↔ .free name ∈ mentionsFields fields)
  | [] => by simp [freeVarsFields, mentionsFields]
  | (_, d) :: rest => by
      simp only [freeVarsFields, mentionsFields, List.mem_append, mem_freeVars_iff name d,
        mem_freeVarsFields_iff name rest]

end

theorem Scope.mem_of_find? {scope : Scope} {name : Value} {d : Descriptor}
    (h : scope.find? name = some d) :
    ∃ entry ∈ scope, entry.2 = d := by
  cases name with
  | str s _ =>
    obtain ⟨entry, hentry, rfl⟩ := Option.map_eq_some_iff.mp h
    exact ⟨entry, List.mem_of_find?_eq_some hentry, rfl⟩
  | _ => cases h

theorem binds_substituteFields (scope : Scope) (fields : List (String × Descriptor)) (m : Mention) :
    binds (substituteFields scope fields) m = binds fields m := by
  cases m with
  | free name => exact declares_substituteFields scope fields name
  | result _ | effect _ => rfl

/-- Something is mentioned by what a scope binds names to. -/
def Scope.Mentions (scope : Scope) (m : Mention) : Prop := ∃ entry ∈ scope, m ∈ entry.2.mentions

theorem Scope.Mentions.of_without {scope : Scope} {fields : List (String × Descriptor)}
    (h : Scope.Mentions (scope.without fields) m) : Scope.Mentions scope m := by
  obtain ⟨entry, hentry, hm⟩ := h
  exact ⟨entry, List.mem_of_mem_filter hentry, hm⟩

mutual

/-- A substitution mentions only what the descriptor and the scope mention. -/
theorem mem_mentions_substitute (scope : Scope) :
    (d : Descriptor) → m ∈ (substitute scope d).mentions →
    m ∈ d.mentions ∨ Scope.Mentions scope m
  | var name, h => by
      rw [substitute] at h
      cases hfind : scope.find? name with
      | none =>
        rw [hfind] at h
        exact .inl h
      | some e =>
        rw [hfind] at h
        obtain ⟨entry, hentry, rfl⟩ := Scope.mem_of_find? hfind
        exact .inr ⟨entry, hentry, h⟩
  | tuple items, h => mem_mentions_substituteList scope items h
  | record fields, h => by
      obtain ⟨hm, hbound⟩ := List.mem_filter.mp h
      rw [binds_substituteFields] at hbound
      exact (mem_mentions_substituteFields (scope.without fields) fields hm).imp
        (fun hm => List.mem_filter.mpr ⟨hm, hbound⟩) .of_without
  | effect tag args, h => by
      rcases List.mem_cons.mp h with rfl | h
      · exact .inl (List.mem_cons_self ..)
      · exact (mem_mentions_substituteList scope args h).imp_left (List.mem_cons_of_mem _)
  | index target _ _, h => mem_mentions_substitute scope target h
  | inter parts, h => mem_mentions_substituteList scope parts h
  | op _ args, h => mem_mentions_substituteList scope args h
  | literal _, h | unknown, h | ref _, h | result _, h => .inl h

theorem mem_mentions_substituteList (scope : Scope) : (ds : List Descriptor) →
    m ∈ mentionsList (substituteList scope ds) → m ∈ mentionsList ds ∨ Scope.Mentions scope m
  | [], h => .inl h
  | d :: ds, h => by
      rw [mentionsList, List.mem_append]
      rcases List.mem_append.mp h with h | h
      · exact (mem_mentions_substitute scope d h).imp_left .inl
      · exact (mem_mentions_substituteList scope ds h).imp_left .inr

theorem mem_mentions_substituteFields (scope : Scope) : (fields : List (String × Descriptor)) →
    m ∈ mentionsFields (substituteFields scope fields) → m ∈ mentionsFields fields ∨
      Scope.Mentions scope m
  | [], h => .inl h
  | (_, d) :: rest, h => by
      rw [mentionsFields, List.mem_append]
      rcases List.mem_append.mp h with h | h
      · exact (mem_mentions_substitute scope d h).imp_left .inl
      · exact (mem_mentions_substituteFields scope rest h).imp_left .inr

end

/-- Substituting descriptors whose variables have names that can be keys brings up no other
variable. -/
theorem badVar?_substitute {scope : Scope} (hscope : ∀ entry ∈ scope, entry.2.badVar? = none)
    {d : Descriptor} (hd : d.badVar? = none) : (substitute scope d).badVar? = none := by
  rw [badVar?_eq_none_iff] at hd ⊢
  intro name hname
  rcases mem_mentions_substitute scope d ((mem_freeVars_iff name _).mp hname) with
    hm | ⟨entry, hentry, hm⟩
  · exact hd name ((mem_freeVars_iff name d).mpr hm)
  · exact (badVar?_eq_none_iff entry.2).mp (hscope entry hentry) name
      ((mem_freeVars_iff name entry.2).mpr hm)

mutual

theorem ofValue_mentions : {v : Value} → {d : Descriptor} → ofValue v = .ok d → d.mentions = []
  | .null, _, h | .bool _, _, h | .int .., _, h | .float .., _, h | .str .., _, h => by
      cases h
      rfl
  | .list xs _, _, h | .tuple xs _, _, h => by
      obtain ⟨ds, hds, rfl⟩ := Except.map_eq_ok.mp h
      exact ofItems_mentions hds
  | .dict es _, _, h => by
      obtain ⟨fields, hfields, rfl⟩ := Except.map_eq_ok.mp h
      rw [mentions, ofEntries_mentions rfl hfields]
      rfl
  | .complex .., _, h | .bytes .., _, h | .set .., _, h | .ellipsis, _, h | .builtin _, _, h
  | .generic .., _, h | .union .., _, h | .context _, _, h => by cases h

theorem ofItems_mentions : {vs : List Value} → {ds : List Descriptor} → ofItems vs = .ok ds →
    mentionsList ds = []
  | [], _, h => by
      cases h
      rfl
  | x :: xs, _, h => by
      rw [ofItems] at h
      split at h
      · cases h
      · rename_i d hd
        obtain ⟨ds, hds, rfl⟩ := Except.map_eq_ok.mp h
        rw [mentionsList, ofValue_mentions hd, ofItems_mentions hds, List.nil_append]

theorem ofEntries_mentions : {es : List (Value × Value)} → {acc fields : Table Descriptor} →
    mentionsFields acc = [] → ofEntries es acc = .ok fields → mentionsFields fields = []
  | [], _, _, hacc, h => by
      cases h
      exact hacc
  | (k, v) :: rest, acc, _, hacc, h => by
      rw [ofEntries] at h
      split at h
      · cases h
      · rename_i d hd
        refine ofEntries_mentions (List.eq_nil_iff_forall_not_mem.mpr fun m hm => ?_) h
        obtain ⟨entry, hentry, hm⟩ := mem_mentionsFields.mp hm
        rcases Table.mem_put hentry with hentry | rfl
        · exact List.eq_nil_iff_forall_not_mem.mp hacc m
            (mem_mentionsFields.mpr ⟨entry, hentry, hm⟩)
        · rw [ofValue_mentions hd] at hm
          exact List.not_mem_nil hm

end

theorem describe_mentions {v : Value} {d : Descriptor} (h : describe v = .ok d) :
    d.mentions = [] := by
  unfold describe at h
  split at h
  · rename_i d hd
    cases h
    exact ofValue_mentions hd
  · split at h
    · exact ofValue_mentions h
    · cases h
      rfl

end Descriptor

namespace Resolution
open Descriptor

variable {m : Mention}

theorem has_mergeFields (acc : Table Descriptor) (fields : List (String × Descriptor))
    (name : String) :
    Table.has (mergeFields acc fields) name = (Table.has acc name || Table.has fields name) := by
  induction fields generalizing acc with
  | nil => simp [mergeFields, Table.has]
  | cons entry rest ih =>
    obtain ⟨k, d⟩ := entry
    rw [mergeFields]
    split <;> rw [ih, Table.has_put, Bool.or_assoc] <;> rfl

theorem binds_mergeFields (acc : Table Descriptor) (fields : List (String × Descriptor))
    (m : Mention) :
    binds (mergeFields acc fields) m = (binds acc m || binds fields m) := by
  cases m with
  | free name =>
    cases name with
    | str s _ => exact has_mergeFields acc fields s
    | _ => rfl
  | result _ | effect _ => rfl

mutual

/-- A merged descriptor mentions only what one of the two mentions. -/
theorem mem_mentions_merge {left : Descriptor} :
    (right : Descriptor) → m ∈ (merge left right).mentions →
    m ∈ left.mentions ∨ m ∈ right.mentions
  | .unknown, h => .inl h
  | .record rs, h => by
      cases left with
      | record ls =>
        obtain ⟨hm, hbound⟩ := List.mem_filter.mp h
        rw [binds_mergeFields, Bool.not_or, Bool.and_eq_true] at hbound
        exact (mem_mentions_mergeFields rs hm).imp (fun hm => List.mem_filter.mpr ⟨hm, hbound.1⟩)
          fun hm => List.mem_filter.mpr ⟨hm, hbound.2⟩
      | _ => exact .inr h
  | .literal _, h | .tuple _, h | .effect .., h | .var _, h | .ref _, h | .result _, h
  | .index .., h
  | .inter _, h | .op .., h => .inr h

theorem mem_mentions_mergeFields {acc : Table Descriptor} : (fields : List (String × Descriptor)) →
    m ∈ mentionsFields (mergeFields acc fields) → m ∈ mentionsFields acc ∨ m ∈ mentionsFields fields
  | [], h => .inl h
  | (name, right) :: rest, h => by
      have hput : ∀ d : Descriptor, m ∈ mentionsFields (acc.put name d) → m ∈ mentionsFields acc ∨
          m ∈ d.mentions := by
        intro d hm
        obtain ⟨entry, hentry, hm⟩ := mem_mentionsFields.mp hm
        rcases Table.mem_put hentry with hentry | rfl
        · exact .inl (mem_mentionsFields.mpr ⟨entry, hentry, hm⟩)
        · exact .inr hm
      rw [mentionsFields, List.mem_append]
      rw [mergeFields] at h
      split at h
      · rename_i left hleft
        rcases mem_mentions_mergeFields rest h with h | h
        · rcases hput _ h with h | h
          · exact .inl h
          · rcases mem_mentions_merge right h with h | h
            · exact .inl (mem_mentionsFields.mpr ⟨_, Table.mem_of_get? hleft, h⟩)
            · exact .inr (.inl h)
        · exact .inr (.inr h)
      · rcases mem_mentions_mergeFields rest h with h | h
        · exact (hput _ h).imp_right .inl
        · exact .inr (.inr h)

end

/-- When no sibling is pending, fields bind nothing that a value mentions. -/
theorem binds_of_pendingNames {fields : Table Descriptor} {value : Descriptor}
    (h : (pendingNames fields value).isEmpty = true) (hm : m ∈ value.mentions) :
    binds fields m = false := by
  cases m with
  | free name =>
    cases name with
    | str s mark =>
      rw [List.isEmpty_iff, pendingNames, List.filterMap_eq_nil_iff] at h
      simpa [binds, declares] using h _ ((mem_freeVars_iff _ value).mpr hm)
    | _ => rfl
  | result _ | effect _ => rfl

/-- A value closed over its siblings mentions only what the record around it mentions. -/
theorem mem_mentions_closeRounds {fields : Table Descriptor} {rounds : Nat} {pending : List String}
    {value d : Descriptor} (hvalue : value.mentions ⊆ mentionsFields fields)
    (h : closeRounds fields rounds pending value = .ok d) :
    d.mentions ⊆ (record fields).mentions := by
  induction rounds generalizing pending value with
  | zero => cases h
  | succ rounds ih =>
    rw [closeRounds] at h
    split at h
    · cases h
    · dsimp only at h
      split at h
      · rename_i hpending
        cases h
        intro m hm
        exact List.mem_filter.mpr
          ⟨hvalue hm, by rw [binds_of_pendingNames hpending hm, Bool.not_false]⟩
      · refine ih (fun m hm => ?_) h
        rcases mem_mentions_substitute fields value hm with hm | hm
        · exact hvalue hm
        · exact mem_mentionsFields.mpr hm

theorem project_tuple_cases {items : List Descriptor} {part : Descriptor} {field : Value}
    (h : project (.tuple items) field = .ok (some part)) :
    part = .literal (.ofInt items.length) ∨ part ∈ items := by
  simp only [project] at h
  split at h
  · cases h
    exact .inl rfl
  · split at h
    · cases h
    · cases h
    · rename_i i _
      generalize (if i < 0 then i + items.length else i) = j at h
      split at h
      · exact .inr (List.mem_of_getElem? (Except.ok.inj h))
      · cases h

/-- A projected part mentions only what the whole mentions. -/
theorem project_mentions {d part : Descriptor} {field : Value}
    (h : project d field = .ok (some part)) :
    part.mentions ⊆ d.mentions := by
  cases d with
  | record fields =>
    cases field with
    | str name mark =>
      simp only [project] at h
      split at h
      · cases h
      · rename_i value hvalue
        obtain ⟨closed, hclosed, hpart⟩ := Except.map_eq_ok.mp h
        cases hpart
        exact mem_mentions_closeRounds
          (fun m hm => mem_mentionsFields.mpr ⟨_, Table.mem_of_get? hvalue, hm⟩) hclosed
    | _ =>
      simp only [project] at h
      split at h <;> cases h
  | tuple items =>
    rcases project_tuple_cases h with rfl | hpart
    · exact List.nil_subset _
    · exact fun m hm => mem_mentions_tuple.mpr ⟨part, hpart, hm⟩
  | _ => cases h

end Resolution

end EffectTree
