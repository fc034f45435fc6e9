import EffectTree.Proofs.GrowingResolution
import EffectTree.Proofs.Mentions

/-!
# Intersections field by field

An intersection merges whole records one after another. Seen from a single name it merges the values
that the records have under that name, in the same order, and the names come up in the order in
which the records first declare them. Unknown parts leave no trace.
-/
namespace EffectTree

namespace Table

/-- A table with distinct keys is given by its keys and what it has under them. -/
theorem eq_map_keys {α : Type} {table : Table α} (h : table.keys.Nodup) {value : String → α}
    (hvalue : ∀ key ∈ table.keys, table.get? key = some (value key)) :
    table = table.keys.map fun key => (key, value key) := by
  have hentry : ∀ entry ∈ table, (entry.1, value entry.1) = entry := by
    intro entry hentry
    have hfound := (get?_of_mem h hentry).symm.trans (hvalue entry.1 (List.mem_map_of_mem hentry))
    rw [← Option.some.inj hfound]
  calc
    table = table.map fun entry => (entry.1, value entry.1) := by
      rw [List.map_congr_left hentry, List.map_id']
    _ = table.keys.map fun key => (key, value key) := by rw [keys, List.map_map]; rfl

theorem nodup_keys_put {α : Type} {table : Table α} (h : table.keys.Nodup) (name : String)
    (value : α) :
    (table.put name value).keys.Nodup := by
  by_cases hmem : name ∈ table.keys
  · rwa [keys_put_of_mem _ hmem]
  · rw [keys_put_of_notMem _ hmem, List.nodup_append]
    refine ⟨h, List.nodup_singleton name, fun a ha b hb heq => hmem ?_⟩
    rw [← List.mem_singleton.mp hb, ← heq]
    exact ha

end Table

namespace Resolution

theorem nodup_keys_mergeFields {acc fields : Table Descriptor} (h : acc.keys.Nodup) :
    (mergeFields acc fields).keys.Nodup := by
  induction fields generalizing acc with
  | nil => exact h
  | cons entry rest ih =>
    obtain ⟨name, right⟩ := entry
    rw [mergeFields]
    split
    · exact ih (Table.nodup_keys_put h _ _)
    · exact ih (Table.nodup_keys_put h _ _)

/-- New names go to the end, in the order in which they come up. -/
theorem keys_mergeFields (acc fields : Table Descriptor) :
    (mergeFields acc fields).keys = acc.keys ++ (fields.keys.removeAll acc.keys).eraseDups := by
  -- On the fields merged in, for every accumulator, since each field may add a key to it.
  induction fields generalizing acc with
  | nil => simp [mergeFields, Table.keys, List.removeAll]
  | cons entry rest ih =>
    obtain ⟨name, right⟩ := entry
    have hkeys : Table.keys ((name, right) :: rest) = name :: Table.keys rest := rfl
    rw [mergeFields, hkeys]
    split
    · rename_i left hleft
      have hmem : name ∈ acc.keys := Table.get?_isSome.mp (by rw [hleft]; rfl)
      rw [ih, Table.keys_put_of_mem _ hmem, List.cons_removeAll, if_neg (by simpa using hmem)]
    · rename_i hnone
      have hnew : name ∉ acc.keys := Table.get?_eq_none_iff.mp hnone
      rw [ih, Table.keys_put_of_notMem _ hnew, List.cons_removeAll, if_pos (by simpa using hnew),
        List.eraseDups_cons,
        List.append_assoc, List.singleton_append]
      congr 3
      simp only [List.removeAll, List.filter_filter]
      refine List.filter_congr fun key _ => ?_
      by_cases hkey : key = name <;> simp [hkey]

theorem get?_mergeFields {acc fields : Table Descriptor} (h : fields.keys.Nodup) (name : String) :
    (mergeFields acc fields).get? name =
      (fields.get? name).elim (acc.get? name) fun right =>
        some (merge ((acc.get? name).getD .unknown) right) := by
  induction fields generalizing acc with
  | nil => rfl
  | cons entry rest ih =>
    obtain ⟨k, right⟩ := entry
    obtain ⟨hnew, hrest⟩ := List.nodup_cons.mp h
    have hstep : mergeFields acc ((k, right) :: rest) =
        mergeFields (acc.put k (merge ((acc.get? k).getD .unknown) right)) rest := by
      rw [mergeFields]
      cases acc.get? k with
      | some left => rfl
      | none => simp
    rw [hstep, ih hrest, Table.get?_cons]
    by_cases hk : k = name
    · subst hk
      rw [if_pos rfl, Table.get?_eq_none_iff.mpr hnew, Table.get?_put_self]
      rfl
    · rw [if_neg hk, Table.get?_put_ne acc _ (Ne.symm hk)]

/-- The values that records have under a name, from left to right. -/
def valuesAt (rs : List (Table Descriptor)) (name : String) : List Descriptor :=
  rs.filterMap (Table.get? · name)

/-- The names that records declare, in the order of their first appearance, with the values under
each of them merged from left to right. -/
def joined (rs : List (Table Descriptor)) : Table Descriptor :=
  (rs.flatMap Table.keys).eraseDups.map fun name => (name, (valuesAt rs name).foldl merge .unknown)

theorem keys_foldl_mergeFields (rs : List (Table Descriptor)) :
    (rs.foldl mergeFields []).keys = (rs.flatMap Table.keys).eraseDups := by
  induction rs using List.reverseRecOn with
  | nil => rfl
  | append_singleton rs fields ih =>
    rw [List.foldl_append, List.foldl_cons, List.foldl_nil, keys_mergeFields, ih,
      List.flatMap_append,
      List.eraseDups_append, List.flatMap_singleton]
    congr 2
    simp only [List.removeAll]
    refine List.filter_congr fun key _ => ?_
    simp [List.mem_eraseDups]

theorem nodup_keys_foldl_mergeFields {rs : List (Table Descriptor)} {acc : Table Descriptor}
    (h : acc.keys.Nodup) :
    (rs.foldl mergeFields acc).keys.Nodup := by
  induction rs generalizing acc with
  | nil => exact h
  | cons fields rs ih => exact ih (nodup_keys_mergeFields h)

theorem get?_foldl_mergeFields {rs : List (Table Descriptor)} (h : ∀ fields ∈ rs, fields.keys.Nodup)
    {name : String} (hname : name ∈ (rs.foldl mergeFields []).keys) :
    (rs.foldl mergeFields []).get? name = some ((valuesAt rs name).foldl merge .unknown) := by
  have hgetD : ((rs.foldl mergeFields []).get? name).getD .unknown =
      (valuesAt rs name).foldl merge .unknown := by
    clear hname
    induction rs using List.reverseRecOn with
    | nil => rfl
    | append_singleton rs fields ih =>
      have hrs := ih fun fields hfields => h fields (List.mem_append_left _ hfields)
      have hfields : fields.keys.Nodup := h fields (by simp)
      rw [List.foldl_append, List.foldl_cons, List.foldl_nil, get?_mergeFields hfields, valuesAt,
        List.filterMap_append,
        List.foldl_append, ← valuesAt, ← hrs]
      cases hget : fields.get? name <;> simp [hget]
  obtain ⟨value, hvalue⟩ := Option.isSome_iff_exists.mp (Table.get?_isSome.mpr hname)
  rw [hvalue] at hgetD ⊢
  exact congrArg some hgetD

/-- Merging whole records merges them field by field. -/
theorem foldl_mergeFields {rs : List (Table Descriptor)} (h : ∀ fields ∈ rs, fields.keys.Nodup) :
    rs.foldl mergeFields [] = joined rs := by
  have hnodup : (rs.foldl mergeFields []).keys.Nodup := nodup_keys_foldl_mergeFields List.nodup_nil
  rw [Table.eq_map_keys hnodup fun name => get?_foldl_mergeFields h, keys_foldl_mergeFields]
  rfl

theorem foldl_merge_record (rs : List (Table Descriptor)) (acc : Table Descriptor) :
    (rs.map Descriptor.record).foldl merge (.record acc) = .record (rs.foldl mergeFields acc) := by
  induction rs generalizing acc with
  | nil => rfl
  | cons fields rs ih => exact ih (mergeFields acc fields)

theorem mergeFields_of_new {acc fields : Table Descriptor} (hdistinct : fields.keys.Nodup)
    (hnew : ∀ name ∈ fields.keys, name ∉ acc.keys) : mergeFields acc fields = acc ++ fields := by
  induction fields generalizing acc with
  | nil => rw [mergeFields, List.append_nil]
  | cons entry rest ih =>
    obtain ⟨name, value⟩ := entry
    obtain ⟨hother, hrest⟩ := List.nodup_cons.mp hdistinct
    have hname : name ∉ acc.keys := hnew name (List.mem_cons_self ..)
    rw [mergeFields, Table.get?_eq_none_iff.mpr hname]
    have hstill : ∀ key ∈ Table.keys rest, key ∉ (acc.put name value).keys := by
      intro key hkey
      rw [Table.keys_put_of_notMem _ hname, List.mem_append, List.mem_singleton, not_or]
      exact ⟨hnew key (List.mem_cons_of_mem _ hkey), fun heq => hother (heq ▸ hkey)⟩
    rw [ih hrest hstill, Table.put_of_notMem value hname, List.append_assoc, List.singleton_append]

theorem foldl_merge_records {rs : List (Table Descriptor)} (hne : rs ≠ [])
    (h : ∀ fields ∈ rs, fields.keys.Nodup) :
    (rs.map Descriptor.record).foldl merge .unknown = .record (joined rs) := by
  obtain ⟨fields, rs, rfl⟩ := List.exists_cons_of_ne_nil hne
  have hfirst : mergeFields [] fields = fields :=
    mergeFields_of_new (h fields (List.mem_cons_self ..)) fun _ _ => List.not_mem_nil
  rw [← foldl_mergeFields h, List.map_cons, List.foldl_cons, merge_unknown, foldl_merge_record,
    List.foldl_cons, hfirst]

/-- Whether a descriptor is more than a placeholder. -/
def isKnown : Descriptor → Bool
  | .unknown => false
  | _ => true

theorem merge_of_not_record {d : Descriptor} (h : ∀ fields, d ≠ .record fields)
    (left : Descriptor) :
    merge left d = if isKnown d then d else left := by
  cases d with
  | record fields => exact absurd rfl (h fields)
  | _ => rfl

/-- Of values that are no records the last known one is left. -/
theorem foldl_merge_of_no_record {vs : List Descriptor}
    (h : ∀ v ∈ vs, ∀ fields, v ≠ .record fields) :
    vs.foldl merge .unknown = ((vs.filter isKnown).getLast?).getD .unknown := by
  induction vs using List.reverseRecOn with
  | nil => rfl
  | append_singleton vs v ih =>
    have hvs := ih fun w hw => h w (List.mem_append_left _ hw)
    have hv := h v (by simp)
    rw [List.foldl_append, List.foldl_cons, List.foldl_nil, merge_of_not_record hv,
      List.filter_append, hvs]
    by_cases hknown : isKnown v = true
    · simp [hknown]
    · simp [hknown]

section Heads

variable {head : Descriptor → Except Fault Descriptor} {parts heads : List Descriptor}

theorem foldlM_merge (h : List.Forall₂ (fun part d => head part = .ok d) parts heads)
    (merged : Descriptor) :
    parts.foldlM (fun merged part => (head part).map (merge merged)) merged =
      .ok (heads.foldl merge merged) := by
  induction h generalizing merged with
  | nil => rfl
  | cons hpart _ ih =>
    rw [List.foldlM_cons, hpart]
    exact ih _

theorem foldlM_merge_filter (hunknown : head .unknown = .ok .unknown) (parts : List Descriptor)
    (merged : Descriptor) :
    parts.foldlM (fun merged part => (head part).map (merge merged)) merged =
      (parts.filter isKnown).foldlM (fun merged part => (head part).map (merge merged)) merged := by
  induction parts generalizing merged with
  | nil => rfl
  | cons part parts ih =>
    cases part with
    | unknown =>
      rw [List.foldlM_cons, hunknown]
      exact ih merged
    | _ =>
      rw [List.filter_cons_of_pos rfl, List.foldlM_cons, List.foldlM_cons]
      exact congrArg _ (funext fun d => ih d)

end Heads

end Resolution

namespace Resolver

open Resolution

variable {r : Resolver}

/-- A head that is found by every search that may hold one more search inside it than the resolver's
own, and by the resolver itself unless the searches nest too deeply. -/
structure Finds (r : Resolver) (d found : Descriptor) : Prop where
  deeper : ∀ n > r.nesting, headAt r n d = .ok found
  itself : r.head d = .ok found ∨ r.head d = .error .recursion

theorem Finds.of_deeper {d found : Descriptor} (h : ∀ n > r.nesting, headAt r n d = .ok found) :
    r.Finds d found := by
  refine ⟨h, ?_⟩
  have hkept : Kept (· = .recursion) (r.head d) (headAt r (r.nesting + 1) d) :=
    headAt_kept (outgrows_self r) (Nat.le_succ _) d
  rw [h (r.nesting + 1) (Nat.lt_succ_self _)] at hkept
  generalize r.head d = x at hkept
  cases hkept with
  | same => exact .inl rfl
  | lost _ hlost => exact .inr (congrArg Except.error hlost)

/-- The parts of an intersection whose heads are records merge to the joined record in every deeper
search too. -/
theorem foldlM_merge_records {parts : List Descriptor} {rs : List (Table Descriptor)}
    (hne : parts ≠ [])
    (hparts : List.Forall₂ (fun part fields => r.head part = .ok (.record fields)) parts rs)
    (hdistinct : ∀ fields ∈ rs, fields.keys.Nodup) {n : Nat} (hn : r.nesting ≤ n) :
    parts.foldlM (fun merged part => (headAt r n part).map (merge merged)) .unknown =
      .ok (.record (joined rs)) := by
  have hrs : rs ≠ [] := by
    rintro rfl
    exact hne (List.forall₂_nil_right_iff.mp hparts)
  have hheads : List.Forall₂ (fun part d => headAt r n part = .ok d) parts
      (rs.map Descriptor.record) := by
    rw [List.forall₂_map_right_iff]
    exact hparts.imp fun part fields hpart => (headAt_kept (outgrows_self r) hn part).ok hpart
  rw [foldlM_merge hheads, foldl_merge_records hrs hdistinct]

/-- An intersection steps to its merged parts, and a merged record is its own head. -/
theorem headAt_inter (hsteps : 2 ≤ r.maxSteps) {n : Nat} {parts : List Descriptor}
    {fields : Table Descriptor}
    (h : parts.foldlM (fun merged part => (headAt r n part).map (merge merged)) .unknown =
      .ok (.record fields)) :
    headAt r (n + 1) (.inter parts) = .ok (.record fields) := by
  refine headAt_of_next (by omega) ?_ rfl
  rw [step, h]
  rfl

/-- The head of an intersection of records has the names of the records in the order of their first
appearance, and under each the values there merged from left to right; of values that are no records
that is the last known one; and unknown parts make no difference. -/
theorem intersection_fieldwise (hsteps : 2 ≤ r.maxSteps) {parts : List Descriptor}
    {rs : List (Table Descriptor)} (hne : parts ≠ [])
    (hparts : List.Forall₂ (fun part fields => r.head part = .ok (.record fields)) parts rs)
    (hdistinct : ∀ fields ∈ rs, fields.keys.Nodup) :
    r.Finds (.inter parts) (.record (joined rs)) ∧
      (∀ name, (∀ v ∈ valuesAt rs name, ∀ fields, v ≠ .record fields) →
        (valuesAt rs name).foldl merge .unknown =
          (((valuesAt rs name).filter isKnown).getLast?).getD .unknown) ∧
      ∀ parts', parts'.filter isKnown = parts → r.Finds (.inter parts') (.record (joined rs)) := by
  have hnesting : 0 < r.nesting := by
    obtain ⟨part, rest, rfl⟩ := List.exists_cons_of_ne_nil hne
    obtain ⟨fields, _, hpart, -⟩ := List.forall₂_cons_left_iff.mp hparts
    refine Nat.pos_of_ne_zero fun hzero => ?_
    rw [head, hzero] at hpart
    cases hpart
  refine ⟨.of_deeper fun n hn => ?_, fun name => foldl_merge_of_no_record,
    fun parts' hfilter => .of_deeper fun n hn => ?_⟩
  · obtain ⟨m, rfl⟩ : ∃ m, n = m + 1 := ⟨n - 1, by omega⟩
    exact headAt_inter hsteps (foldlM_merge_records hne hparts hdistinct (by omega))
  · obtain ⟨m, rfl⟩ : ∃ m, n = m + 1 + 1 := ⟨n - 2, by omega⟩
    have hunknown : headAt r (m + 1) .unknown = .ok .unknown := headAt_of_stable (by omega) rfl
    have hmerged := foldlM_merge_records hne hparts hdistinct (n := m + 1) (by omega)
    rw [← hfilter, ← foldlM_merge_filter hunknown] at hmerged
    exact headAt_inter hsteps hmerged

def defaultFields : Table Descriptor :=
  [("size", .literal (.ofInt 1)), ("box", .record [("a", Descriptor.null), ("b", .unknown)])]

def givenFields : Table Descriptor :=
  [("name", .unknown), ("size", .unknown), ("box", .record [("b", .literal (.ofInt 2))])]

/-- A resolver that takes no more steps than are needed. -/
def withDefaults : Resolver :=
  { definitions := [("defaults", .record defaultFields)], maxSteps := 2 }

example : joined [defaultFields, givenFields] =
    [("size", .literal (.ofInt 1)),
    ("box", .record [("a", Descriptor.null), ("b", .literal (.ofInt 2))]),
      ("name", .unknown)] := rfl

theorem withDefaults_intersection :
    withDefaults.Finds (.inter [.unknown, .ref (.ofStr "defaults"), .unknown, .record givenFields])
      (.record (joined [defaultFields, givenFields])) := by
  have hparts : List.Forall₂ (fun part fields => withDefaults.head part = .ok (.record fields))
      [.ref (.ofStr "defaults"), .record givenFields] [defaultFields, givenFields] :=
        .cons rfl (.cons rfl .nil)
  have hdistinct : ∀ fields ∈ [defaultFields, givenFields], fields.keys.Nodup := by decide
  obtain ⟨-, -, hunknown⟩ := intersection_fieldwise (by decide) (List.cons_ne_nil _ _) hparts
    hdistinct
  exact hunknown _ rfl

end Resolver

end EffectTree
