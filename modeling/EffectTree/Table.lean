/-!
# Insertion-ordered tables

A table lists its entries in the order in which their keys were first stored. Storing under a
present key replaces the value in place.
-/

namespace EffectTree

abbrev Table (α : Type) := List (String × α)

namespace Table

variable {α : Type}

def get? (table : Table α) (key : String) : Option α := (table.find? (·.1 = key)).map (·.2)

def has (table : Table α) (key : String) : Bool := table.any (·.1 = key)

def keys (table : Table α) : List String := table.map (·.1)

def put (table : Table α) (key : String) (value : α) : Table α :=
  match table with
  | [] => [(key, value)]
  | (k, v) :: rest => if k = key then (k, value) :: rest else (k, v) :: put rest key value

@[simp] theorem get?_nil (key : String) : get? ([] : Table α) key = none := rfl

@[simp] theorem get?_put_self (table : Table α) (key : String) (value : α) :
    (table.put key value).get? key = some value := by
  induction table with
  | nil => simp [put, get?]
  | cons entry rest ih =>
    obtain ⟨k, v⟩ := entry
    by_cases h : k = key
    · simp [put, get?, h]
    · simpa [put, get?, h, List.find?_cons] using ih

theorem get?_put_ne (table : Table α) {key other : String} (value : α) (h : other ≠ key) :
    (table.put key value).get? other = table.get? other := by
  induction table with
  | nil => simp [put, get?, Ne.symm h]
  | cons entry rest ih =>
    obtain ⟨k, v⟩ := entry
    by_cases hk : k = key
    · subst hk
      simp [put, get?, Ne.symm h]
    · by_cases ho : k = other
      · subst ho
        simp [put, get?, hk]
      · simpa [put, get?, List.find?_cons, hk, ho] using ih

theorem put_of_notMem {table : Table α} {key : String} (value : α) (h : key ∉ table.keys) :
    table.put key value = table ++ [(key, value)] := by
  induction table with
  | nil => rfl
  | cons entry rest ih =>
    obtain ⟨k, v⟩ := entry
    simp only [keys, List.map_cons, List.mem_cons, not_or] at h
    simp [put, Ne.symm h.1, ih h.2]

theorem get?_map {β : Type} (f : α → β) (table : Table α) (key : String) :
    get? (table.map fun entry => (entry.1, f entry.2)) key = (table.get? key).map f := by
  simp only [get?, List.find?_map, Option.map_map]
  rfl

@[simp] theorem keys_map {β : Type} (f : α → β) (table : Table α) :
    keys (table.map fun entry => (entry.1, f entry.2)) = table.keys := by
  simp [keys]

theorem get?_append (table other : Table α) (key : String) :
    get? (table ++ other) key = (table.get? key).or (get? other key) := by
  simp only [get?, List.find?_append, Option.map_or]

theorem get?_isSome {table : Table α} {key : String} :
    (table.get? key).isSome ↔ key ∈ table.keys := by
  simp [get?, keys, List.find?_isSome]

theorem get?_eq_none_iff {table : Table α} {key : String} :
    table.get? key = none ↔ key ∉ table.keys := by
  rw [← get?_isSome, Option.not_isSome_iff_eq_none]

theorem has_iff_mem_keys {table : Table α} {key : String} :
    table.has key = true ↔ key ∈ table.keys := by
  simp [has, keys]

theorem get?_cons (name : String) (value : α) (table : Table α) (key : String) :
    get? ((name, value) :: table) key = if name = key then some value else table.get? key := by
  by_cases h : name = key <;> simp [get?, h]

/-- Where keys are distinct, each entry is what is found under its key. -/
theorem get?_of_mem {table : Table α} (h : table.keys.Nodup) {entry : String × α}
    (hentry : entry ∈ table) :
    table.get? entry.1 = some entry.2 := by
  induction table with
  | nil => cases hentry
  | cons first rest ih =>
    obtain ⟨k, v⟩ := first
    obtain ⟨hnew, hrest⟩ := List.nodup_cons.mp h
    rw [get?_cons]
    rcases List.mem_cons.mp hentry with rfl | hmem
    · exact if_pos rfl
    · have hne : k ≠ entry.1 := fun heq => hnew (List.mem_map.mpr ⟨entry, hmem, heq.symm⟩)
      rw [if_neg hne, ih hrest hmem]

theorem keys_put_of_mem {table : Table α} {key : String} (value : α) (h : key ∈ table.keys) :
    (table.put key value).keys = table.keys := by
  induction table with
  | nil => cases h
  | cons entry rest ih =>
    obtain ⟨k, v⟩ := entry
    rw [put]
    split
    · rfl
    · rename_i hne
      have hrest : key ∈ keys rest := (List.mem_cons.mp h).resolve_left fun heq => hne heq.symm
      exact congrArg (k :: ·) (ih hrest)

theorem keys_put_of_notMem {table : Table α} {key : String} (value : α) (h : key ∉ table.keys) :
    (table.put key value).keys = table.keys ++ [key] := by
  rw [put_of_notMem value h, keys, keys, List.map_append, List.map_singleton]

end Table

end EffectTree
