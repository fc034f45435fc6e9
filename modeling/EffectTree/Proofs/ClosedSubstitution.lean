import EffectTree.Proofs.Mentions

/-!
# Substitution of closed descriptors

What has no free variables is captured nowhere and stays as it is in every later substitution. So
substituting closed descriptors takes the names of the scope away from the free ones, two
substitutions are one by the joined scopes, and neither repetition nor the order of substitutions
for different names matters. A projection that a substitution goes through is a new thing, so
descriptors are compared without the marks of their projections.
-/
namespace EffectTree

theorem Value.filter_insertMember {p : Value → Bool}
    (hp : ∀ a b : Value, a.agrees b = true → p a = p b) (x : Value) (items : List Value) :
    (insertMember x items).filter p = if p x then insertMember x (items.filter p)
    else items.filter p := by
  have hany (hx : p x = true) : (items.filter p).any (agrees · x) = items.any (agrees · x) := by
    rw [List.any_filter]
    congr 1
    funext y
    by_cases hy : y.agrees x = true
    · simp [hy, hp y x hy, hx]
    · simp [hy]
  have hpresent (hx : p x = false) : (insertMember x items).filter p = items.filter p := by
    unfold insertMember
    split
    · rfl
    · simp [hx]
  by_cases hx : p x = true
  · rw [if_pos hx]
    unfold insertMember
    rw [hany hx]
    split
    · rfl
    · simp [hx]
  · rw [if_neg hx, hpresent (by simpa using hx)]

theorem Value.filter_foldl_insertMember {p : Value → Bool}
    (hp : ∀ a b : Value, a.agrees b = true → p a = p b) (xs acc : List Value) :
    (xs.foldl (fun acc x => insertMember x acc) acc).filter p =
      (xs.filter p).foldl (fun acc x => insertMember x acc) (acc.filter p) := by
  induction xs generalizing acc with
  | nil => rfl
  | cons x xs ih =>
    rw [List.foldl_cons, ih, filter_insertMember hp, List.filter_cons]
    split <;> rfl

namespace Descriptor

mutual

/-- The descriptor whatever things its projections are. -/
def unmarked : Descriptor → Descriptor
  | tuple items => tuple (unmarkedList items)
  | record fields => record (unmarkedFields fields)
  | effect tag args => effect tag (unmarkedList args)
  | index target field _ => index (unmarked target) field .fresh
  | inter parts => inter (unmarkedList parts)
  | op name args => op name (unmarkedList args)
  | d => d

def unmarkedList : List Descriptor → List Descriptor
  | [] => []
  | d :: ds => unmarked d :: unmarkedList ds

def unmarkedFields : List (String × Descriptor) → List (String × Descriptor)
  | [] => []
  | (name, d) :: rest => (name, unmarked d) :: unmarkedFields rest

end

namespace Scope

/-- A scope that binds names to closed descriptors only. -/
def Closed (scope : Scope) : Prop := ∀ entry ∈ scope, entry.2.freeVars = []

/-- A scope with the names that another one binds bound as there. -/
def overriddenBy (scope other : Scope) : Scope := other ++ scope.without other

variable {scope other : Scope}

theorem Closed.find? (h : scope.Closed) {name : Value} {d : Descriptor}
    (hd : scope.find? name = some d) :
    d.freeVars = [] := by
  obtain ⟨entry, hentry, rfl⟩ := mem_of_find? hd
  exact h entry hentry

theorem Closed.badVar? (h : scope.Closed) : ∀ entry ∈ scope, entry.2.badVar? = none := by
  intro entry hentry
  rw [badVar?_eq_none_iff, h entry hentry]
  exact fun name hname => nomatch hname

theorem Closed.without (h : scope.Closed) (fields : List (String × Descriptor)) :
    (scope.without fields).Closed :=
  fun entry hentry => h entry (List.mem_of_mem_filter hentry)

theorem find?_append (name : Value) :
    Scope.find? (scope ++ other) name = (scope.find? name).or (other.find? name) := by
  cases name with
  | str s _ => exact Table.get?_append scope other s
  | _ => rfl

theorem declares_eq_false_of_find? {name : Value} (h : scope.find? name = none) :
    declares scope name = false := by
  cases name with
  | str s _ =>
    rw [declares, Bool.eq_false_iff, ne_eq, Table.has_iff_mem_keys]
    exact Table.get?_eq_none_iff.mp h
  | _ => rfl

theorem find?_overriddenBy (name : Value) :
    (scope.overriddenBy other).find? name = (other.find? name).or (scope.find? name) := by
  rw [overriddenBy, find?_append, find?_without]
  cases hother : other.find? name with
  | some d => rfl
  | none => rw [declares_eq_false_of_find? hother, if_neg Bool.false_ne_true]

/-- What a name is bound to in one of two scopes, inside a record. -/
theorem find?_without_or {s t u : Scope}
    (h : ∀ name, u.find? name = (s.find? name).or (t.find? name))
    (fields : List (String × Descriptor)) (name : Value) :
    (u.without fields).find? name =
    ((s.without fields).find? name).or ((t.without fields).find? name) := by
  simp only [find?_without]
  split
  · rfl
  · exact h name

end Scope

mutual

/-- Substituting closed descriptors takes away the names that are bound. -/
theorem freeVars_substitute {scope : Scope} (h : scope.Closed) : (d : Descriptor) →
    (substitute scope d).freeVars = d.freeVars.filter fun name => (scope.find? name).isNone
  | var name => by
      rw [substitute, freeVars]
      cases hfind : scope.find? name with
      | none => simp [freeVars, hfind]
      | some d => simp [hfind, h.find? hfind]
  | tuple items => freeVarsList_substitute h items
  | effect _ args => freeVarsList_substitute h args
  | index target _ _ => freeVars_substitute h target
  | inter parts => freeVarsList_substitute h parts
  | op _ args => freeVarsList_substitute h args
  | record fields => by
      rw [substitute, freeVars, freeVars, freeVarsFields_substitute (h.without fields) fields,
        List.filter_filter,
        List.filter_filter]
      congr 1
      funext name
      rw [declares_substituteFields, find?_without]
      cases declares fields name <;> simp
  | literal _ | unknown | ref _ | result _ => rfl

theorem freeVarsList_substitute {scope : Scope} (h : scope.Closed) : (ds : List Descriptor) →
    freeVarsList (substituteList scope ds) = (freeVarsList ds).filter fun name =>
      (scope.find? name).isNone
  | [] => rfl
  | d :: ds => by
      rw [substituteList, freeVarsList, freeVarsList, List.filter_append, freeVars_substitute h d,
        freeVarsList_substitute h ds]

theorem freeVarsFields_substitute {scope : Scope} (h : scope.Closed) :
    (fields : List (String × Descriptor)) →
    freeVarsFields (substituteFields scope fields) =
      (freeVarsFields fields).filter fun name => (scope.find? name).isNone
  | [] => rfl
  | (_, d) :: rest => by
      rw [substituteFields, freeVarsFields, freeVarsFields, List.filter_append,
        freeVars_substitute h d,
        freeVarsFields_substitute h rest]

end

theorem find?_of_mem_freeVars_substitute {scope : Scope} (h : scope.Closed) {d : Descriptor}
    {name : Value} (hname : name ∈ (substitute scope d).freeVars) : scope.find? name = none := by
  rw [freeVars_substitute h, List.mem_filter] at hname
  simpa using hname.2

theorem replace_eq {d : Descriptor} (hd : d.badVar? = none) (scope : Scope) :
    replace scope d = .ok (substitute scope d) := by
  rw [replace, badLookup?_eq_none scope d hd]

mutual

/-- A scope that binds no free variable changes nothing. -/
theorem unmarked_substitute_of_unbound {scope : Scope} : (d : Descriptor) →
    (∀ name ∈ d.freeVars, scope.find? name = none) → (substitute scope d).unmarked = d.unmarked
  | var name, h => by
      rw [substitute, h name (List.mem_singleton.mpr rfl)]
      rfl
  | tuple items, h => congrArg tuple (unmarkedList_substitute_of_unbound items h)
  | effect tag args, h => congrArg (effect tag) (unmarkedList_substitute_of_unbound args h)
  | index target field _, h => by
      rw [substitute, unmarked, unmarked, unmarked_substitute_of_unbound target h]
  | inter parts, h => congrArg inter (unmarkedList_substitute_of_unbound parts h)
  | op name args, h => congrArg (op name) (unmarkedList_substitute_of_unbound args h)
  | record fields, h =>
    congrArg record (unmarkedFields_substitute_of_unbound fields (find?_without_eq_none h))
  | literal _, _ | unknown, _ | ref _, _ | result _, _ => rfl

theorem unmarkedList_substitute_of_unbound {scope : Scope} : (ds : List Descriptor) →
    (∀ name ∈ freeVarsList ds, scope.find? name = none) →
    unmarkedList (substituteList scope ds) = unmarkedList ds
  | [], _ => rfl
  | d :: ds, h => by
      rw [substituteList, unmarkedList, unmarkedList,
        unmarked_substitute_of_unbound d fun name hname => h name (List.mem_append_left _ hname),
        unmarkedList_substitute_of_unbound ds fun name hname =>
          h name (List.mem_append_right _ hname)]

theorem unmarkedFields_substitute_of_unbound {scope : Scope} :
    (fields : List (String × Descriptor)) →
    (∀ name ∈ freeVarsFields fields, scope.find? name = none) →
    unmarkedFields (substituteFields scope fields) = unmarkedFields fields
  | [], _ => rfl
  | (_, d) :: rest, h => by
      rw [substituteFields, unmarkedFields, unmarkedFields,
        unmarked_substitute_of_unbound d fun name hname => h name (List.mem_append_left _ hname),
        unmarkedFields_substitute_of_unbound rest fun name hname =>
          h name (List.mem_append_right _ hname)]

end

/-- The names that a record declares stay the same, so it hides the same names from a second
scope. -/
theorem Scope.without_substituteFields (scope other : Scope) (fields : List (String × Descriptor)) :
    scope.without (substituteFields other fields) = scope.without fields := by
  simp only [Scope.without, has_substituteFields]

mutual

/-- After a substitution of closed descriptors a second one does what one substitution does that
prefers the first. -/
theorem unmarked_substitute_substitute {s t u : Scope} (hs : s.Closed)
    (hu : ∀ name, u.find? name = (s.find? name).or (t.find? name)) : (d : Descriptor) →
    (substitute t (substitute s d)).unmarked = (substitute u d).unmarked
  | var name => by
      rw [substitute, substitute, hu]
      cases hfind : s.find? name with
      | none => rfl
      | some e => exact unmarked_substitute_of_unbound e fun y hy => by simp [hs.find? hfind] at hy
  | tuple items => congrArg tuple (unmarkedList_substitute_substitute hs hu items)
  | effect tag args => congrArg (effect tag) (unmarkedList_substitute_substitute hs hu args)
  | index target field _ => by
      simp only [substitute, unmarked, unmarked_substitute_substitute hs hu target]
  | inter parts => congrArg inter (unmarkedList_substitute_substitute hs hu parts)
  | op name args => congrArg (op name) (unmarkedList_substitute_substitute hs hu args)
  | record fields => by
      simp only [substitute, unmarked, Scope.without_substituteFields,
        unmarkedFields_substitute_substitute (hs.without fields)
          (Scope.find?_without_or hu fields) fields]
  | literal _ | unknown | ref _ | result _ => rfl

theorem unmarkedList_substitute_substitute {s t u : Scope} (hs : s.Closed)
    (hu : ∀ name, u.find? name = (s.find? name).or (t.find? name)) : (ds : List Descriptor) →
    unmarkedList (substituteList t (substituteList s ds)) = unmarkedList (substituteList u ds)
  | [] => rfl
  | d :: ds => by
      simp only [substituteList, unmarkedList, unmarked_substitute_substitute hs hu d,
        unmarkedList_substitute_substitute hs hu ds]

theorem unmarkedFields_substitute_substitute {s t u : Scope} (hs : s.Closed)
    (hu : ∀ name, u.find? name = (s.find? name).or (t.find? name)) :
    (fields : List (String × Descriptor)) →
    unmarkedFields (substituteFields t (substituteFields s fields)) =
      unmarkedFields (substituteFields u fields)
  | [] => rfl
  | (_, d) :: rest => by
      simp only [substituteFields, unmarkedFields, unmarked_substitute_substitute hs hu d,
        unmarkedFields_substitute_substitute hs hu rest]

end

theorem Scope.or_comm_of_disjoint {s t : Scope}
    (h : ∀ name, s.find? name = none ∨ t.find? name = none) (name : Value) :
    (s.find? name).or (t.find? name) = (t.find? name).or (s.find? name) := by
  rcases h name with hname | hname <;> simp [hname]

theorem freeNames_eq {d : Descriptor} (hd : d.badVar? = none) :
    freeNames d = .ok (d.freeVars.foldl (fun acc name => Value.insertMember name acc) []) := by
  rw [freeNames, hd]

theorem freeNames_substitute {scope : Scope} (h : scope.Closed) {d : Descriptor}
    (hd : d.badVar? = none) :
    freeNames (substitute scope d) =
      (freeNames d).map (List.filter fun name => (scope.find? name).isNone) := by
  have hagree (a b : Value) (hab : a.agrees b = true) :
      (scope.find? a).isNone = (scope.find? b).isNone := by
    rw [find?_congr scope hab]
  rw [freeNames_eq hd, freeNames_eq (badVar?_substitute h.badVar? hd), freeVars_substitute h,
    Except.map,
    Value.filter_foldl_insertMember hagree]
  rfl

/-- Where names can be keys, substituting closed descriptors succeeds and takes the names that are
bound away from the free ones; it changes nothing if none of them is bound; a second substitution
joins it into one that prefers it; and neither doing it again nor the order of substitutions for
different names makes a difference. -/
theorem closed_substitution_acts {d : Descriptor} (hd : d.badVar? = none) {s t : Scope}
    (hs : s.Closed) (ht : t.Closed) :
    (∀ scope, replace scope d = .ok (substitute scope d) ∧
      replace scope (substitute s d) = .ok (substitute scope (substitute s d))) ∧
    (∃ names, freeNames d = .ok names ∧
      freeNames (substitute s d) = .ok (names.filter fun name => (s.find? name).isNone)) ∧
    ((∀ name ∈ d.freeVars, s.find? name = none) → (substitute s d).unmarked = d.unmarked) ∧
    (substitute t (substitute s d)).unmarked = (substitute (t.overriddenBy s) d).unmarked ∧
    (substitute s (substitute s d)).unmarked = (substitute s d).unmarked ∧
    ((∀ name, s.find? name = none ∨ t.find? name = none) →
      (substitute t (substitute s d)).unmarked = (substitute s (substitute t d)).unmarked) := by
  have hjoined : ∀ name, (t.overriddenBy s).find? name = (s.find? name).or (t.find? name) :=
    fun name => Scope.find?_overriddenBy name
  refine ⟨fun scope => ⟨replace_eq hd scope, replace_eq (badVar?_substitute hs.badVar? hd) scope⟩,
    ?_,
    unmarked_substitute_of_unbound d, unmarked_substitute_substitute hs hjoined d, ?_,
      fun hdisjoint => ?_⟩
  · refine ⟨_, freeNames_eq hd, ?_⟩
    rw [freeNames_substitute hs hd, freeNames_eq hd]
    rfl
  · exact unmarked_substitute_of_unbound _ fun name => find?_of_mem_freeVars_substitute hs
  · have hswapped : ∀ name, (t.overriddenBy s).find? name = (t.find? name).or (s.find? name) :=
      fun name => (hjoined name).trans (Scope.or_comm_of_disjoint hdisjoint name)
    rw [unmarked_substitute_substitute hs hjoined, unmarked_substitute_substitute ht hswapped]

/-- A projection next to a record that declares one of two names. -/
def halfDeclaring : Descriptor :=
  .tuple [.index (.var (.ofStr "input")) (.ofInt 0) (.placed 1),
    .record [("input", .unknown),
      ("return", .tuple [.var (.ofStr "input"), .var (.ofStr "other")])]]

theorem halfDeclaring_substitution_acts :
    let s : Scope := [("input", .tuple [.null])]
    let t : Scope := [("input", .unknown),
      ("other", .record [("x", .unknown), ("y", .var (.ofStr "x"))])]
    (halfDeclaring.badVar? = none ∧ s.Closed ∧ t.Closed) ∧
      (substitute t (substitute s halfDeclaring)).unmarked =
        (substitute (t.overriddenBy s) halfDeclaring).unmarked := by
  intro s t
  have hs : s.Closed := by simp [s, Scope.Closed, freeVars, freeVarsList, null]
  have ht : t.Closed := by
    simp [t, Scope.Closed, freeVars, freeVarsFields, Value.ofStr, declares, Table.has]
  obtain ⟨-, -, -, htwice, -⟩ := closed_substitution_acts (d := halfDeclaring) rfl hs ht
  exact ⟨⟨rfl, hs, ht⟩, htwice⟩

end Descriptor

end EffectTree
