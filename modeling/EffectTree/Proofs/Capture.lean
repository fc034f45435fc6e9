import Mathlib
import EffectTree.Descriptor.Substitution

/-!
# Free variables under substitution

Substitution puts descriptors in the place of variables without renaming anything. A variable that
is free in a descriptor put in stays free where no record around the place declares it; where one
does, the record captures it. The free variables of the outcome are determined exactly, and with
them the substitutions under which nothing is captured.
-/
namespace EffectTree.Descriptor

/-- A name is among the given ones. -/
def Named (names : List Value) (y : Value) : Prop := ∃ n ∈ names, n.agrees y

def Free (d : Descriptor) (y : Value) : Prop := Named d.freeVars y

mutual

/-- The free variables that stand where no record around them declares the given name. -/
def exposed (y : Value) : Descriptor → List Value
  | var name => [name]
  | tuple items => exposedList y items
  | record fields =>
      if declares fields y then [] else (exposedFields y fields).filter fun name =>
        !declares fields name
  | effect _ args => exposedList y args
  | index target _ _ => exposed y target
  | inter parts => exposedList y parts
  | op _ args => exposedList y args
  | _ => []

def exposedList (y : Value) : List Descriptor → List Value
  | [] => []
  | d :: ds => exposed y d ++ exposedList y ds

def exposedFields (y : Value) : List (String × Descriptor) → List Value
  | [] => []
  | (_, d) :: rest => exposed y d ++ exposedFields y rest

end

/-- A name is free in what a scope binds one of the given names to. -/
def Brought (scope : Scope) (names : List Value) (y : Value) : Prop :=
  ∃ n ∈ names, ∃ e, scope.find? n = some e ∧ e.Free y

@[simp] lemma named_nil (y : Value) : ¬ Named [] y := by simp [Named]

@[simp] lemma named_append (xs ys : List Value) (y : Value) :
    Named (xs ++ ys) y ↔ Named xs y ∨ Named ys y := by
  simp only [Named, List.mem_append, or_and_right, exists_or]

@[simp] lemma brought_nil (scope : Scope) (y : Value) : ¬ Brought scope [] y := by simp [Brought]

@[simp] lemma brought_append (scope : Scope) (xs ys : List Value) (y : Value) :
    Brought scope (xs ++ ys) y ↔ Brought scope xs y ∨ Brought scope ys y := by
  simp only [Brought, List.mem_append, or_and_right, exists_or]

/-- Names that agree are the same text, or both are no texts. -/
lemma agrees_cases {n y : Value} (h : n.agrees y = true) :
    (∃ s m m', n = .str s m ∧ y = .str s m') ∨ (n.isStr = false ∧ y.isStr = false) := by
  cases n <;> cases y <;>
    simp_all [Value.agrees, Value.eqv, Value.sameUndefined, Value.isStr, Value.numbersEqv,
      Value.parts?,
      Value.real?]

lemma declares_of_not_isStr (fields : List (String × Descriptor)) {n : Value}
    (h : n.isStr = false) :
    declares fields n = false := by
  cases n <;> simp_all [declares, Value.isStr]

lemma find?_of_not_isStr (scope : Scope) {n : Value} (h : n.isStr = false) :
    scope.find? n = none := by
  cases n <;> simp_all [Scope.find?, Value.isStr]

lemma declares_congr (fields : List (String × Descriptor)) {n y : Value} (h : n.agrees y = true) :
    declares fields n = declares fields y := by
  rcases agrees_cases h with ⟨s, m, m', rfl, rfl⟩ | ⟨hn, hy⟩
  · rfl
  · rw [declares_of_not_isStr fields hn, declares_of_not_isStr fields hy]

lemma find?_congr (scope : Scope) {n y : Value} (h : n.agrees y = true) :
    scope.find? n = scope.find? y := by
  rcases agrees_cases h with ⟨s, m, m', rfl, rfl⟩ | ⟨hn, hy⟩
  · rfl
  · rw [find?_of_not_isStr scope hn, find?_of_not_isStr scope hy]

lemma named_filter (fields : List (String × Descriptor)) (names : List Value) (y : Value) :
    Named (names.filter fun n => !declares fields n) y ↔
      Named names y ∧ declares fields y = false := by
  constructor
  · rintro ⟨n, hn, hy⟩
    obtain ⟨hmem, hdecl⟩ := List.mem_filter.mp hn
    exact ⟨⟨n, hmem, hy⟩, by simpa [declares_congr fields hy] using hdecl⟩
  · rintro ⟨⟨n, hn, hy⟩, hdecl⟩
    exact ⟨n, List.mem_filter.mpr ⟨hn, by simpa [declares_congr fields hy] using hdecl⟩, hy⟩

lemma find?_without (scope : Scope) (fields : List (String × Descriptor)) (n : Value) :
    (scope.without fields).find? n = if declares fields n then none else scope.find? n := by
  cases n with
  | str s m =>
    by_cases hs : declares fields (.str s m) = true
    · rw [if_pos hs]
      simp only [Scope.find?, Scope.without, Table.get?, List.find?_filter, Option.map_eq_none_iff,
        List.find?_eq_none, decide_eq_true_eq, not_and]
      rintro entry - hentry rfl
      simp only [declares] at hs
      simp [hs] at hentry
    · rw [if_neg hs]
      simp only [Scope.find?, Scope.without, Table.get?, List.find?_filter]
      congr 2
      funext entry
      by_cases he : entry.1 = s
      · subst he
        simpa [declares] using hs
      · simp [he]
  | _ => simp [Scope.find?]

lemma find?_without_eq_none {scope : Scope} {fields : List (String × Descriptor)}
    (h : ∀ name ∈ (Descriptor.record fields).freeVars, scope.find? name = none) :
    ∀ name ∈ freeVarsFields fields, (scope.without fields).find? name = none := by
  intro name hname
  rw [find?_without]
  by_cases hdecl : declares fields name = true
  · rw [if_pos hdecl]
  · rw [if_neg hdecl]
    exact h name (List.mem_filter.mpr ⟨hname, by simpa using hdecl⟩)

lemma brought_without (scope : Scope) (fields : List (String × Descriptor)) (names : List Value)
    (y : Value) :
    Brought (scope.without fields) names y ↔
      Brought scope (names.filter fun n => !declares fields n) y := by
  simp only [Brought, find?_without, List.mem_filter, Bool.not_eq_true']
  refine exists_congr fun n => ?_
  by_cases h : declares fields n = true <;> simp [h]

@[simp] lemma has_substituteFields (scope : Scope) (fields : List (String × Descriptor))
    (name : String) :
    Table.has (substituteFields scope fields) name = Table.has fields name := by
  induction fields with
  | nil => rfl
  | cons entry rest ih =>
    obtain ⟨k, d⟩ := entry
    simp only [substituteFields, Table.has, List.any_cons]
    congr 1

lemma declares_substituteFields (scope : Scope) (fields : List (String × Descriptor)) (y : Value) :
    declares (substituteFields scope fields) y = declares fields y := by
  cases y <;> simp [declares]

mutual

/-- What is free after a substitution: the free names that the scope does not bind, and the free
names of what is put in where no record declares them. -/
theorem free_substitute (scope : Scope) (y : Value) : (d : Descriptor) →
    ((substitute scope d).Free y ↔ (d.Free y ∧ scope.find? y = none) ∨
      Brought scope (d.exposed y) y)
  | var name => by
      simp only [substitute, exposed]
      cases h : scope.find? name with
      | none =>
        have hvar : (var name).Free y → scope.find? y = none := by
          rintro ⟨n, hn, hy⟩
          rw [← find?_congr scope hy, List.mem_singleton.mp hn, h]
        simp only [Option.getD_none, Brought, List.mem_singleton, exists_eq_left, h]
        simpa using hvar
      | some e =>
        have hvar : (var name).Free y → scope.find? y ≠ none := by
          rintro ⟨n, hn, hy⟩
          rw [← find?_congr scope hy, List.mem_singleton.mp hn, h]
          simp
        simp only [Option.getD_some, Brought, List.mem_singleton, exists_eq_left, h,
          Option.some.injEq,
          exists_eq_left']
        tauto
  | tuple items => free_substituteList scope y items
  | effect _ args => free_substituteList scope y args
  | index target _ _ => free_substitute scope y target
  | inter parts => free_substituteList scope y parts
  | op _ args => free_substituteList scope y args
  | record fields => by
      have ih := free_substituteFields (scope.without fields) y fields
      simp only [substitute, Free, freeVars, exposed]
      simp only [declares_substituteFields, named_filter, ih, find?_without, brought_without]
      cases declares fields y <;> simp
  | literal _ | unknown | ref _ | result _ => by simp [substitute, Free, freeVars, exposed]

theorem free_substituteList (scope : Scope) (y : Value) : (ds : List Descriptor) →
    (Named (freeVarsList (substituteList scope ds)) y ↔
      (Named (freeVarsList ds) y ∧ scope.find? y = none) ∨ Brought scope (exposedList y ds) y)
  | [] => by simp [substituteList, freeVarsList, exposedList]
  | d :: ds => by
      have hd := free_substitute scope y d
      have hds := free_substituteList scope y ds
      simp only [Free] at hd
      simp only [substituteList, freeVarsList, exposedList, named_append, brought_append, hd, hds]
      tauto

theorem free_substituteFields (scope : Scope) (y : Value) : (fields : List (String × Descriptor)) →
    (Named (freeVarsFields (substituteFields scope fields)) y ↔
      (Named (freeVarsFields fields) y ∧ scope.find? y = none) ∨
        Brought scope (exposedFields y fields) y)
  | [] => by simp [substituteFields, freeVarsFields, exposedFields]
  | (_, d) :: rest => by
      have hd := free_substitute scope y d
      have hrest := free_substituteFields scope y rest
      simp only [Free] at hd
      simp only [substituteFields, freeVarsFields, exposedFields, named_append, brought_append,
        hd, hrest]
      tauto

end

mutual

theorem exposed_subset (y : Value) : (d : Descriptor) → d.exposed y ⊆ d.freeVars
  | var name => List.Subset.refl _
  | tuple items => exposedList_subset y items
  | effect _ args => exposedList_subset y args
  | index target _ _ => exposed_subset y target
  | inter parts => exposedList_subset y parts
  | op _ args => exposedList_subset y args
  | record fields => by
      simp only [exposed, freeVars]
      split
      · exact List.nil_subset _
      · intro n hn
        obtain ⟨hmem, hdecl⟩ := List.mem_filter.mp hn
        exact List.mem_filter.mpr ⟨exposedFields_subset y fields hmem, hdecl⟩
  | literal _ | unknown | ref _ | result _ => List.Subset.refl _

theorem exposedList_subset (y : Value) : (ds : List Descriptor) → exposedList y ds ⊆ freeVarsList ds
  | [] => List.Subset.refl _
  | d :: ds => List.append_subset.mpr
      ⟨List.subset_append_of_subset_left _ (exposed_subset y d),
        List.subset_append_of_subset_right _ (exposedList_subset y ds)⟩

theorem exposedFields_subset (y : Value) : (fields : List (String × Descriptor)) →
    exposedFields y fields ⊆ freeVarsFields fields
  | [] => List.Subset.refl _
  | (_, d) :: rest => List.append_subset.mpr
      ⟨List.subset_append_of_subset_left _ (exposed_subset y d),
        List.subset_append_of_subset_right _ (exposedFields_subset y rest)⟩

end

mutual

/-- A descriptor whose variables all have names that can be keys meets none that cannot. -/
theorem badLookup?_eq_none (scope : Scope) :
    (d : Descriptor) → d.badVar? = none → badLookup? scope d = none
  | var name, h => by
      rw [badLookup?]
      split
      · rfl
      · exact h
  | tuple items, h => badLookupList?_eq_none scope items h
  | effect _ args, h => badLookupList?_eq_none scope args h
  | index target _ _, h => badLookup?_eq_none scope target h
  | inter parts, h => badLookupList?_eq_none scope parts h
  | op _ args, h => badLookupList?_eq_none scope args h
  | record fields, h => badLookupFields?_eq_none (scope.without fields) fields h
  | literal _, _ | unknown, _ | ref _, _ | result _, _ => rfl

theorem badLookupList?_eq_none (scope : Scope) : (ds : List Descriptor) → badVarList? ds = none →
    badLookupList? scope ds = none
  | [], _ => rfl
  | d :: ds, h => by
      rw [badVarList?] at h
      split at h
      · exact absurd h (by simp)
      · rename_i hd
        rw [badLookupList?, badLookup?_eq_none scope d hd]
        exact badLookupList?_eq_none scope ds h

theorem badLookupFields?_eq_none (scope : Scope) : (fields : List (String × Descriptor)) →
    badVarFields? fields = none → badLookupFields? scope fields = none
  | [], _ => rfl
  | (_, d) :: rest, h => by
      rw [badVarFields?] at h
      split at h
      · exact absurd h (by simp)
      · rename_i hd
        rw [badLookupFields?, badLookup?_eq_none scope d hd]
        exact badLookupFields?_eq_none scope rest h

end

lemma unhashable?_of_declares {fields : List (String × Descriptor)} {name : Value}
    (h : declares fields name = true) : name.unhashable? = none := by
  cases name <;> first | rfl | simp [declares] at h

mutual

/-- All variables have names that can be keys just if the free ones do. -/
theorem badVar?_eq_none_iff :
    (d : Descriptor) → (d.badVar? = none ↔ ∀ name ∈ d.freeVars, name.unhashable? = none)
  | var name => by simp [badVar?, freeVars]
  | tuple items => badVarList?_eq_none_iff items
  | effect _ args => badVarList?_eq_none_iff args
  | index target _ _ => badVar?_eq_none_iff target
  | inter parts => badVarList?_eq_none_iff parts
  | op _ args => badVarList?_eq_none_iff args
  | record fields => by
      refine (badVarFields?_eq_none_iff fields).trans
        ⟨fun h name hname => h name (List.mem_of_mem_filter hname), ?_⟩
      intro h name hname
      by_cases hdecl : declares fields name = true
      · exact unhashable?_of_declares hdecl
      · exact h name (List.mem_filter.mpr ⟨hname, by simpa using hdecl⟩)
  | literal _ | unknown | ref _ | result _ => by simp [badVar?, freeVars]

theorem badVarList?_eq_none_iff : (ds : List Descriptor) →
    (badVarList? ds = none ↔ ∀ name ∈ freeVarsList ds, name.unhashable? = none)
  | [] => by simp [badVarList?, freeVarsList]
  | d :: ds => by
      rw [badVarList?, freeVarsList, List.forall_mem_append, ← badVar?_eq_none_iff d,
        ← badVarList?_eq_none_iff ds]
      cases d.badVar? <;> simp

theorem badVarFields?_eq_none_iff : (fields : List (String × Descriptor)) →
    (badVarFields? fields = none ↔ ∀ name ∈ freeVarsFields fields, name.unhashable? = none)
  | [] => by simp [badVarFields?, freeVarsFields]
  | (_, d) :: rest => by
      rw [badVarFields?, freeVarsFields, List.forall_mem_append, ← badVar?_eq_none_iff d,
        ← badVarFields?_eq_none_iff rest]
      cases d.badVar? <;> simp

end

/-- What would be free after a substitution that captures nothing: the free names that the scope
does not bind, and all free names of what is put in. -/
def FreeUncaptured (scope : Scope) (d : Descriptor) (y : Value) : Prop :=
  (d.Free y ∧ scope.find? y = none) ∨ Brought scope d.freeVars y

/-- Where names can be keys, substitution gives a descriptor whose free names are those that the
scope does not bind and those put in where no record declares them. These are the names that a
substitution without capture leaves free exactly if every name put in is free at one of its places
or anyway. -/
theorem replace_free_iff (scope : Scope) (d : Descriptor) (h : d.badVar? = none) :
    ∃ d', replace scope d = .ok d' ∧
      (∀ y, d'.Free y ↔ (d.Free y ∧ scope.find? y = none) ∨ Brought scope (d.exposed y) y) ∧
      ((∀ y, d'.Free y ↔ FreeUncaptured scope d y) ↔
        ∀ y, Brought scope d.freeVars y →
          Brought scope (d.exposed y) y ∨ (d.Free y ∧ scope.find? y = none)) := by
  refine ⟨substitute scope d, ?_, fun y => free_substitute scope y d, ?_⟩
  · rw [replace, badLookup?_eq_none scope d h]
  · refine forall_congr' fun y => ?_
    have hsub : Brought scope (d.exposed y) y → Brought scope d.freeVars y := by
      rintro ⟨n, hn, he⟩
      exact ⟨n, exposed_subset y d hn, he⟩
    rw [free_substitute, FreeUncaptured]
    tauto

/-- A continuation with an input of its own that refers to a sibling of the record around it. -/
def nestedUse : Descriptor :=
  .record [("input", .literal (.ofInt 100)), ("return", .var (.ofStr "doubled"))]

/-- The sibling doubles the input of the record around. -/
def doubledSibling : Scope :=
  [("doubled", .op (.ofStr "mul") [.var (.ofStr "input"), .literal (.ofInt 2)])]

lemma nestedUse_exposed : nestedUse.exposed (.ofStr "input") = [] := rfl

lemma nestedUse_brought : Brought doubledSibling nestedUse.freeVars (.ofStr "input") :=
  ⟨.ofStr "doubled", List.mem_singleton.mpr rfl, _, rfl, .ofStr "input", List.mem_singleton.mpr rfl,
    by simp [Value.agrees, Value.eqv, Value.ofStr]⟩

lemma nestedUse_not_free : ¬ nestedUse.Free (.ofStr "input") := by
  rintro ⟨n, hn, hagrees⟩
  rw [List.mem_singleton.mp hn] at hagrees
  simp [Value.agrees, Value.eqv, Value.ofStr, Value.sameUndefined] at hagrees

/-- The input of the continuation captures the variable of the sibling. -/
theorem nestedUse_captures :
    ¬ ∀ y, (substitute doubledSibling nestedUse).Free y ↔
      FreeUncaptured doubledSibling nestedUse y := by
  intro h
  obtain ⟨n, hn, -⟩ := (h (.ofStr "input")).mpr (.inr nestedUse_brought)
  exact absurd hn List.not_mem_nil

theorem nestedUse_replace_free :
    nestedUse.badVar? = none ∧ ∃ d', replace doubledSibling nestedUse = .ok d' ∧
      ¬ ∀ y, d'.Free y ↔ FreeUncaptured doubledSibling nestedUse y := by
  obtain ⟨d', hd', -, hiff⟩ := replace_free_iff doubledSibling nestedUse rfl
  refine ⟨rfl, d', hd', fun hfree => ?_⟩
  rcases hiff.mp hfree (.ofStr "input") nestedUse_brought with ⟨n, hn, -⟩ | ⟨hnested, -⟩
  · rw [nestedUse_exposed] at hn
    exact List.not_mem_nil hn
  · exact nestedUse_not_free hnested

end EffectTree.Descriptor
