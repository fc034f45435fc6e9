import EffectTree.Proofs.Mentions

/-!
# Closing fields over their siblings

A field is closed by putting all of its siblings in at once, again and again, until none of their
names is free. A name that is free after some rounds is the end of a chain of fields, each free in
the one before it and the first one free in the value. A chain with more fields than the record has
goes through one of them twice, so the rounds run out only where a cycle can be reached.
-/
namespace EffectTree.Resolution

open Descriptor Relation

section Chains

variable {α : Type} {R : α → α → Prop} {x : α} {chain : List α}

theorem reflTransGen_of_mem_chain (hchain : (x :: chain).IsChain R) {y : α} (hy : y ∈ x :: chain) :
    ReflTransGen R x y := by
  have hlinked : (x :: chain).Pairwise (TransGen R) :=
    (hchain.imp fun _ _ => TransGen.single).pairwise
  rcases List.mem_cons.mp hy with rfl | hy
  · exact .refl
  · exact ((List.pairwise_cons.mp hlinked).1 y hy).to_reflTransGen

theorem exists_cycle_of_not_nodup (hchain : (x :: chain).IsChain R)
    (htwice : ¬ (x :: chain).Nodup) :
    ∃ y, ReflTransGen R x y ∧ TransGen R y y := by
  by_contra hnone
  have hlinked : (x :: chain).Pairwise (TransGen R) :=
    (hchain.imp fun _ _ => TransGen.single).pairwise
  refine htwice (hlinked.imp_of_mem fun {a b} ha _ hab heq =>
    hnone ⟨a, reflTransGen_of_mem_chain hchain ha, ?_⟩)
  rw [← heq] at hab
  exact hab

end Chains

variable {fields : Table Descriptor} {value : Descriptor}

/-- The second field's name is free in the first field. -/
def Uses (fields : Table Descriptor) (x y : String) : Prop :=
  fields.has y = true ∧ ∃ d, fields.get? x = some d ∧ d.Free (.ofStr y)

/-- A cycle of fields that use one another can be reached from a field whose name is free in a
value. -/
def ReachesCycle (fields : Table Descriptor) (value : Descriptor) : Prop :=
  ∃ x y, (fields.has x = true ∧ value.Free (.ofStr x)) ∧ ReflTransGen (Uses fields) x y ∧
    TransGen (Uses fields) y y

theorem free_ofStr_iff {d : Descriptor} {name : String} :
    d.Free (.ofStr name) ↔ ∃ mark, Value.str name mark ∈ d.freeVars := by
  constructor
  · rintro ⟨n, hn, hagrees⟩
    rcases agrees_cases hagrees with ⟨s, m, m', rfl, heq⟩ | ⟨-, hstr⟩
    · cases heq
      exact ⟨m, hn⟩
    · cases hstr
  · rintro ⟨mark, hmem⟩
    exact ⟨_, hmem, by simp [Value.agrees, Value.eqv, Value.ofStr]⟩

theorem mem_pendingNames {d : Descriptor} {name : String} :
    name ∈ pendingNames fields d ↔ fields.has name = true ∧ d.Free (.ofStr name) := by
  rw [free_ofStr_iff, pendingNames, List.mem_filterMap]
  constructor
  · rintro ⟨n, hn, hname⟩
    cases n with
    | str s mark =>
      simp only at hname
      split at hname
      · rename_i hs
        cases hname
        exact ⟨hs, mark, hn⟩
      · cases hname
    | _ => cases hname
  · rintro ⟨hname, mark, hn⟩
    exact ⟨_, hn, by simp [hname]⟩

/-- A sibling that is free after one more round is used by one that was free before. -/
theorem exists_uses_of_pending {x : String}
    (hx : x ∈ pendingNames fields (substitute fields value)) :
    ∃ w ∈ pendingNames fields value, Uses fields w x := by
  obtain ⟨hhas, hfree⟩ := mem_pendingNames.mp hx
  rcases (free_substitute fields (.ofStr x) value).mp
    hfree with ⟨-, hunbound⟩ | ⟨n, hn, d, hd, hdfree⟩
  · exact absurd (Table.has_iff_mem_keys.mp hhas) (Table.get?_eq_none_iff.mp hunbound)
  · cases n with
    | str w mark =>
      have hw : Table.get? fields w = some d := hd
      have hwhas : fields.has w = true :=
        Table.has_iff_mem_keys.mpr (List.mem_map_of_mem (Table.mem_of_get? hw))
      exact ⟨w, mem_pendingNames.mpr ⟨hwhas, free_ofStr_iff.mpr ⟨mark, exposed_subset _ value hn⟩⟩,
        hhas, d, hw, hdfree⟩
    | _ => cases hd

/-- Siblings that are free after some rounds end chains that have as many links. -/
theorem exists_chain_of_pending {i : Nat}
    (h : pendingNames fields ((substitute fields)^[i] value) ≠ []) :
    ∃ x chain, x ∈ pendingNames fields value ∧ (x :: chain).IsChain (Uses fields) ∧
      chain.length = i := by
  induction i generalizing value with
  | zero =>
    obtain ⟨x, hx⟩ := List.exists_mem_of_ne_nil _ h
    exact ⟨x, [], hx, .singleton x, rfl⟩
  | succ i ih =>
    rw [Function.iterate_succ_apply] at h
    obtain ⟨x, chain, hx, hchain, hlength⟩ := ih h
    obtain ⟨w, hw, huses⟩ := exists_uses_of_pending hx
    exact ⟨w, x :: chain, hw, hchain.cons_cons huses, by rw [List.length_cons, hlength]⟩

/-- If siblings are free after as many rounds as there are fields, a cycle can be reached. -/
theorem reachesCycle_of_pending
    (h : pendingNames fields ((substitute fields)^[fields.length] value) ≠ []) :
    ReachesCycle fields value := by
  obtain ⟨x, chain, hx, hchain, hlength⟩ := exists_chain_of_pending h
  have hfields : x :: chain ⊆ fields.keys := by
    intro y hy
    rw [← Table.has_iff_mem_keys]
    rcases ReflTransGen.cases_tail (reflTransGen_of_mem_chain hchain hy) with rfl | ⟨_, -, huses⟩
    · exact (mem_pendingNames.mp hx).1
    · exact huses.1
  have htwice : ¬ (x :: chain).Nodup := by
    intro hnodup
    have hle := hnodup.length_le_of_subset hfields
    rw [List.length_cons, hlength, Table.keys, List.length_map] at hle
    omega
  obtain ⟨y, hreach, hcycle⟩ := exists_cycle_of_not_nodup hchain htwice
  exact ⟨x, y, mem_pendingNames.mp hx, hreach, hcycle⟩

theorem badVar?_of_mem_fields {entry : String × Descriptor} (h : badVarFields? fields = none)
    (hentry : entry ∈ fields) : entry.2.badVar? = none := by
  rw [badVar?_eq_none_iff]
  rw [badVarFields?_eq_none_iff] at h
  intro name hname
  have hmention : Mention.free name ∈ mentionsFields fields :=
    mem_mentionsFields.mpr ⟨entry, hentry, (mem_freeVars_iff name entry.2).mp hname⟩
  exact h name ((mem_freeVarsFields_iff name fields).mpr hmention)

/-- Closing ends at the first round that finds no sibling free, or runs out of rounds with siblings
free in each. -/
theorem closeRounds_cases (hfields : badVarFields? fields = none) (hvalue : value.badVar? = none)
    (rounds : Nat) (pending : List String) :
    (∃ part, closeRounds fields rounds pending value = .ok part ∧ pendingNames fields part = []) ∨
      (∃ names, closeRounds fields rounds pending value = .error (.cyclicFields names)) ∧
        ∀ i < rounds, pendingNames fields ((substitute fields)^[i] value) ≠ [] := by
  -- On the rounds left, for every value: each round leaves the value its siblings were put into.
  induction rounds generalizing pending value with
  | zero => exact .inr ⟨⟨_, rfl⟩, fun i hi => absurd hi (Nat.not_lt_zero i)⟩
  | succ rounds ih =>
    simp only [closeRounds, hvalue]
    by_cases hdone : pendingNames fields value = []
    · rw [hdone]
      exact .inl ⟨value, rfl, hdone⟩
    · rw [if_neg (by simpa using hdone)]
      have hnext : (substitute fields value).badVar? = none :=
        badVar?_substitute (fun _ => badVar?_of_mem_fields hfields) hvalue
      refine (ih hnext (pendingNames fields value)).imp_right ?_
      rintro ⟨herror, hpending⟩
      refine ⟨herror, fun i hi => ?_⟩
      cases i with
      | zero => exact hdone
      | succ i =>
        rw [Function.iterate_succ_apply]
        exact hpending i (Nat.lt_of_succ_lt_succ hi)

/-- Where names can be keys, projecting a field that no cycle of fields can be reached from
succeeds; what is projected has no name of a field free; and projecting fails only for a cycle that
can be reached, and by naming one. -/
theorem project_field_closes (hnames : badVarFields? fields = none) {name : String}
    (hvalue : Table.get? fields name = some value) (mark : Mark) :
    (¬ ReachesCycle fields value →
      ∃ part, project (.record fields) (.str name mark) = .ok (some part)) ∧
      (∀ part?, project (.record fields) (.str name mark) = .ok part? →
        ∃ part, part? = some part ∧ ∀ y, fields.has y = true → ¬ part.Free (.ofStr y)) ∧
      ∀ e, project (.record fields) (.str name mark) = .error e →
        (∃ names, e = .cyclicFields names) ∧ ReachesCycle fields value := by
  have hproject : project (.record fields) (.str name mark) =
      (closeOver value fields).map some := by
    simp only [project, hvalue]
  have hvalueNames : value.badVar? = none := badVar?_of_mem_fields hnames (Table.mem_of_get? hvalue)
  rw [hproject]
  rcases closeRounds_cases hnames hvalueNames (fields.length + 1) [] with
    ⟨part, hpart, hdone⟩ | ⟨⟨names, herror⟩, hpending⟩
  · rw [closeOver, hpart]
    refine ⟨fun _ => ⟨part, rfl⟩, ?_, ?_⟩
    · intro part? heq
      cases heq
      refine ⟨part, rfl, fun y hy hfree => ?_⟩
      have hmem : y ∈ pendingNames fields part := mem_pendingNames.mpr ⟨hy, hfree⟩
      rw [hdone] at hmem
      cases hmem
    · intro e he
      cases he
  · have hcycle : ReachesCycle fields value :=
      reachesCycle_of_pending (hpending fields.length (Nat.lt_succ_self _))
    rw [closeOver, herror]
    refine ⟨fun hnone => absurd hcycle hnone, ?_, ?_⟩
    · intro part? heq
      cases heq
    · intro e he
      cases he
      exact ⟨⟨names, rfl⟩, hcycle⟩

/-- A field that uses two others, one of which uses the other, beside a field that uses itself. -/
def layered : Table Descriptor :=
  [("total", .tuple [.var (.ofStr "doubled"), .var (.ofStr "input")]),
    ("doubled", .op (.ofStr "mul") [.var (.ofStr "input"), .literal (.ofInt 2)]),
      ("input", .literal (.ofInt 3)),
    ("loop", .var (.ofStr "loop"))]

theorem uses_layered {x y : String} (h : Uses layered x y) (hx : x = "doubled" ∨ x = "input") :
    x = "doubled" ∧ y = "input" := by
  obtain ⟨-, d, hd, hfree⟩ := h
  obtain ⟨mark, hmem⟩ := free_ofStr_iff.mp hfree
  rcases hx with rfl | rfl
  · cases hd
    cases List.mem_singleton.mp hmem
    exact ⟨rfl, rfl⟩
  · cases hd
    cases hmem

/-- The field that uses itself is not reached. -/
theorem layered_not_reachesCycle {value : Descriptor}
    (hvalue : Table.get? layered "total" = some value) :
    ¬ ReachesCycle layered value := by
  rintro ⟨x, y, ⟨-, hfree⟩, hreach, hcycle⟩
  have hx : x = "doubled" ∨ x = "input" := by
    cases hvalue
    obtain ⟨mark, hmem⟩ := free_ofStr_iff.mp hfree
    exact (List.mem_pair.mp hmem).imp (fun h => (Value.str.inj h).1) fun h => (Value.str.inj h).1
  have hy : y = "doubled" ∨ y = "input" := by
    clear hcycle
    induction hreach with
    | refl => exact hx
    | tail _ huses ih => exact .inr (uses_layered huses ih).2
  obtain ⟨z, huses, hrest⟩ := TransGen.head'_iff.mp hcycle
  obtain ⟨rfl, rfl⟩ := uses_layered huses hy
  rcases hrest.cases_head with heq | ⟨_, huses', -⟩
  · exact absurd heq (by decide)
  · exact absurd (uses_layered huses' (.inr rfl)).1 (by decide)

theorem layered_total_closes :
    badVarFields? layered = none ∧ ∃ part, project (.record layered) (.ofStr "total") =
      .ok (some part) ∧
      ∀ y, layered.has y = true → ¬ part.Free (.ofStr y) := by
  have hnames : badVarFields? layered = none := rfl
  have htotal : Table.get? layered "total" =
    some (.tuple [.var (.ofStr "doubled"), .var (.ofStr "input")]) := rfl
  obtain ⟨hsucceeds, hclosed, -⟩ :=
    project_field_closes hnames htotal (.soleIf (Value.isShort "total"))
  obtain ⟨part, hpart⟩ := hsucceeds (layered_not_reachesCycle rfl)
  obtain ⟨part', heq, hnone⟩ := hclosed _ hpart
  cases heq
  exact ⟨hnames, part, hpart, hnone⟩

end EffectTree.Resolution
