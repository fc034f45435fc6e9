import EffectTree.Proofs.GrowingResolution
import EffectTree.Proofs.LazyValues
import EffectTree.Proofs.Mentions
import EffectTree.Proofs.RoundTrip

/-!
# Decoding what values are coerced to

The descriptor of a value decodes to the value again if the value nests no deeper than decoding
goes; otherwise it counts as not literal. Lists and dictionaries are made anew, so values are
compared without the marks that tell which things they are.
-/
namespace EffectTree

namespace Value

mutual

/-- The value whichever things it and its parts are. -/
def unmarked : Value → Value
  | int i _ => int i .fresh
  | float x _ => float x .fresh
  | complex re im _ => complex re im .fresh
  | str s _ => str s .fresh
  | bytes octets _ => bytes octets .fresh
  | list items _ => list (unmarkedItems items) .fresh
  | tuple items _ => tuple (unmarkedItems items) .fresh
  | set items seating _ => set (unmarkedItems items) seating .fresh
  | dict entries _ => dict (unmarkedEntries entries) .fresh
  | generic origin args isSpread _ => generic origin (unmarkedItems args) isSpread .fresh
  | union members _ => union (unmarkedItems members) .fresh
  | v => v

def unmarkedItems : List Value → List Value
  | [] => []
  | v :: vs => unmarked v :: unmarkedItems vs

def unmarkedEntries : List (Value × Value) → List (Value × Value)
  | [] => []
  | (k, v) :: rest => (unmarked k, unmarked v) :: unmarkedEntries rest

end

mutual

/-- The same data in new lists and in new dictionaries with new keys. -/
def renewed : Value → Value
  | list items _ => ofList (renewedItems items)
  | dict entries _ => ofDict (renewedEntries entries)
  | v => v

def renewedItems : List Value → List Value
  | [] => []
  | v :: vs => renewed v :: renewedItems vs

def renewedEntries : List (Value × Value) → List (Value × Value)
  | [] => []
  | (k, v) :: rest => (ofStr k.display, renewed v) :: renewedEntries rest

end

mutual

/-- How many lists and dictionaries are around the innermost part of a value. The part itself does
not count, so scalars and empty containers have depth zero. -/
def depth : Value → Nat
  | list items _ => depthOfItems items
  | dict entries _ => depthOfEntries entries
  | _ => 0

def depthOfItems : List Value → Nat
  | [] => 0
  | v :: vs => max (depth v + 1) (depthOfItems vs)

def depthOfEntries : List (Value × Value) → Nat
  | [] => 0
  | (_, v) :: rest => max (depth v + 1) (depthOfEntries rest)

end

theorem unmarkedItems_eq (vs : List Value) : unmarkedItems vs = vs.map unmarked := by
  induction vs with
  | nil => rfl
  | cons v vs ih => rw [unmarkedItems, ih, List.map_cons]

theorem unmarkedEntries_eq (es : List (Value × Value)) :
    unmarkedEntries es = es.map fun entry => (entry.1.unmarked, entry.2.unmarked) := by
  induction es with
  | nil => rfl
  | cons entry es ih => rw [unmarkedEntries, ih, List.map_cons]

theorem renewedItems_eq (vs : List Value) : renewedItems vs = vs.map renewed := by
  induction vs with
  | nil => rfl
  | cons v vs ih => rw [renewedItems, ih, List.map_cons]

theorem renewedEntries_eq (es : List (Value × Value)) :
    renewedEntries es = es.map fun entry => (ofStr entry.1.display, entry.2.renewed) := by
  induction es with
  | nil => rfl
  | cons entry es ih => rw [renewedEntries, ih, List.map_cons]

theorem depthOfItems_le {vs : List Value} {n : Nat} :
    depthOfItems vs ≤ n ↔ ∀ v ∈ vs, v.depth < n := by
  induction vs with
  | nil => simp [depthOfItems]
  | cons v vs ih => rw [depthOfItems, max_le_iff, ih, List.forall_mem_cons, Nat.succ_le_iff]

theorem depthOfEntries_le {es : List (Value × Value)} {n : Nat} :
    depthOfEntries es ≤ n ↔ ∀ entry ∈ es, entry.2.depth < n := by
  induction es with
  | nil => simp [depthOfEntries]
  | cons entry es ih => rw [depthOfEntries, max_le_iff, ih, List.forall_mem_cons, Nat.succ_le_iff]

theorem unmarked_renewed {v : Value} (h : v.IsJson) : v.renewed.unmarked = v.unmarked := by
  induction h with
  | list _ ih =>
    rw [renewed, ofList, unmarked, unmarked, renewedItems_eq, unmarkedItems_eq, unmarkedItems_eq,
      List.map_map]
    exact congrArg (list · .fresh) (List.map_congr_left ih)
  | dict hkeys _ _ ih =>
    rw [renewed, ofDict, unmarked, unmarked, renewedEntries_eq, unmarkedEntries_eq,
      unmarkedEntries_eq, List.map_map]
    refine congrArg (dict · .fresh) (List.map_congr_left fun entry hentry => ?_)
    obtain ⟨name, mark, hname, -⟩ := hkeys entry hentry
    rw [Function.comp_apply, ih entry hentry, hname]
    rfl
  | _ => rfl

end Value

namespace Resolution

open Descriptor

/-- A traversal that succeeds on the items for some values and gives the same error for all
others. -/
theorem mapM_of_forall₂ {ε α β γ : Type} {f : α → Except ε γ} {xs : List α} {ys : List β}
    {p : β → Prop} [DecidablePred p] {g : β → γ} {e : ε}
    (h : List.Forall₂ (fun x y => f x = if p y then .ok (g y) else .error e) xs ys) :
    xs.mapM f = if ∀ y ∈ ys, p y then .ok (ys.map g) else .error e := by
  induction h with
  | nil => rfl
  | @cons x y xs ys hxy _ ih =>
    rw [List.mapM_cons, hxy, ih]
    by_cases hy : p y
    · by_cases hys : ∀ z ∈ ys, p z
      · rw [if_pos hy, if_pos hys, if_pos (List.forall_mem_cons.mpr ⟨hy, hys⟩)]
        rfl
      · rw [if_pos hy, if_neg hys, if_neg fun hall => hys (List.forall_mem_cons.mp hall).2]
        rfl
    · rw [if_neg hy, if_neg fun hall => hy (List.forall_mem_cons.mp hall).1]
      rfl

/-- Decoding looks at a descriptor through its head only. -/
theorem decodeWith_eq_of_head {head : Descriptor → Except Fault Descriptor} {d d' : Descriptor}
    (h : head d = head d') (levels : Nat) :
    decodeWith head levels d = decodeWith head levels d' := by
  cases levels with
  | zero => rfl
  | succ levels => rw [decodeWith, decodeWith, h]

theorem closeOver_of_closed {d : Descriptor} (h : d.freeVars = []) (fields : Table Descriptor) :
    closeOver d fields = .ok d := by
  have hfree : ∀ name ∈ d.freeVars, False := fun name hname => List.not_mem_nil (h ▸ hname)
  exact closeOver_of_not_declares
    ((badVar?_eq_none_iff d).mpr fun name hname => (hfree name hname).elim)
    fun name hname => (hfree name hname).elim

theorem freeVars_eq_nil {d : Descriptor} (h : d.mentions = []) : d.freeVars = [] :=
  List.eq_nil_iff_forall_not_mem.mpr fun name hname =>
    by simpa [h] using (mem_freeVars_iff name d).mp hname

theorem step_index_record {r : Resolver} {head : Descriptor → Except Fault Descriptor}
    {fields : Table Descriptor} {name : String} {d : Descriptor}
    (hrecord : head (.record fields) = .ok (.record fields)) (hfind : fields.get? name = some d)
    (hclosed : d.freeVars = []) :
    step r head (.index (.record fields) (.ofStr name) .fresh) = .ok (.next d) := by
  have hproject : project (.record fields) (.ofStr name) = .ok (some d) := by
    simp only [project, Value.ofStr, hfind, closeOver_of_closed hclosed, Except.map]
  have hfound : (head (.record fields) >>= (project · (.ofStr name))) = .ok (some d) := by
    rw [hrecord]
    exact hproject
  rw [step, hfound]
  rfl

/-- What holds of the descriptor that a value is coerced to: it is its own head, it mentions
nothing, and it gives the value back if there are more levels than the value is deep. -/
structure GivesBack (r : Resolver) (d : Descriptor) (v : Value) : Prop where
  stable : ∀ head, step r head d = .ok .stable
  closed : d.mentions = []
  decodes : ∀ levels, decodeWith r.head levels d = if v.depth < levels then .ok v.renewed
    else .error .notLiteral

/-- The record of a dictionary has a field for each entry, which gives the value in the entry
back. -/
theorem givesBack_named {r : Resolver} {ds : List Descriptor} {es : List (Value × Value)}
    (h : List.Forall₂ (GivesBack r) ds (es.map (·.2))) :
    List.Forall₂ (fun field entry => field.1 = entry.1.display ∧ GivesBack r field.2 entry.2)
      (Artifact.named es ds) es := by
  induction es generalizing ds with
  | nil => exact .nil
  | cons entry es ih =>
    obtain ⟨d, ds', hd, hds, rfl⟩ := List.forall₂_cons_right_iff.mp h
    exact .cons ⟨rfl, hd⟩ (ih hds)

theorem exists_givesBack_items {r : Resolver} {vs : List Value}
    (h : ∀ v ∈ vs, ∃ d, ofValue v = .ok d ∧ GivesBack r d v) :
    ∃ ds, vs.mapM ofValue = .ok ds ∧ List.Forall₂ (GivesBack r) ds vs := by
  obtain ⟨ds, hds, hback⟩ := Except.exists_mapM_forall₂ (List.forall₂_same.mpr h)
  exact ⟨ds, hds, hback.flip⟩

theorem head_of_stable {r : Resolver} (hsteps : 0 < r.maxSteps) (hnesting : 0 < r.nesting)
    {d : Descriptor} (h : ∀ head, step r head d = .ok .stable) : r.head d = .ok d := by
  obtain ⟨n, hn⟩ := Nat.exists_eq_succ_of_ne_zero hnesting.ne'
  rw [Resolver.head, hn]
  exact headAt_of_stable hsteps (h _)

variable {r : Resolver} (hsteps : 2 ≤ r.maxSteps) (hnesting : 2 ≤ r.nesting)
include hsteps hnesting

theorem head_index_record {fields : Table Descriptor} {name : String} {d : Descriptor}
    (hfind : fields.get? name = some d) (hclosed : d.freeVars = [])
    (hstable : ∀ head, step r head d = .ok .stable) :
    r.head (.index (.record fields) (.ofStr name) .fresh) = .ok d := by
  obtain ⟨n, hn⟩ : ∃ n, r.nesting = n + 1 + 1 := ⟨r.nesting - 2, by omega⟩
  have hrecord : headAt r (n + 1) (.record fields) = .ok (.record fields) :=
    headAt_of_stable (by omega) rfl
  rw [Resolver.head, hn]
  exact headAt_of_next (by omega) (step_index_record hrecord hfind hclosed) (hstable _)

theorem decode_index_record {fields : Table Descriptor} {name : String} {d : Descriptor} {v : Value}
    (hfind : fields.get? name = some d) (h : GivesBack r d v) (levels : Nat) :
    decodeWith r.head levels (.index (.record fields) (.ofStr name) .fresh) =
      if v.depth < levels then .ok v.renewed else .error .notLiteral := by
  have hindex := head_index_record hsteps hnesting hfind (freeVars_eq_nil h.closed) h.stable
  have hhead := head_of_stable (r := r) (by omega) (by omega) h.stable
  rw [decodeWith_eq_of_head (hindex.trans hhead.symm), h.decodes]

theorem givesBack_literal {v : Value} (hdepth : v.depth = 0) (hrenewed : v.renewed = v) :
    GivesBack r (.literal v) v where
  stable _ := rfl
  closed := rfl
  decodes levels := by
    have hhead := head_of_stable (r := r) (by omega) (by omega) (d := .literal v) fun _ => rfl
    cases levels with
    | zero => rfl
    | succ levels => rw [decodeWith, hhead, hdepth, hrenewed, if_pos levels.succ_pos]

theorem givesBack_tuple {ds : List Descriptor} {vs : List Value} {mark : Mark}
    (h : List.Forall₂ (GivesBack r) ds vs) :
    GivesBack r (.tuple ds) (.list vs mark) where
  stable _ := rfl
  closed := by
    have hds : ∀ d ∈ ds, d.mentions = [] :=
      ((List.forall₂_and_left ..).mp (h.imp fun _ _ h => ⟨h.closed, h⟩)).1
    rw [List.eq_nil_iff_forall_not_mem]
    intro m hm
    obtain ⟨d, hd, hmd⟩ := mem_mentions_tuple.mp hm
    exact List.not_mem_nil (hds d hd ▸ hmd)
  decodes levels := by
    have hhead := head_of_stable (r := r) (by omega) (by omega) (d := .tuple ds) fun _ => rfl
    cases levels with
    | zero => rfl
    | succ levels =>
      have hdepth : (Value.list vs mark).depth < levels + 1 ↔ ∀ v ∈ vs, v.depth < levels := by
        rw [Value.depth, Nat.lt_succ_iff, Value.depthOfItems_le]
      have hitems := mapM_of_forall₂ (h.imp fun _ _ h => h.decodes levels)
      rw [decodeWith, hhead]
      simp only [hitems, hdepth, Value.renewed, Value.renewedItems_eq]
      split <;> rfl

theorem givesBack_record {fields : Table Descriptor} {es : List (Value × Value)} {mark : Mark}
    (hdistinct : (es.map fun entry => entry.1.display).Nodup)
    (h : List.Forall₂ (fun field entry => field.1 = entry.1.display ∧ GivesBack r field.2 entry.2)
      fields es) :
    GivesBack r (.record fields) (.dict es mark) where
  stable _ := rfl
  closed := by
    have hfields : ∀ field ∈ fields, field.2.mentions = [] :=
      ((List.forall₂_and_left ..).mp (h.imp fun _ _ h => ⟨h.2.closed, h⟩)).1
    rw [List.eq_nil_iff_forall_not_mem]
    intro m hm
    obtain ⟨⟨field, hfield, hmf⟩, -⟩ := mem_mentions_record.mp hm
    exact List.not_mem_nil (hfields field hfield ▸ hmf)
  decodes levels := by
    have hhead := head_of_stable (r := r) (by omega) (by omega) (d := .record fields) fun _ => rfl
    have hkeys : fields.keys = es.map fun entry => entry.1.display := by
      rw [Table.keys, ← List.forall₂_eq_eq_eq, List.forall₂_map_left_iff,
        List.forall₂_map_right_iff]
      exact h.imp fun _ _ h => h.1
    have hfind : ∀ field ∈ fields, fields.get? field.1 = some field.2 :=
      fun _ => Table.get?_of_mem (hkeys ▸ hdistinct)
    cases levels with
    | zero => rfl
    | succ levels =>
      have hdepth : (Value.dict es mark).depth < levels + 1 ↔
          ∀ entry ∈ es, entry.2.depth < levels := by
        rw [Value.depth, Nat.lt_succ_iff, Value.depthOfEntries_le]
      have hentry (field : String × Descriptor) (entry : Value × Value)
          (h : fields.get? field.1 = some field.2 ∧ field.1 = entry.1.display ∧
            GivesBack r field.2 entry.2) :
          ((decodeWith r.head levels (.index (.record fields) (.ofStr field.1) .fresh)).map fun v =>
              (Value.ofStr field.1, v)) =
            if entry.2.depth < levels then .ok (Value.ofStr entry.1.display, entry.2.renewed)
            else .error .notLiteral := by
        obtain ⟨hfield, hname, hback⟩ := h
        rw [decode_index_record hsteps hnesting hfield hback, hname]
        split <;> rfl
      have hentries := mapM_of_forall₂ (((List.forall₂_and_left ..).mpr ⟨hfind, h⟩).imp hentry)
      rw [decodeWith, hhead]
      simp only [hentries, hdepth, Value.renewed, Value.renewedEntries_eq]
      split <;> rfl

/-- JSON values are coerced to descriptors that give them back. -/
theorem exists_givesBack {v : Value} (h : v.IsJson) : ∃ d, ofValue v = .ok d ∧ GivesBack r d v := by
  induction h with
  | @list items mark _ ih =>
    obtain ⟨ds, hds, hback⟩ := exists_givesBack_items ih
    refine ⟨.tuple ds, ?_, givesBack_tuple hsteps hnesting hback⟩
    rw [ofValue, Artifact.ofItems_eq, hds]
    rfl
  | @dict es mark hkeys hdistinct _ ih =>
    obtain ⟨ds, hds, hback⟩ := exists_givesBack_items (List.forall_mem_map.mpr ih)
    refine ⟨.record (Artifact.named es ds), ?_,
      givesBack_record hsteps hnesting hdistinct (givesBack_named hback)⟩
    rw [ofValue, Artifact.ofEntries_eq (fun _ _ => List.not_mem_nil) hdistinct, hds]
    rfl
  | _ => exact ⟨_, rfl, givesBack_literal hsteps hnesting rfl rfl⟩

end Resolution

open Resolution

/-- Decoding what a JSON value is coerced to gives the same data, in the same order, if the value is
at most 256 deep; deeper values are not literal. -/
theorem Resolver.decode_coerced {r : Resolver} (hsteps : 2 ≤ r.maxSteps) (hnesting : 2 ≤ r.nesting)
    {v : Value} (hv : v.IsJson) :
    ∃ d, Descriptor.ofValue v = .ok d ∧
      (v.depth ≤ 256 → ∃ v', r.decode d = .ok v' ∧ v'.unmarked = v.unmarked) ∧
      (256 < v.depth → r.decode d = .error .notLiteral) := by
  obtain ⟨d, hd, hback⟩ := exists_givesBack hsteps hnesting hv
  have hdecode : r.decode d = if v.depth < 257 then .ok v.renewed else .error .notLiteral :=
    hback.decodes decodeLevels
  refine ⟨d, hd, fun hle => ⟨v.renewed, ?_, Value.unmarked_renewed hv⟩, fun hlt => ?_⟩
  · rw [hdecode, if_pos (Nat.lt_succ_of_le hle)]
  · rw [hdecode, if_neg (Nat.not_lt.mpr hlt)]

/-- Dictionaries inside each other, each with a list of a number and the next dictionary. -/
def Value.chained : Nat → Value
  | 0 => ofDict []
  | n + 1 => ofDict [(ofStr "at", ofFloat 0.5), (ofStr "next", ofList [ofInt n, chained n])]

theorem Value.chained_isJson (n : Nat) : (chained n).IsJson := by
  induction n with
  | zero =>
    exact .dict (fun _ h => absurd h List.not_mem_nil) List.nodup_nil fun _ h =>
      absurd h List.not_mem_nil
  | succ n ih =>
    have hnext : (ofList [ofInt n, chained n]).IsJson :=
      .list (List.forall_mem_cons.mpr ⟨.int _ _, List.forall_mem_singleton.mpr ih⟩)
    have hdistinct : ["at", "next"].Nodup := by decide
    refine .dict ?_ hdistinct (List.forall_mem_cons.mpr
      ⟨.float _ _, List.forall_mem_singleton.mpr hnext⟩)
    exact List.forall_mem_cons.mpr
      ⟨⟨"at", _, rfl, trivial⟩, List.forall_mem_singleton.mpr ⟨"next", _, rfl, trivial⟩⟩

theorem Value.depth_chained (n : Nat) : (chained n).depth = 2 * n := by
  induction n with
  | zero => rfl
  | succ n ih =>
    simp only [chained, ofDict, ofList, ofFloat, ofInt, depth, depthOfEntries, depthOfItems, ih]
    omega

/-- Two steps and two searches inside each other are enough to decode 128 dictionaries and lists
inside each other; in one more list they are too deep. -/
theorem Resolver.decode_chained :
    let r : Resolver := { maxSteps := 2, nesting := 2 }
    (∃ d, Descriptor.ofValue (.chained 128) = .ok d ∧
      ∃ v, r.decode d = .ok v ∧ v.unmarked = (Value.chained 128).unmarked) ∧
    ∃ d, Descriptor.ofValue (.ofList [.chained 128]) = .ok d ∧ r.decode d = .error .notLiteral := by
  intro r
  have hjson := Value.chained_isJson 128
  have hdepth : (Value.chained 128).depth = 256 := Value.depth_chained 128
  obtain ⟨d, hd, hback, -⟩ := Resolver.decode_coerced (r := r) (by decide) (by decide) hjson
  obtain ⟨d', hd', -, hdeep⟩ := Resolver.decode_coerced (r := r) (by decide) (by decide)
    (v := .ofList [.chained 128]) (.list (List.forall_mem_singleton.mpr hjson))
  refine ⟨⟨d, hd, hback hdepth.le⟩, d', hd', hdeep ?_⟩
  rw [Value.ofList, Value.depth, Value.depthOfItems, hdepth]
  decide

end EffectTree
