import EffectTree.Proofs.AtomicEffects

/-!
# Describing values

Scalars have descriptors of their own, and so have sequences and dictionaries if all their items and
values have. Any other value is described by its text, but for sets: the descriptor of a set is that
of the list of its members, and nothing stands in for a member that has none. So sets are the only
values that may not be described, and a custom effect with any other outcome than null has exactly
one new result unless the outcome is such a set.
-/
namespace EffectTree

namespace Value

/-- Values that have descriptors of their own. -/
inductive Describable : Value → Prop
  | null : Describable .null
  | bool (b : Bool) : Describable (.bool b)
  | int (i : Int) (m : Mark) : Describable (.int i m)
  | float (x : Float) (m : Mark) : Describable (.float x m)
  | str (s : String) (m : Mark) : Describable (.str s m)
  | list {xs : List Value} {m : Mark} : (∀ x ∈ xs, x.Describable) → Describable (.list xs m)
  | tuple {xs : List Value} {m : Mark} : (∀ x ∈ xs, x.Describable) → Describable (.tuple xs m)
  | dict {es : List (Value × Value)} {m : Mark} : (∀ e ∈ es, e.2.Describable) →
      Describable (.dict es m)

mutual

/-- The first part of a value that has no descriptor, among the items of sequences and the values of
dictionaries in their order. -/
def stray? : Value → Option Value
  | .null | .bool _ | .int .. | .float .. | .str .. => none
  | .list xs _ => strayItem? xs
  | .tuple xs _ => strayItem? xs
  | .dict es _ => strayField? es
  | v => some v

def strayItem? : List Value → Option Value
  | [] => none
  | x :: xs => (stray? x).or (strayItem? xs)

def strayField? : List (Value × Value) → Option Value
  | [] => none
  | (_, v) :: rest => (stray? v).or (strayField? rest)

end

theorem strayItem?_eq_none_iff {xs : List Value} :
    strayItem? xs = none ↔ ∀ x ∈ xs, x.stray? = none := by
  induction xs with
  | nil => simp [strayItem?]
  | cons x xs ih => rw [strayItem?, Option.or_eq_none_iff, ih, List.forall_mem_cons]

theorem strayField?_eq_none_iff {es : List (Value × Value)} :
    strayField? es = none ↔ ∀ e ∈ es, e.2.stray? = none := by
  induction es with
  | nil => simp [strayField?]
  | cons e es ih => rw [strayField?, Option.or_eq_none_iff, ih, List.forall_mem_cons]

theorem Describable.stray? {v : Value} (h : v.Describable) : v.stray? = none := by
  induction h with
  | null | bool | int | float | str => rfl
  | list _ ih | tuple _ ih => exact strayItem?_eq_none_iff.mpr ih
  | dict _ ih => exact strayField?_eq_none_iff.mpr ih

mutual

theorem describable_of_stray? : {v : Value} → v.stray? = none → v.Describable
  | .null, _ => .null
  | .bool b, _ => .bool b
  | .int i m, _ => .int i m
  | .float x m, _ => .float x m
  | .str s m, _ => .str s m
  | .list xs m, h => .list (describable_of_strayItem? h)
  | .tuple xs m, h => .tuple (describable_of_strayItem? h)
  | .dict es m, h => .dict (describable_of_strayField? h)
  | .complex .., h | .bytes .., h | .set .., h | .ellipsis, h | .builtin _, h | .generic .., h
  | .union .., h
  | .context _, h => by cases h

theorem describable_of_strayItem? :
    {xs : List Value} → strayItem? xs = none → ∀ x ∈ xs, x.Describable
  | [], _ => by simp
  | x :: xs, h => by
      rw [strayItem?, Option.or_eq_none_iff] at h
      exact List.forall_mem_cons.mpr ⟨describable_of_stray? h.1, describable_of_strayItem? h.2⟩

theorem describable_of_strayField? :
    {es : List (Value × Value)} → strayField? es = none → ∀ e ∈ es, e.2.Describable
  | [], _ => by simp
  | (_, v) :: es, h => by
      rw [strayField?, Option.or_eq_none_iff] at h
      exact List.forall_mem_cons.mpr ⟨describable_of_stray? h.1, describable_of_strayField? h.2⟩

end

theorem stray?_eq_none_iff {v : Value} : v.stray? = none ↔ v.Describable :=
  ⟨describable_of_stray?, Describable.stray?⟩

end Value

namespace Descriptor

open Value

/-- The outcome of a coercion: it is done, or refused on account of a part that has no
descriptor. -/
inductive Coerces {α : Type} : Option Value → Except Fault α → Prop
  | done (a : α) : Coerces none (.ok a)
  | refused (part : Value) : Coerces (some part) (.error (indescribable part.className part.shown))

namespace Coerces

variable {α β : Type} {stray? rest? : Option Value} {r : Except Fault α}

theorem map (h : Coerces stray? r) (f : α → β) : Coerces stray? (r.map f) := by
  cases h with
  | done a => exact .done (f a)
  | refused part => exact .refused part

/-- What is done first is refused first. -/
theorem bind {f : α → Except Fault β} (h : Coerces stray? r) (hf : ∀ a, Coerces rest? (f a)) :
    Coerces (stray?.or rest?) (r >>= f) := by
  cases h with
  | done a => exact hf a
  | refused part => exact .refused part

theorem ok_iff (h : Coerces stray? r) : (∃ a, r = .ok a) ↔ stray? = none := by
  cases h with
  | done a => simp
  | refused part => simp

theorem error_iff (h : Coerces stray? r) {f : Fault} :
    r = .error f ↔ ∃ part, stray? = some part ∧ f = indescribable part.className part.shown := by
  cases h with
  | done a => simp
  | refused part => simp [eq_comm]

end Coerces

theorem ofItems_cons (x : Value) (xs : List Value) :
    ofItems (x :: xs) = ofValue x >>= fun d => (ofItems xs).map (d :: ·) := by
  rw [ofItems]
  cases ofValue x <;> rfl

theorem ofEntries_cons (k v : Value) (es : List (Value × Value)) (acc : Table Descriptor) :
    ofEntries ((k, v) :: es) acc = ofValue v >>= fun d => ofEntries es (acc.put k.display d) := by
  rw [ofEntries]
  cases ofValue v <;> rfl

mutual

theorem ofValue_coerces : (v : Value) → Coerces v.stray? (ofValue v)
  | .null | .bool _ | .int .. | .float .. | .str .. => .done _
  | .list xs _ | .tuple xs _ => (ofItems_coerces xs).map Descriptor.tuple
  | .dict es _ => (ofEntries_coerces es []).map Descriptor.record
  | .complex .. | .bytes .. | .set .. | .ellipsis | .builtin _ | .generic .. | .union ..
  | .context _ => .refused _

theorem ofItems_coerces : (xs : List Value) → Coerces (strayItem? xs) (ofItems xs)
  | [] => .done _
  | x :: xs => by
      rw [strayItem?, ofItems_cons]
      exact (ofValue_coerces x).bind fun d => (ofItems_coerces xs).map (d :: ·)

theorem ofEntries_coerces : (es : List (Value × Value)) → (acc : Table Descriptor) →
    Coerces (strayField? es) (ofEntries es acc)
  | [], _ => .done _
  | (k, v) :: es, acc => by
      rw [strayField?, ofEntries_cons]
      exact (ofValue_coerces v).bind fun d => ofEntries_coerces es (acc.put k.display d)

end

theorem sortedByText_perm (xs : List Value) : (sortedByText xs).Perm xs := by
  have hsorted := (List.mergeSort_perm (xs.map fun v => (v.shown, v))
    fun a b => Value.compareChars a.1.toList b.1.toList != .gt).map (·.2)
  rwa [List.map_map, Function.comp_def, List.map_id'] at hsorted

theorem exists_describe_of_not_set {v : Value} (h : ∀ xs seating mark, v ≠ .set xs seating mark) :
    ∃ d, describe v = .ok d := by
  unfold describe
  split
  · exact ⟨_, rfl⟩
  · split
    · exact absurd rfl (h _ _ _)
    · exact ⟨_, rfl⟩

/-- The first member of a set without a descriptor, in the order in which they are described. -/
def strayMember? (xs : List Value) : Option Value := strayItem? (sortedByText xs)

theorem strayMember?_eq_none_iff {xs : List Value} :
    strayMember? xs = none ↔ ∀ x ∈ xs, x.Describable := by
  rw [strayMember?, strayItem?_eq_none_iff]
  simp only [(sortedByText_perm xs).mem_iff, stray?_eq_none_iff]

theorem describe_set_coerces (xs : List Value) (seating : Option Seating) (mark : Mark) :
    Coerces (strayMember? xs) (describe (.set xs seating mark)) :=
      ofValue_coerces (.ofList (sortedByText xs))

theorem exists_describe_iff (v : Value) :
    (∃ d, describe v = .ok d) ↔ ∀ xs seating mark, v = .set xs seating mark →
    ∀ x ∈ xs, x.Describable := by
  constructor
  · rintro hd xs seating mark rfl
    exact strayMember?_eq_none_iff.mp ((describe_set_coerces xs seating mark).ok_iff.mp hd)
  · intro h
    by_cases hset : ∃ xs seating mark, v = .set xs seating mark
    · obtain ⟨xs, seating, mark, rfl⟩ := hset
      exact (describe_set_coerces xs seating mark).ok_iff.mpr
        (strayMember?_eq_none_iff.mpr (h xs seating mark rfl))
    · exact exists_describe_of_not_set fun xs seating mark heq => hset ⟨xs, seating, mark, heq⟩

theorem describe_eq_error_iff (v : Value) (f : Fault) :
    describe v = .error f ↔ ∃ xs seating mark part, v = .set xs seating mark ∧
      strayMember? xs = some part ∧
      f = indescribable part.className part.shown := by
  constructor
  · intro h
    by_cases hset : ∃ xs seating mark, v = .set xs seating mark
    · obtain ⟨xs, seating, mark, rfl⟩ := hset
      obtain ⟨part, hpart, hf⟩ := (describe_set_coerces xs seating mark).error_iff.mp h
      exact ⟨xs, seating, mark, part, rfl, hpart, hf⟩
    · obtain ⟨d, hd⟩ := exists_describe_of_not_set fun xs seating mark heq =>
        hset ⟨xs, seating, mark, heq⟩
      rw [hd] at h
      cases h
  · rintro ⟨xs, seating, mark, part, rfl, hpart, hf⟩
    exact (describe_set_coerces xs seating mark).error_iff.mpr ⟨part, hpart, hf⟩

end Descriptor

def Product.described : Product → Except Fault Descriptor
  | .value v => Descriptor.describe v
  | .descriptor d => .ok d

namespace Evaluation

open Descriptor

variable {w w₁ w₂ : World} {tag : Value} {args : List Descriptor} {arguments : List Value}
    {product : Product}

theorem runCustom_of_invoke (hargs : args.mapM customArgument w = .ok arguments w₁)
    (hinvoke : invoke tag arguments w₁ = .ok product w₂) (hproduct : product ≠ .value .null) :
    runCustom tag args w = (Machine.lift product.described >>= yielding) w₂ := by
  rw [runCustom, bind_of_ok hargs, bind_of_ok hinvoke]
  unfold produced
  split
  · exact absurd rfl hproduct
  · rfl
  · rfl

theorem results_of_mapM_customArgument (hargs : args.mapM customArgument w = .ok arguments w₁) :
    w₁.results = w.results := by
  have hintact := Inspects.closed.mapM Inspects.closed.has_customArgument args w
  rw [hargs] at hintact
  rw [show w₁ = _ from hintact]

theorem invoke_only {name : String} {c : Expression.Compiled}
    (hregistry : w.registry = ⟨[(.ofStr name, .compiled c)]⟩) (arguments : List Value) :
    invoke (.ofStr name) arguments w =
      Machine.lift ((c.call [.ofList arguments, .context w.context.text]).map .value) w := by
  have hname : (Value.ofStr name).agrees (.ofStr name) = true := by
    simp [Value.agrees, Value.ofStr, Value.eqv]
  have hhandler : Registry.get? ⟨[(.ofStr name, .compiled c)]⟩ (.ofStr name) =
      some (.compiled c) := by
    simp [Registry.get?, hname]
  have hfind : w.registry.find (.ofStr name) = .ok (.compiled c) := by
    simp only [hregistry, Registry.find, hhandler]
    rfl
  have hlift : Machine.lift (w.registry.find (.ofStr name)) w = .ok (.compiled c) w := by
    rw [hfind]
    rfl
  rw [invoke, get_bind, bind_of_ok hlift]
  change Machine.accept (((c.call [.ofList arguments, .context w.context.text]).map
    Product.value).mapError .fault) w = _
  cases c.call [.ofList arguments, .context w.context.text] <;> rfl

/-- An outcome that is described is one new result, and one that is not ends the effect without
any. -/
theorem runCustom_described (hargs : args.mapM customArgument w = .ok arguments w₁)
    (hinvoke : invoke tag arguments w₁ = .ok product w₂) (hown : w₂.results = w₁.results)
    (hproduct : product ≠ .value .null) :
    (∀ d, product.described = .ok d → ∃ key w₃, runCustom tag args w = .ok (some key) w₃ ∧
      w₃.results.entries = w.results.entries ++ [(key, d)]) ∧
    ∀ f, product.described = .error f → ∃ w₃, runCustom tag args w = .error (.fault f) w₃ ∧
      w₃.results = w.results := by
  have hresults := hown.trans (results_of_mapM_customArgument hargs)
  rw [runCustom_of_invoke hargs hinvoke hproduct]
  constructor
  · intro d hd
    rw [hd, ← hresults]
    exact ⟨_, (w₂.addResult d).2, rfl, rfl⟩
  · intro f hf
    rw [hf]
    exact ⟨w₂, rfl, hresults⟩

theorem exists_described_iff :
    (∃ d, product.described = .ok d) ↔
      ∀ xs seating mark, product = .value (.set xs seating mark) → ∀ x ∈ xs, x.Describable := by
  cases product with
  | value v => simpa [Product.described] using exists_describe_iff v
  | descriptor d => simp [Product.described]

theorem described_eq_error_iff {f : Fault} :
    product.described = .error f ↔ ∃ xs seating mark part, product = .value (.set xs seating mark) ∧
      strayMember? xs = some part ∧ f = indescribable part.className part.shown := by
  cases product with
  | value v => simpa [Product.described] using describe_eq_error_iff v f
  | descriptor d => simp [Product.described]

/-- Only a set can fail to be described, namely one with a member that has no descriptor, and it
fails on account of the first such part. A custom effect whose outcome is not null has exactly one
new result if the outcome is described, and otherwise ends in that fault without a result; only a
handler of the host could add results of its own. -/
theorem described_unless_stray_member (product : Product) :
    ((∃ d, product.described = .ok d) ↔
      ∀ xs seating mark, product = .value (.set xs seating mark) → ∀ x ∈ xs, x.Describable) ∧
    (∀ f, product.described = .error f ↔
      ∃ xs seating mark part, product = .value (.set xs seating mark) ∧
      strayMember? xs = some part ∧ f = indescribable part.className part.shown) ∧
    ∀ (w w₁ w₂ : World) (tag : Value) (args : List Descriptor) (arguments : List Value),
      args.mapM customArgument w = .ok arguments w₁ → invoke tag arguments w₁ = .ok product w₂ →
      w₂.results = w₁.results → product ≠ .value .null →
        (∀ d, product.described = .ok d → ∃ key w₃, runCustom tag args w = .ok (some key) w₃ ∧
          w₃.results.entries = w.results.entries ++ [(key, d)]) ∧
        ∀ f, product.described = .error f →
          ∃ w₃, runCustom tag args w = .error (.fault f) w₃ ∧ w₃.results = w.results :=
  ⟨exists_described_iff, fun _ => described_eq_error_iff,
    fun _ _ _ _ _ _ hargs hinvoke hown hproduct => runCustom_described hargs hinvoke hown hproduct⟩

/-- A list of octets is described by its text, so it is a result. -/
theorem list_of_octets_described :
    ∃ d key w₂, runCustom (.ofStr "octets") []
        { registry := ⟨[(.ofStr "octets", .compiled ⟨[], .list [.constant (.bytes [0x61] .sole)]⟩)]⟩
          } =
          .ok (some key) w₂ ∧ w₂.results.entries = [(key, d)] := by
  let w : World := { registry :=
    ⟨[(.ofStr "octets", .compiled ⟨[], .list [.constant (.bytes [0x61] .sole)]⟩)]⟩ }
  have hcall : ∃ mark, Expression.Compiled.call ⟨[], .list [.constant (.bytes [0x61] .sole)]⟩
      [.ofList [], .context w.context.text] = .ok (.list [.bytes [0x61] .sole] mark) := ⟨_, rfl⟩
  obtain ⟨mark, hcall⟩ := hcall
  have hinvoke : invoke (.ofStr "octets") [] w =
      .ok (.value (.list [.bytes [0x61] .sole] mark)) w := by
    rw [invoke_only rfl, hcall]
    rfl
  obtain ⟨hdescribed, -, hcustom⟩ :=
    described_unless_stray_member (.value (.list [.bytes [0x61] .sole] mark))
  obtain ⟨d, hd⟩ := hdescribed.mpr (by simp)
  obtain ⟨key, w₂, hrun, hentries⟩ :=
    (hcustom w w w (.ofStr "octets") [] [] rfl hinvoke rfl (by simp)).1 d hd
  exact ⟨d, key, w₂, hrun, hentries⟩

/-- The octets in the display of a set with no other member. -/
def octetsMember? : Expr → Option (List UInt8)
  | .set [.constant (.bytes octets .sole)] => some octets
  | _ => none

theorem eq_of_octetsMember? {e : Expr} {octets : List UInt8} (h : octetsMember? e = some octets) :
    e = .set [.constant (.bytes octets .sole)] := by
  unfold octetsMember? at h
  split at h <;> cases h
  rfl

theorem evaluate_octetsMember (bindings : Table Value) :
    ∃ seating mark, Expression.evaluate (.set [.constant (.bytes [0x61] .sole)]) bindings =
      .ok (.set [.bytes [0x61] .sole] seating mark) := ⟨_, _, rfl⟩

theorem strayMember?_octets (octets : List UInt8) :
    strayMember? [.bytes octets .sole] = some (.bytes octets .sole) := by
  have hsorted : sortedByText [.bytes octets .sole] = [.bytes octets .sole] :=
    List.perm_singleton.mp (sortedByText_perm _)
  rw [strayMember?, hsorted]
  rfl

/-- A set of octets can be produced but not described, and a custom effect that produces it has no
result. -/
theorem set_of_octets_undescribed :
    ∃ c v, Expression.compile "\x7bb'a'\x7d" = .ok c ∧ c.call [] = .ok v ∧
      describe v = .error (.mismatch "Cannot describe value of type bytes: b'a'") ∧
      ∃ w, runCustom (.ofStr "octets") [] { registry := ⟨[(.ofStr "octets", .compiled c)]⟩ } =
        .error (.fault (.mismatch "Cannot describe value of type bytes: b'a'")) w ∧
          w.results.entries = [] := by
  have hshape : (Expression.compile "\x7bb'a'\x7d").toOption.bind (octetsMember? ·.body) =
      some [0x61] := by
    decide +kernel
  have hfault : indescribable "bytes" (Value.bytes [0x61] .sole).shown =
      .mismatch "Cannot describe value of type bytes: b'a'" :=
        congrArg Fault.mismatch (by decide +kernel)
  have hrefused (seating : Option Seating) (mark : Mark) :
      describe (.set [.bytes [0x61] .sole] seating mark) =
        .error (.mismatch "Cannot describe value of type bytes: b'a'") :=
    (describe_set_coerces _ seating mark).error_iff.mpr ⟨_, strayMember?_octets [0x61], hfault.symm⟩
  cases hcompile : Expression.compile "\x7bb'a'\x7d" with
  | error f =>
    rw [hcompile] at hshape
    cases hshape
  | ok c =>
    rw [hcompile] at hshape
    have hcall (args : List Value) :
        ∃ seating mark, c.call args = .ok (.set [.bytes [0x61] .sole] seating mark) := by
      rw [Expression.Compiled.call, eq_of_octetsMember? hshape]
      exact evaluate_octetsMember _
    obtain ⟨seating, mark, hvalue⟩ := hcall []
    let w : World := { registry := ⟨[(.ofStr "octets", .compiled c)]⟩ }
    obtain ⟨seating', mark', hproduct⟩ := hcall [.ofList [], .context w.context.text]
    have hinvoke : invoke (.ofStr "octets") [] w =
        .ok (.value (.set [.bytes [0x61] .sole] seating' mark')) w := by
      rw [invoke_only rfl, hproduct]
      rfl
    have hargs : List.mapM customArgument [] w = .ok [] w := rfl
    obtain ⟨-, hrun⟩ := runCustom_described hargs hinvoke rfl (by simp)
    obtain ⟨w₂, hw₂, hresults⟩ := hrun _ (hrefused seating' mark')
    exact ⟨c, _, rfl, hvalue, hrefused seating mark, w₂, hw₂, by rw [hresults]⟩

end Evaluation

end EffectTree
