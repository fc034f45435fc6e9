import Mathlib
import EffectTree.Proofs.Mentions
import EffectTree.Resolution.Projection
import EffectTree.Store.Results

/-!
# Unfolding a reference

A descriptor that refers to a result can have the output of the result in the place of the
reference. The two descriptors have the same free variables, and what substitution and projection
make of them unfolds in the same way. Projections lose their marks where something has been put in.
Merging looks into descriptors, so what it makes of them unfolds in the same way only where putting
the output in first makes no difference.
-/
namespace EffectTree

/-- Whether merging looks into a descriptor: it fills in what is unknown and joins records. -/
def Descriptor.isJoined : Descriptor → Bool
  | .unknown | .record _ => true
  | _ => false

/-- Results are mentioned under some keys only. -/
def Mention.IsOf (keys : String → Prop) : Mention → Prop
  | .result (.str key _) => keys key
  | _ => True

/-- A descriptor refers to results under some keys only. -/
def Descriptor.RefersWithin (keys : String → Prop) (d : Descriptor) : Prop :=
  ∀ m ∈ d.mentions, m.IsOf keys

/-- A result with a closed output, a key that nothing refers to, and which keys are older than the
two. -/
structure Stored where
  key : String
  spare : String
  output : Descriptor
  old : String → Prop
  closed : output.freeVars = []
  refersBack : output.RefersWithin old
  key_new : ¬ old key
  spare_new : ¬ old spare

namespace Stored

open Descriptor Resolution

/-- What a descriptor may refer to: to anything, to older results, or to any but the two where
references to the output have been replaced. -/
inductive Layer where
  | any
  | older
  | later

variable (s : Stored)

def reference : Descriptor := Store.Results.reference (.ofStr s.key)

def spares : Layer → Value → Prop
  | .any, _ => True
  | .older, key => (Mention.result key).IsOf s.old
  | .later, key => (Mention.result key).IsOf fun k => k ≠ s.key ∧ k ≠ s.spare

mutual

/-- A descriptor with the output in the place of the references to it. -/
def put : Descriptor → Descriptor
  | .tuple items => .tuple (putList items)
  | .record fields => .record (putFields fields)
  | .effect tag args => .effect tag (putList args)
  | .index target field mark =>
      if (Descriptor.index target field mark).same s.reference then s.output
      else if (put target).same target then .index target field mark
      else .index (put target) field .fresh
  | .inter parts => .inter (putList parts)
  | .op name args => .op name (putList args)
  | d => d

def putList : List Descriptor → List Descriptor
  | [] => []
  | d :: ds => put d :: putList ds

def putFields : List (String × Descriptor) → List (String × Descriptor)
  | [] => []
  | (name, d) :: rest => (name, put d) :: putFields rest

end

mutual

/-- The second descriptor is the first with the output in the place of the references to it, or only
with projections that are made anew. A projection is the same thing only if nothing has been put in
below it. -/
inductive Unfolds : Layer → Descriptor → Descriptor → Prop
  | output {d : Descriptor} : Unfolds .older s.output d → Unfolds .later s.reference d
  | literal {l : Layer} (v : Value) : Unfolds l (.literal v) (.literal v)
  | unknown {l : Layer} : Unfolds l .unknown .unknown
  | tuple {l : Layer} {xs ys : List Descriptor} : UnfoldsAll l xs ys →
      Unfolds l (.tuple xs) (.tuple ys)
  | record {l : Layer} {xs ys : List (String × Descriptor)} : UnfoldsFields l xs ys →
      Unfolds l (.record xs) (.record ys)
  | effect {l : Layer} (tag : Value) {xs ys : List Descriptor} : UnfoldsAll l xs ys →
      Unfolds l (.effect tag xs) (.effect tag ys)
  | var {l : Layer} (name : Value) : Unfolds l (.var name) (.var name)
  | ref {l : Layer} (name : Value) : Unfolds l (.ref name) (.ref name)
  | result {l : Layer} {key : Value} : s.spares l key → Unfolds l (.result key) (.result key)
  | index {l : Layer} {t t' : Descriptor} (field : Value) (mark : Mark) : Unfolds l t t' →
      Unfolds l (.index t field mark) (.index t' field .fresh)
  | same {l : Layer} {t : Descriptor} (field : Value) (mark : Mark) : Unfolds l t t →
      Unfolds l (.index t field mark) (.index t field mark)
  | inter {l : Layer} {xs ys : List Descriptor} : UnfoldsAll l xs ys →
      Unfolds l (.inter xs) (.inter ys)
  | op {l : Layer} (name : Value) {xs ys : List Descriptor} : UnfoldsAll l xs ys →
      Unfolds l (.op name xs) (.op name ys)

inductive UnfoldsAll : Layer → List Descriptor → List Descriptor → Prop
  | nil {l : Layer} : UnfoldsAll l [] []
  | cons {l : Layer} {x y : Descriptor} {xs ys : List Descriptor} : Unfolds l x y →
      UnfoldsAll l xs ys → UnfoldsAll l (x :: xs) (y :: ys)

inductive UnfoldsFields :
    Layer → List (String × Descriptor) → List (String × Descriptor) → Prop
  | nil {l : Layer} : UnfoldsFields l [] []
  | cons {l : Layer} (name : String) {x y : Descriptor} {xs ys : List (String × Descriptor)} :
      Unfolds l x y → UnfoldsFields l xs ys →
        UnfoldsFields l ((name, x) :: xs) ((name, y) :: ys)

end

variable {s} {l : Layer} {a b : Descriptor}

lemma spares_of_older {key : Value} (h : s.spares .older key) : s.spares l key := by
  cases l with
  | any => trivial
  | older => exact h
  | later =>
    cases key with
    | str key mark => exact ⟨fun heq => s.key_new (heq ▸ h), fun heq => s.spare_new (heq ▸ h)⟩
    | _ => trivial

mutual

theorem Unfolds.of_older {a b : Descriptor} : s.Unfolds .older a b → s.Unfolds l a b
  | .literal v => .literal v
  | .unknown => .unknown
  | .tuple h => .tuple h.of_older
  | .record h => .record h.of_older
  | .effect tag h => .effect tag h.of_older
  | .var name => .var name
  | .ref name => .ref name
  | .result h => .result (spares_of_older h)
  | .index field mark h => .index field mark h.of_older
  | .same field mark h => .same field mark h.of_older
  | .inter h => .inter h.of_older
  | .op name h => .op name h.of_older

theorem UnfoldsAll.of_older {xs ys : List Descriptor} :
    s.UnfoldsAll .older xs ys → s.UnfoldsAll l xs ys
  | .nil => .nil
  | .cons h hs => .cons h.of_older hs.of_older

theorem UnfoldsFields.of_older {xs ys : List (String × Descriptor)} :
    s.UnfoldsFields .older xs ys → s.UnfoldsFields l xs ys
  | .nil => .nil
  | .cons name h hs => .cons name h.of_older hs.of_older

end

mutual

/-- What refers to older results only unfolds to itself. -/
theorem Unfolds.refl {l : Layer} : (d : Descriptor) → d.RefersWithin s.old → s.Unfolds l d d
  | .literal v, _ => .literal v
  | .unknown, _ => .unknown
  | .tuple items, h => .tuple (UnfoldsAll.refl items fun d hd m hm =>
      h m (mem_mentions_tuple.mpr ⟨d, hd, hm⟩))
  | .record fields, h => .record (UnfoldsFields.refl fields fun entry hentry m hm => by
      cases m with
      | result key => exact h _ (mem_mentions_record.mpr ⟨⟨entry, hentry, hm⟩, rfl⟩)
      | free | effect => trivial)
  | .effect tag args, h => .effect tag (UnfoldsAll.refl args fun d hd m hm =>
      h m (mem_mentions_effect.mpr (.inr ⟨d, hd, hm⟩)))
  | .var name, _ => .var name
  | .ref name, _ => .ref name
  | .result key, h => .result (spares_of_older (h _ (List.mem_singleton.mpr rfl)))
  | .index target field mark, h => .same field mark (Unfolds.refl target h)
  | .inter parts, h => .inter (UnfoldsAll.refl parts fun d hd m hm =>
      h m (mem_mentions_inter.mpr ⟨d, hd, hm⟩))
  | .op name args, h => .op name (UnfoldsAll.refl args fun d hd m hm =>
      h m (mem_mentions_op.mpr ⟨d, hd, hm⟩))

theorem UnfoldsAll.refl {l : Layer} : (ds : List Descriptor) → (∀ d ∈ ds, d.RefersWithin s.old) →
    s.UnfoldsAll l ds ds
  | [], _ => .nil
  | d :: ds, h =>
      .cons (Unfolds.refl d (h d List.mem_cons_self))
        (UnfoldsAll.refl ds fun d' hd' => h d' (List.mem_cons_of_mem _ hd'))

theorem UnfoldsFields.refl {l : Layer} : (fields : List (String × Descriptor)) →
    (∀ entry ∈ fields, entry.2.RefersWithin s.old) → s.UnfoldsFields l fields fields
  | [], _ => .nil
  | (name, d) :: rest, h =>
      .cons name (Unfolds.refl d (h _ List.mem_cons_self))
        (UnfoldsFields.refl rest fun entry hentry => h entry (List.mem_cons_of_mem _ hentry))

end

lemma refersWithin_of_mentions {keys : String → Prop} {d : Descriptor} (h : d.mentions = []) :
    d.RefersWithin keys := fun m hm => by simp [h] at hm

lemma UnfoldsAll.length_eq {xs ys : List Descriptor} (h : s.UnfoldsAll l xs ys) :
    xs.length = ys.length := by
  induction xs generalizing ys with
  | nil => cases h; rfl
  | cons x xs ih =>
    cases h with
    | cons _ hs => rw [List.length_cons, List.length_cons, ih hs]

lemma UnfoldsAll.getElem? {xs ys : List Descriptor} (h : s.UnfoldsAll l xs ys) (i : Nat) :
    Option.Rel (s.Unfolds l) xs[i]? ys[i]? := by
  induction xs generalizing ys i with
  | nil => cases h; exact .none
  | cons x xs ih =>
    cases h with
    | cons hx hs =>
      cases i with
      | zero => exact .some hx
      | succ i => exact ih hs i

lemma UnfoldsFields.has_eq {xs ys : Table Descriptor} (h : s.UnfoldsFields l xs ys)
    (name : String) :
    xs.has name = ys.has name := by
  induction xs generalizing ys with
  | nil => cases h; rfl
  | cons entry xs ih =>
    cases h with
    | cons k _ hs =>
      have htail := ih hs
      simp only [Table.has, List.any_cons] at htail ⊢
      rw [htail]

lemma UnfoldsFields.length_eq {xs ys : Table Descriptor} (h : s.UnfoldsFields l xs ys) :
    xs.length = ys.length := by
  induction xs generalizing ys with
  | nil => cases h; rfl
  | cons entry xs ih =>
    cases h with
    | cons _ _ hs => rw [List.length_cons, List.length_cons, ih hs]

lemma UnfoldsFields.get? {xs ys : Table Descriptor} (h : s.UnfoldsFields l xs ys) (name : String) :
    Option.Rel (s.Unfolds l) (xs.get? name) (ys.get? name) := by
  induction xs generalizing ys with
  | nil => cases h; exact .none
  | cons entry xs ih =>
    cases h with
    | @cons _ k x y _ ys' hx hs =>
      by_cases hk : k = name
      · simpa [Table.get?, hk] using Option.Rel.some hx
      · simpa [Table.get?, List.find?_cons, hk] using ih hs

lemma UnfoldsFields.put {xs ys : Table Descriptor} (h : s.UnfoldsFields l xs ys) (name : String)
    (hab : s.Unfolds l a b) : s.UnfoldsFields l (xs.put name a) (ys.put name b) := by
  induction xs generalizing ys with
  | nil => cases h; exact .cons name hab .nil
  | cons entry xs ih =>
    cases h with
    | @cons _ k x y _ ys' hx hs =>
      by_cases hk : k = name
      · simpa [Table.put, hk] using UnfoldsFields.cons name hab hs
      · simpa [Table.put, hk] using UnfoldsFields.cons k hx (ih hs)

lemma UnfoldsFields.declares_eq {xs ys : Table Descriptor} (h : s.UnfoldsFields l xs ys)
    (name : Value) :
    declares xs name = declares ys name := by
  cases name <;> simp [declares, h.has_eq]

lemma UnfoldsFields.find? {scope scope' : Scope} (h : s.UnfoldsFields l scope scope')
    (name : Value) :
    Option.Rel (s.Unfolds l) (scope.find? name) (scope'.find? name) := by
  cases name with
  | str k _ => exact h.get? k
  | _ => exact .none

lemma UnfoldsFields.without {scope scope' : Scope} {xs ys : Table Descriptor}
    (h : s.UnfoldsFields l scope scope') (hfields : s.UnfoldsFields l xs ys) :
    s.UnfoldsFields l (scope.without xs) (scope'.without ys) := by
  induction scope generalizing scope' with
  | nil => cases h; exact .nil
  | cons entry scope ih =>
    cases h with
    | @cons _ k x y _ rest hx hs =>
      have hrest := ih hs
      simp only [Scope.without, List.filter_cons, hfields.has_eq] at hrest ⊢
      split
      · exact .cons k hx hrest
      · exact hrest

mutual

theorem Unfolds.freeVars_eq {l : Layer} {a b : Descriptor} :
    s.Unfolds l a b → a.freeVars = b.freeVars
  | .output h => s.closed.symm.trans h.freeVars_eq
  | .literal _ | .unknown | .var _ | .ref _ | .result _ | .same _ _ _ => rfl
  | .tuple h | .effect _ h | .inter h | .op _ h => h.freeVars_eq
  | .index _ _ h => h.freeVars_eq
  | .record h => by
      simp only [freeVars, h.freeVars_eq, h.declares_eq]

theorem UnfoldsAll.freeVars_eq {l : Layer} {xs ys : List Descriptor} :
    s.UnfoldsAll l xs ys → freeVarsList xs = freeVarsList ys
  | .nil => rfl
  | .cons h hs => by rw [freeVarsList, freeVarsList, h.freeVars_eq, hs.freeVars_eq]

theorem UnfoldsFields.freeVars_eq {l : Layer} {xs ys : List (String × Descriptor)} :
    s.UnfoldsFields l xs ys →
    freeVarsFields xs = freeVarsFields ys
  | .nil => rfl
  | .cons _ h hs => by rw [freeVarsFields, freeVarsFields, h.freeVars_eq, hs.freeVars_eq]

end

variable (s) in
lemma badVar?_output : s.output.badVar? = none :=
  (badVar?_eq_none_iff _).mpr fun name hname => by simp [s.closed] at hname

mutual

theorem Unfolds.badVar?_eq {l : Layer} {a b : Descriptor} : s.Unfolds l a b → a.badVar? = b.badVar?
  | .output h => s.badVar?_output.symm.trans h.badVar?_eq
  | .literal _ | .unknown | .var _ | .ref _ | .result _ | .same _ _ _ => rfl
  | .tuple h | .effect _ h | .inter h | .op _ h => h.badVar?_eq
  | .index _ _ h => h.badVar?_eq
  | .record h => h.badVar?_eq

theorem UnfoldsAll.badVar?_eq {l : Layer} {xs ys : List Descriptor} :
    s.UnfoldsAll l xs ys → badVarList? xs = badVarList? ys
  | .nil => rfl
  | .cons h hs => by rw [badVarList?, badVarList?, h.badVar?_eq, hs.badVar?_eq]

theorem UnfoldsFields.badVar?_eq {l : Layer} {xs ys : List (String × Descriptor)} :
    s.UnfoldsFields l xs ys →
    badVarFields? xs = badVarFields? ys
  | .nil => rfl
  | .cons _ h hs => by rw [badVarFields?, badVarFields?, h.badVar?_eq, hs.badVar?_eq]

end

lemma substitute_reference (scope : Scope) : substitute scope s.reference = s.reference := by
  simp [reference, Store.Results.reference, substitute]

/-- The second scope has the names of the first. Where the second is empty, so is the first then. -/
def Covered (scope scope' : Scope) : Prop := ∀ entry ∈ scope, Table.has scope' entry.1 = true

lemma Covered.nil (scope : Scope) : Covered [] scope := fun _ h => nomatch h

lemma Covered.eq_nil {scope : Scope} (h : Covered scope []) : scope = [] := by
  cases scope with
  | nil => rfl
  | cons entry rest => exact nomatch h entry List.mem_cons_self

lemma has_without {scope : Scope} {fields : List (String × Descriptor)} {name : String}
    (hname : Table.has scope name = true) (hfields : Table.has fields name = false) :
    Table.has (scope.without fields) name = true := by
  obtain ⟨entry, hmem, heq⟩ := List.any_eq_true.mp hname
  have hkey : entry.1 = name := by simpa using heq
  refine List.any_eq_true.mpr ⟨entry, List.mem_filter.mpr ⟨hmem, ?_⟩, heq⟩
  simp [hkey, hfields]

lemma Covered.without {scope scope' : Scope} {xs ys : List (String × Descriptor)}
    (h : Covered scope scope') (hhas : ∀ name, Table.has xs name = Table.has ys name) :
    Covered (scope.without xs) (scope'.without ys) := by
  intro entry hentry
  obtain ⟨hmem, hkept⟩ := List.mem_filter.mp hentry
  exact has_without (h entry hmem) (by simpa [hhas] using hkept)

mutual

/-- Substitutions that find nothing to put in only make projections new. -/
theorem Unfolds.substitute_closed {l : Layer} {a b : Descriptor} {scope scope' : Scope}
    (hcovered : Covered scope scope') :
    s.Unfolds l a b → (∀ name ∈ a.freeVars, scope.find? name = none) →
    (∀ name ∈ b.freeVars, scope'.find? name = none) →
    s.Unfolds l (substitute scope a) (substitute scope' b)
  | .output h, _, hfree => by
      have hleft : s.Unfolds .older (Descriptor.substitute [] s.output)
          (Descriptor.substitute scope' b) :=
        h.substitute_closed (.nil _) (fun _ _ => Scope.find?_nil _) hfree
      rw [substitute_nil] at hleft
      rw [substitute_reference]
      exact .output hleft
  | .literal v, _, _ => .literal v
  | .unknown, _, _ => .unknown
  | .var name, hfree, hfree' => by
      rw [substitute, substitute, hfree name (List.mem_singleton.mpr rfl),
        hfree' name (List.mem_singleton.mpr rfl)]
      exact .var name
  | .ref name, _, _ => .ref name
  | .result h, _, _ => .result h
  | .tuple h, hfree, hfree' => .tuple (h.substitute_closed hcovered hfree hfree')
  | .effect tag h, hfree, hfree' => .effect tag (h.substitute_closed hcovered hfree hfree')
  | .inter h, hfree, hfree' => .inter (h.substitute_closed hcovered hfree hfree')
  | .op name h, hfree, hfree' => .op name (h.substitute_closed hcovered hfree hfree')
  | .record h, hfree, hfree' =>
    .record (h.substitute_closed (hcovered.without h.has_eq) (find?_without_eq_none hfree)
      (find?_without_eq_none hfree'))
  | .index field mark h, hfree, hfree' => by
      rw [substitute, substitute, ite_self]
      exact .index field _ (h.substitute_closed hcovered hfree hfree')
  | .same field mark h, hfree, hfree' => by
      rw [substitute, substitute]
      cases scope' with
      | nil =>
        rw [hcovered.eq_nil, substitute_nil]
        exact .same field mark h
      | cons entry rest => exact .index field _ (h.substitute_closed hcovered hfree hfree')

theorem UnfoldsAll.substitute_closed {l : Layer} {xs ys : List Descriptor} {scope scope' : Scope}
    (hcovered : Covered scope scope') : s.UnfoldsAll l xs ys →
    (∀ name ∈ freeVarsList xs, scope.find? name = none) →
    (∀ name ∈ freeVarsList ys, scope'.find? name = none) →
    s.UnfoldsAll l (substituteList scope xs) (substituteList scope' ys)
  | .nil, _, _ => .nil
  | .cons h hs, hfree, hfree' =>
      .cons (h.substitute_closed hcovered
        (fun name hname => hfree name (List.mem_append_left _ hname))
          fun name hname => hfree' name (List.mem_append_left _ hname))
        (hs.substitute_closed hcovered
          (fun name hname => hfree name (List.mem_append_right _ hname))
          fun name hname => hfree' name (List.mem_append_right _ hname))

theorem UnfoldsFields.substitute_closed {l : Layer} {xs ys : List (String × Descriptor)}
    {scope scope' : Scope} (hcovered : Covered scope scope') : s.UnfoldsFields l xs ys →
    (∀ name ∈ freeVarsFields xs, scope.find? name = none) →
    (∀ name ∈ freeVarsFields ys, scope'.find? name = none) →
    s.UnfoldsFields l (substituteFields scope xs) (substituteFields scope' ys)
  | .nil, _, _ => .nil
  | .cons name h hs, hfree, hfree' =>
      .cons name (h.substitute_closed hcovered
        (fun name hname => hfree name (List.mem_append_left _ hname))
          fun name hname => hfree' name (List.mem_append_left _ hname))
        (hs.substitute_closed hcovered
          (fun name hname => hfree name (List.mem_append_right _ hname))
          fun name hname => hfree' name (List.mem_append_right _ hname))

end

mutual

theorem Unfolds.substitute {l : Layer} {a b : Descriptor} {scope scope' : Scope}
    (hscope : s.UnfoldsFields l scope scope') :
    s.Unfolds l a b → s.Unfolds l (substitute scope a) (substitute scope' b)
  | .output h => by
      have hleft : s.Unfolds .older (Descriptor.substitute [] s.output)
          (Descriptor.substitute scope' b) :=
        h.substitute_closed (.nil _) (fun _ _ => Scope.find?_nil _) fun name hname => by
          simp [← h.freeVars_eq, s.closed] at hname
      rw [substitute_nil] at hleft
      rw [substitute_reference]
      exact .output hleft
  | .literal v => .literal v
  | .unknown => .unknown
  | .ref name => .ref name
  | .result h => .result h
  | .var name => by
      rw [Descriptor.substitute, Descriptor.substitute]
      have hfind := hscope.find? name
      generalize scope.find? name = x, scope'.find? name = y at hfind
      cases hfind with
      | none => exact .var name
      | some h => exact h
  | .tuple h => .tuple (h.substitute hscope)
  | .effect tag h => .effect tag (h.substitute hscope)
  | .inter h => .inter (h.substitute hscope)
  | .op name h => .op name (h.substitute hscope)
  | .record h => .record (UnfoldsFields.substitute (hscope.without h) h)
  | .index field mark h => by
      rw [Descriptor.substitute, Descriptor.substitute, ite_self]
      exact .index field _ (h.substitute hscope)
  | .same field mark h => by
      rw [Descriptor.substitute, Descriptor.substitute]
      cases hscope with
      | nil => rw [substitute_nil]; exact .same field mark h
      | cons name hx hrest => exact .index field _ (h.substitute (.cons name hx hrest))

theorem UnfoldsAll.substitute {l : Layer} {xs ys : List Descriptor} {scope scope' : Scope}
    (hscope : s.UnfoldsFields l scope scope') :
    s.UnfoldsAll l xs ys → s.UnfoldsAll l (substituteList scope xs) (substituteList scope' ys)
  | .nil => .nil
  | .cons h hs => .cons (h.substitute hscope) (hs.substitute hscope)

theorem UnfoldsFields.substitute {l : Layer} {xs ys : List (String × Descriptor)}
    {scope scope' : Scope} (hscope : s.UnfoldsFields l scope scope') :
    s.UnfoldsFields l xs ys → s.UnfoldsFields l (substituteFields scope xs)
      (substituteFields scope' ys)
  | .nil => .nil
  | .cons name h hs => .cons name (h.substitute hscope) (UnfoldsFields.substitute hscope hs)

end

mutual

/-- Merging unfolds alike where the output is in neither descriptor. -/
theorem Unfolds.merge {l : Layer} (hl : l ≠ .later) {a a' b b' : Descriptor} :
    s.Unfolds l a a' → s.Unfolds l b b' → s.Unfolds l (merge a b) (merge a' b')
  | ha, .unknown => ha
  | ha, .record h => by
      cases ha with
      | unknown =>
        simp only [Resolution.merge]
        exact .record h
      | record hx =>
        simp only [Resolution.merge]
        exact .record (UnfoldsFields.mergeFields hl hx h)
      | output => exact absurd rfl hl
      | literal | var | ref | result | tuple | effect | inter | op | index | same =>
        simp only [Resolution.merge]
        exact .record h
  | _, .output _ => absurd rfl hl
  | _, .literal v => .literal v
  | _, .var name => .var name
  | _, .ref name => .ref name
  | _, .result h => .result h
  | _, .tuple h => .tuple h
  | _, .effect tag h => .effect tag h
  | _, .inter h => .inter h
  | _, .op name h => .op name h
  | _, .index field mark h => .index field mark h
  | _, .same field mark h => .same field mark h

theorem UnfoldsFields.mergeFields {l : Layer} (hl : l ≠ .later) {xs xs' : Table Descriptor}
    {ys ys' : List (String × Descriptor)} : s.UnfoldsFields l xs xs' →
    s.UnfoldsFields l ys ys' → s.UnfoldsFields l (mergeFields xs ys) (mergeFields xs' ys')
  | hx, .nil => by
      simp only [Resolution.mergeFields]
      exact hx
  | hx, .cons name h hs => by
      have hget := hx.get? name
      simp only [Resolution.mergeFields]
      generalize xs.get? name = left, xs'.get? name = left' at hget
      cases hget with
      | none => exact UnfoldsFields.mergeFields hl (hx.put name h) hs
      | some hleft => exact UnfoldsFields.mergeFields hl (hx.put name (Unfolds.merge hl hleft h)) hs

end

mutual

/-- What unfolds to something merges to something that unfolds. -/
theorem exists_unfolds_merge {l : Layer} {a a' b b' : Descriptor} :
    s.Unfolds l a a' → s.Unfolds l b b' →
    ∃ d, s.Unfolds l (merge a b) d
  | ha, .unknown => ⟨_, ha⟩
  | ha, .record h => by
      cases ha with
      | record hx =>
        obtain ⟨_, hd⟩ := exists_unfoldsFields_mergeFields hx h
        simp only [Resolution.merge]
        exact ⟨_, .record hd⟩
      | unknown | output | literal | var | ref | result | tuple | effect | inter | op | index
      | same =>
        simp only [Resolution.merge, reference, Store.Results.reference]
        exact ⟨_, .record h⟩
  | _, .output h => ⟨_, .output h⟩
  | _, .literal v => ⟨_, .literal v⟩
  | _, .var name => ⟨_, .var name⟩
  | _, .ref name => ⟨_, .ref name⟩
  | _, .result h => ⟨_, .result h⟩
  | _, .tuple h => ⟨_, .tuple h⟩
  | _, .effect tag h => ⟨_, .effect tag h⟩
  | _, .inter h => ⟨_, .inter h⟩
  | _, .op name h => ⟨_, .op name h⟩
  | _, .index field mark h => ⟨_, .index field mark h⟩
  | _, .same field mark h => ⟨_, .same field mark h⟩

theorem exists_unfoldsFields_mergeFields {l : Layer} {xs xs' : Table Descriptor}
    {ys ys' : List (String × Descriptor)} : s.UnfoldsFields l xs xs' → s.UnfoldsFields l ys ys' →
    ∃ zs, s.UnfoldsFields l (mergeFields xs ys) zs
  | hx, .nil => by
      simp only [Resolution.mergeFields]
      exact ⟨_, hx⟩
  | hx, .cons name h hs => by
      have hget := hx.get? name
      simp only [Resolution.mergeFields]
      generalize xs.get? name = left, xs'.get? name = left' at hget
      cases hget with
      | none => exact exists_unfoldsFields_mergeFields (hx.put name h) hs
      | some hleft =>
        obtain ⟨_, hd⟩ := exists_unfolds_merge hleft h
        exact exists_unfoldsFields_mergeFields (hx.put name hd) hs

end

lemma not_unfolds_to_reference (h : s.Unfolds .older a s.reference) : False := by
  have hresult {d : Descriptor} (h : s.Unfolds .older d (.result (.ofStr s.key))) : False := by
    cases h with
    | result hold => exact s.key_new hold
  unfold reference Store.Results.reference at h
  cases h with
  | index _ _ h => exact hresult h
  | same _ _ h => exact hresult h

lemma index_ne_reference {t t' : Descriptor} {field : Value} {mark : Mark} (hl : l ≠ .any)
    (h : s.Unfolds l t t') : (Descriptor.index t field mark).same s.reference = false := by
  rw [Bool.eq_false_iff]
  intro heq
  rw [same_iff] at heq
  cases heq
  cases h with
  | result hkey =>
    cases l with
    | any => exact hl rfl
    | older => exact s.key_new hkey
    | later => exact hkey.1 rfl

lemma put_reference : s.put s.reference = s.output := by
  have hsame : s.reference.same s.reference = true := (same_iff _ _).mpr rfl
  unfold reference Store.Results.reference at hsame ⊢
  rw [put]
  exact if_pos hsame

lemma put_index {t t' : Descriptor} {field : Value} {mark : Mark} (hl : l ≠ .any)
    (h : s.Unfolds l t t') : s.put (.index t field mark) =
      if (s.put t).same t then .index t field mark else .index (s.put t) field .fresh := by
  simp [put, index_ne_reference hl h]

lemma put_index_of_put_eq {t t' : Descriptor} {field : Value} {mark : Mark} (hl : l ≠ .any)
    (h : s.Unfolds l t t') (ht : s.put t = t) :
    s.put (.index t field mark) = .index t field mark := by
  rw [put_index hl h, if_pos ((same_iff _ _).mpr ht)]

/-- There is nothing to put in: only older results are referred to, or both sides are the same. -/
def Plain (l : Layer) (same : Prop) : Prop := l = .older ∨ l = .later ∧ same

lemma Plain.ne_any {p : Prop} (h : Plain l p) : l ≠ .any := by
  rintro rfl
  rcases h with h | ⟨h, -⟩ <;> cases h

lemma Plain.imp {p q : Prop} (h : Plain l p) (hpq : p → q) : Plain l q :=
  h.imp_right (·.imp_right hpq)

mutual

/-- A descriptor without references to the output stays as it is. -/
theorem Unfolds.put_self {l : Layer} {a b : Descriptor} :
    s.Unfolds l a b → Plain l (a = b) → s.put a = a
  | .output h, hplain => by
      rcases hplain with hl | ⟨-, rfl⟩
      · cases hl
      · exact (not_unfolds_to_reference h).elim
  | .literal _, _ | .unknown, _ | .var _, _ | .ref _, _ | .result _, _ => rfl
  | .tuple h, hplain => congrArg _ (h.put_self (hplain.imp tuple.inj))
  | .record h, hplain => congrArg _ (h.put_self (hplain.imp record.inj))
  | .effect tag h, hplain => congrArg _ (h.put_self (hplain.imp fun heq => (effect.inj heq).2))
  | .index field mark h, hplain =>
      put_index_of_put_eq hplain.ne_any h (h.put_self (hplain.imp fun heq => (index.inj heq).1))
  | .same field mark h, hplain =>
      put_index_of_put_eq hplain.ne_any h (h.put_self (hplain.imp fun _ => rfl))
  | .inter h, hplain => congrArg _ (h.put_self (hplain.imp inter.inj))
  | .op name h, hplain => congrArg _ (h.put_self (hplain.imp fun heq => (op.inj heq).2))

theorem UnfoldsAll.put_self {l : Layer} {xs ys : List Descriptor} :
    s.UnfoldsAll l xs ys → Plain l (xs = ys) → s.putList xs = xs
  | .nil, _ => rfl
  | .cons h hs, hplain => by
      rw [putList, h.put_self (hplain.imp fun heq => (List.cons.inj heq).1),
        hs.put_self (hplain.imp fun heq => (List.cons.inj heq).2)]

theorem UnfoldsFields.put_self {l : Layer} {xs ys : List (String × Descriptor)} :
    s.UnfoldsFields l xs ys → Plain l (xs = ys) → s.putFields xs = xs
  | .nil, _ => rfl
  | .cons name h hs, hplain => by
      rw [putFields, h.put_self (hplain.imp fun heq => (Prod.mk.inj (List.cons.inj heq).1).2),
        hs.put_self (hplain.imp fun heq => (List.cons.inj heq).2)]

end

mutual

/-- With the output put in, only projections are made anew. -/
theorem Unfolds.put {a b : Descriptor} : s.Unfolds .later a b → s.Unfolds .any (s.put a) b
  | .output h => put_reference ▸ h.of_older
  | .literal v => .literal v
  | .unknown => .unknown
  | .tuple h => .tuple h.put
  | .record h => .record h.put_output
  | .effect tag h => .effect tag h.put
  | .var name => .var name
  | .ref name => .ref name
  | .result _ => .result trivial
  | .index field mark h => by
      have hput := h.put
      rw [put_index (l := .later) (by nofun) h]
      split
      · rename_i heq
        rw [(same_iff _ _).mp heq] at hput
        exact .index field mark hput
      · exact .index field _ hput
  | .same field mark h => by
      have hself : s.put _ = _ := h.put_self (.inr ⟨rfl, rfl⟩)
      have hput := h.put
      rw [put_index_of_put_eq (l := .later) (by nofun) h hself]
      rw [hself] at hput
      exact .same field mark hput
  | .inter h => .inter h.put
  | .op name h => .op name h.put

theorem UnfoldsAll.put {xs ys : List Descriptor} :
    s.UnfoldsAll .later xs ys → s.UnfoldsAll .any (s.putList xs) ys
  | .nil => .nil
  | .cons h hs => .cons h.put hs.put

theorem UnfoldsFields.put_output {xs ys : List (String × Descriptor)} :
    s.UnfoldsFields .later xs ys → s.UnfoldsFields .any (s.putFields xs) ys
  | .nil => .nil
  | .cons name h hs => .cons name h.put hs.put_output

end

lemma Unfolds.index_of_put {t t' d : Descriptor} {field : Value} {mark : Mark} (hl : l ≠ .any)
    (h : s.Unfolds l t t') (ht : ∀ {u}, s.Unfolds .any (s.put t) u → s.Unfolds l t u)
    (hd : s.Unfolds .any (s.put (.index t field mark)) d) :
    s.Unfolds l (.index t field mark) d := by
  rw [put_index hl h] at hd
  split at hd
  · rename_i hself
    rw [same_iff] at hself
    rw [hself] at ht
    cases hd with
    | index _ _ hd => exact .index field mark (ht hd)
    | same _ _ hd => exact .same field mark (ht hd)
  · cases hd with
    | index _ _ hd => exact .index field mark (ht hd)
    | same _ _ hd => exact .index field mark (ht hd)

mutual

/-- What only makes projections anew once the output is put in is what the descriptor unfolds to. -/
theorem Unfolds.of_put {l : Layer} (hl : l ≠ .any) {a b d : Descriptor} :
    s.Unfolds l a b → s.Unfolds .any (s.put a) d → s.Unfolds l a d
  | .output h, hd => by
      rw [put_reference] at hd
      refine .output (h.of_put (by nofun) ?_)
      rw [h.put_self (.inl rfl)]
      exact hd
  | .literal v, hd => by cases hd; exact .literal v
  | .unknown, hd => by cases hd; exact .unknown
  | .var name, hd => by cases hd; exact .var name
  | .ref name, hd => by cases hd; exact .ref name
  | .result h, hd => by cases hd; exact .result h
  | .tuple h, hd => by
      cases hd with
      | tuple hd => exact .tuple (h.of_put hl hd)
  | .record h, hd => by
      cases hd with
      | record hd => exact .record (h.of_put hl hd)
  | .effect tag h, hd => by
      cases hd with
      | effect _ hd => exact .effect tag (h.of_put hl hd)
  | .inter h, hd => by
      cases hd with
      | inter hd => exact .inter (h.of_put hl hd)
  | .op name h, hd => by
      cases hd with
      | op _ hd => exact .op name (h.of_put hl hd)
  | .index field mark h, hd => h.index_of_put hl (fun hd => h.of_put hl hd) hd
  | .same field mark h, hd => h.index_of_put hl (fun hd => h.of_put hl hd) hd

theorem UnfoldsAll.of_put {l : Layer} (hl : l ≠ .any) {xs ys ds : List Descriptor} :
    s.UnfoldsAll l xs ys → s.UnfoldsAll .any (s.putList xs) ds → s.UnfoldsAll l xs ds
  | .nil, hd => by cases hd; exact .nil
  | .cons h hs, hd => by
      cases hd with
      | cons hd hds => exact .cons (h.of_put hl hd) (hs.of_put hl hds)

theorem UnfoldsFields.of_put {l : Layer} (hl : l ≠ .any) {xs ys ds : List (String × Descriptor)} :
    s.UnfoldsFields l xs ys → s.UnfoldsFields .any (s.putFields xs) ds → s.UnfoldsFields l xs ds
  | .nil, hd => by cases hd; exact .nil
  | .cons name h hs, hd => by
      cases hd with
      | cons _ hd hds => exact .cons name (h.of_put hl hd) (hs.of_put hl hds)

end

/-- Merging unfolds alike where putting the output in before or after it makes no difference. -/
theorem Unfolds.merge_of_put {a' b' : Descriptor} (ha : s.Unfolds .later a a')
    (hb : s.Unfolds .later b b')
    (hput : s.put (Resolution.merge a b) = Resolution.merge (s.put a) (s.put b)) :
    s.Unfolds .later (Resolution.merge a b) (Resolution.merge a' b') := by
  obtain ⟨_, hmerged⟩ := exists_unfolds_merge ha hb
  refine hmerged.of_put (by nofun) ?_
  rw [hput]
  exact Unfolds.merge (by nofun) ha.put hb.put

lemma isJoined_put (hjoin : s.output.isJoined = false) (d : Descriptor) :
    (s.put d).isJoined = d.isJoined := by
  cases d with
  | index =>
    rw [put]
    split
    · exact hjoin
    · split <;> rfl
  | literal | unknown | tuple | record | effect | var | ref | result | inter | op => rfl

lemma merge_of_not_isJoined (left : Descriptor) {right : Descriptor} (h : right.isJoined = false) :
    merge left right = right := by
  cases right with
  | unknown | record => cases h
  | literal | tuple | effect | var | ref | result | index | inter | op => rfl

lemma merge_record_of_not_isJoined {left : Descriptor} (fields : List (String × Descriptor))
    (h : left.isJoined = false) : merge left (.record fields) = .record fields := by
  cases left with
  | unknown | record => cases h
  | literal | tuple | effect | var | ref | result | index | inter | op => simp only [merge]

lemma get?_putFields (fields : Table Descriptor) (name : String) :
    Table.get? (s.putFields fields) name = (fields.get? name).map s.put := by
  induction fields with
  | nil => rfl
  | cons entry rest ih =>
    obtain ⟨k, d⟩ := entry
    rw [putFields]
    by_cases hk : k = name
    · simp [Table.get?, hk]
    · simpa [Table.get?, hk] using ih

lemma putFields_put (fields : Table Descriptor) (name : String) (d : Descriptor) :
    s.putFields (fields.put name d) = Table.put (s.putFields fields) name (s.put d) := by
  induction fields with
  | nil => rfl
  | cons entry rest ih =>
    obtain ⟨k, e⟩ := entry
    by_cases hk : k = name
    · simp [Table.put, putFields, hk]
    · simp [Table.put, putFields, hk, ih]

mutual

/-- An output that merging does not look into can be put in before or after it. -/
theorem put_merge (hjoin : s.output.isJoined = false) (a : Descriptor) :
    (b : Descriptor) → s.put (merge a b) = merge (s.put a) (s.put b)
  | .unknown => rfl
  | .record ys => by
      cases hleft : a.isJoined with
      | false =>
        have hput : (s.put a).isJoined = false := (isJoined_put hjoin a).trans hleft
        rw [merge_record_of_not_isJoined ys hleft, put, merge_record_of_not_isJoined _ hput]
      | true =>
        cases a with
        | unknown => simp only [merge, put]
        | record xs => simp only [merge, put, put_mergeFields hjoin xs ys]
        | literal | tuple | effect | var | ref | result | index | inter | op => cases hleft
  | .index t field mark => by
      have hright : (s.put (.index t field mark)).isJoined = false :=
        (isJoined_put hjoin _).trans rfl
      rw [merge_of_not_isJoined (s.put a) hright, merge_of_not_isJoined a rfl]
  | .literal _ | .tuple _ | .effect _ _ | .var _ | .ref _ | .result _ | .inter _ | .op _ _ => rfl

theorem put_mergeFields (hjoin : s.output.isJoined = false) (xs : Table Descriptor) :
    (ys : List (String × Descriptor)) →
    s.putFields (mergeFields xs ys) = mergeFields (s.putFields xs) (s.putFields ys)
  | [] => by simp only [mergeFields, putFields]
  | (name, d) :: rest => by
      simp only [mergeFields, putFields, get?_putFields]
      cases xs.get? name with
      | none => rw [put_mergeFields hjoin _ rest, putFields_put, Option.map_none]
      | some left =>
        rw [put_mergeFields hjoin _ rest, putFields_put, put_merge hjoin left d, Option.map_some]

end

end Stored

end EffectTree
