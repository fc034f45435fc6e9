import Mathlib
import EffectTree.Proofs.Keys
import EffectTree.Proofs.UnfoldedResolution

/-!
# Leaf effects on unfolded descriptors

Two worlds of which the second has the output of a result wherever the first one refers to it. A
leaf effect in the first world and what it unfolds to in the second give the same key or stop in the
same way, and the worlds left behind unfold again, unless one of them runs into a limit. Nothing
that the effect asks may tell the reference from the output, nor may a handler that it calls.
-/
namespace EffectTree

namespace Evaluation

/-- Contexts that differ in nothing but what resolution finds, the results, the contents of the
cells and the depth. -/
structure Context.Resembles (c c' : Context) : Prop where
  cells : c'.cells.keys = c.cells.keys
  issued : c'.issued = c.issued
  effects : c'.effects = c.effects
  settings : c'.settings = c.settings
  argv : c'.argv = c.argv
  environ : c'.environ = c.environ
  input : c'.input = c.input
  files : c'.files = c.files
  fixtures : c'.fixtures = c.fixtures

/-- The descriptor that is to be stored. -/
def Request.descriptor? : Request → Option Descriptor
  | .addResult d | .addCell d | .setCell _ d => some d
  | _ => none

end Evaluation

/-- A handler that does not observe in what contexts differ that resemble each other, and whose
descriptors refer to results under some keys only. -/
structure Handler.Blind (keys : String → Prop) (handler : Handler) : Prop where
  same : ∀ args c c', c.Resembles c' → handler.call args c' = handler.call args c
  answer : ∀ args c d, (handler.call args c).answer = .ok (.descriptor d) → d.RefersWithin keys
  requests : ∀ args c request, request ∈ (handler.call args c).requests →
    ∀ d ∈ request.descriptor?, d.RefersWithin keys

namespace Evaluation

open Store Machine Resolution

/-- Cells with the same keys and contents that unfold. -/
abbrev UnfoldsCells (s : Stored) : List (Value × Descriptor) → List (Value × Descriptor) → Prop :=
  List.Forall₂ fun entry entry' => entry.1 = entry'.1 ∧ s.Unfolds .later entry.2 entry'.2

/-- The second world is the first with the output of a result in the place of references to it. The
depths may differ, and so may what has been written. -/
structure World.Unfolds (s : Stored) (w w' : World) : Prop where
  resolver : s.Resolves w.resolver w'.resolver
  results : ∀ key, key ≠ s.key → key ≠ s.spare →
    Option.Rel (s.Unfolds .later) (w.results.get? key) (w'.results.get? key)
  cells : UnfoldsCells s w.cells.entries w'.cells.entries
  issued : w'.issued = w.issued
  fresh : ∀ n > w.issued, keyText n ≠ s.key ∧ keyText n ≠ s.spare
  notOld : ∀ n > w.issued, keyText n ∉ w.results.keys → ¬ s.old (keyText n)
  registry : w'.registry = w.registry
  settings : w'.settings = w.settings
  argv : w'.argv = w.argv
  environ : w'.environ = w.environ
  input : w'.input = w.input
  files : w'.files = w.files
  fixtures : w'.fixtures = w.fixtures

variable {α β γ δ : Type} {s : Stored} {w w' : World}

/-- A machine ends by running into a limit. -/
def Limited (x : EStateM.Result Stop World α) : Prop :=
  ∃ e w, x = .error (.fault e) w ∧ e.isLimit = true

/-- Two machines end alike in worlds that unfold, unless one of them is limited. -/
inductive Follows (s : Stored) (R : α → β → Prop) :
    EStateM.Result Stop World α → EStateM.Result Stop World β → Prop
  | left {x : EStateM.Result Stop World α} {y : EStateM.Result Stop World β} :
      Limited x → Follows s R x y
  | right {x : EStateM.Result Stop World α} {y : EStateM.Result Stop World β} :
      Limited y → Follows s R x y
  | ok {a : α} {b : β} {w w' : World} : R a b → w.Unfolds s w' → Follows s R (.ok a w) (.ok b w')
  | stop (cause : Stop) {w w' : World} :
      w.Unfolds s w' → Follows s R (.error cause w) (.error cause w')

/-- Two machines that only look at their worlds end alike, unless one of them is limited. -/
inductive Sees (R : α → β → Prop) (w w' : World) :
    EStateM.Result Stop World α → EStateM.Result Stop World β → Prop
  | left {x : EStateM.Result Stop World α} {y : EStateM.Result Stop World β} :
      Limited x → Sees R w w' x y
  | right {x : EStateM.Result Stop World α} {y : EStateM.Result Stop World β} :
      Limited y → Sees R w w' x y
  | ok {a : α} {b : β} : R a b → Sees R w w' (.ok a w) (.ok b w')
  | stop (cause : Stop) : Sees R w w' (.error cause w) (.error cause w')

lemma Limited.bind {m : Machine α} {f : α → Machine β} (h : Limited (m w)) :
    Limited ((m >>= f) w) := by
  obtain ⟨e, w₁, hm, he⟩ := h
  exact ⟨e, w₁, bind_of_error hm, he⟩

lemma Limited.fail {e : Fault} (he : e.isLimit = true) : Limited ((fail e : Machine α) w) :=
  ⟨e, w, rfl, he⟩

namespace Follows

variable {R : α → β → Prop} {S : γ → δ → Prop}

lemma bind {m : Machine α} {m' : Machine β} {f : α → Machine γ} {g : β → Machine δ}
    (h : Follows s R (m w) (m' w'))
    (hf : ∀ a b w₁ w₁', R a b → w₁.Unfolds s w₁' → Follows s S (f a w₁) (g b w₁')) :
    Follows s S ((m >>= f) w) ((m' >>= g) w') := by
  generalize hx : m w = x, hy : m' w' = y at h
  cases h with
  | left h => exact .left (Limited.bind (hx ▸ h))
  | right h => exact .right (Limited.bind (hy ▸ h))
  | ok hab hw =>
    rw [bind_of_ok hx, bind_of_ok hy]
    exact hf _ _ _ _ hab hw
  | stop cause hw =>
    rw [bind_of_error hx, bind_of_error hy]
    exact .stop cause hw

lemma mono {R' : α → β → Prop} {x : EStateM.Result Stop World α} {y : EStateM.Result Stop World β}
    (h : Follows s R x y) (hR : ∀ a b, R a b → R' a b) : Follows s R' x y := by
  cases h with
  | left h => exact .left h
  | right h => exact .right h
  | ok hab hw => exact .ok (hR _ _ hab) hw
  | stop cause hw => exact .stop cause hw

end Follows

namespace Sees

variable {R : α → β → Prop} {S : γ → δ → Prop} {m : Machine α} {m' : Machine β}

lemma andThen {f : α → Machine γ} {g : β → Machine δ} (h : Sees R w w' (m w) (m' w'))
    (hw : w.Unfolds s w') (hf : ∀ a b, R a b → Follows s S (f a w) (g b w')) :
    Follows s S ((m >>= f) w) ((m' >>= g) w') := by
  generalize hx : m w = x, hy : m' w' = y at h
  cases h with
  | left h => exact .left (Limited.bind (hx ▸ h))
  | right h => exact .right (Limited.bind (hy ▸ h))
  | ok hab =>
    rw [bind_of_ok hx, bind_of_ok hy]
    exact hf _ _ hab
  | stop cause =>
    rw [bind_of_error hx, bind_of_error hy]
    exact .stop cause hw

lemma bind {f : α → Machine γ} {g : β → Machine δ} (h : Sees R w w' (m w) (m' w'))
    (hf : ∀ a b, R a b → Sees S w w' (f a w) (g b w')) :
    Sees S w w' ((m >>= f) w) ((m' >>= g) w') := by
  generalize hx : m w = x, hy : m' w' = y at h
  cases h with
  | left h => exact .left (Limited.bind (hx ▸ h))
  | right h => exact .right (Limited.bind (hy ▸ h))
  | ok hab =>
    rw [bind_of_ok hx, bind_of_ok hy]
    exact hf _ _ hab
  | stop cause =>
    rw [bind_of_error hx, bind_of_error hy]
    exact .stop cause

lemma mono {R' : α → β → Prop} {x : EStateM.Result Stop World α} {y : EStateM.Result Stop World β}
    (h : Sees R w w' x y) (hR : ∀ a b, R a b → R' a b) : Sees R' w w' x y := by
  cases h with
  | left h => exact .left h
  | right h => exact .right h
  | ok hab => exact .ok (hR _ _ hab)
  | stop cause => exact .stop cause

lemma lift {x : Except Fault α} {y : Except Fault β} (h : Agree Fault.isLimit R x y) :
    Sees R w w' (Machine.lift x w) (Machine.lift y w') := by
  cases h with
  | left he => exact .left (.fail he)
  | right he => exact .right (.fail he)
  | ok hab => exact .ok hab
  | error e => exact .stop _

lemma lift_same (x : Except Fault α) :
    Sees Eq w w' (Machine.lift x w) (Machine.lift x w') :=
  lift (.refl x fun _ _ => rfl)

lemma mapM {f : α → Machine γ} {g : β → Machine δ} {xs : List α} {ys : List β}
    (h : List.Forall₂ (fun x y => Sees S w w' (f x w) (g y w')) xs ys) :
    Sees (List.Forall₂ S) w w' (xs.mapM f w) (ys.mapM g w') := by
  induction h with
  | nil => exact .ok .nil
  | cons hxy _ ih =>
    rw [List.mapM_cons, List.mapM_cons]
    exact hxy.bind fun v v' hv => ih.bind fun vs vs' hvs => .ok (.cons hv hvs)

lemma mapM_eq {f : α → Machine γ} {g : β → Machine γ} {xs : List α} {ys : List β}
    (h : List.Forall₂ (fun x y => Sees Eq w w' (f x w) (g y w')) xs ys) :
    Sees Eq w w' (xs.mapM f w) (ys.mapM g w') := by
  have hall := mapM h
  rwa [List.forall₂_eq_eq_eq] at hall

end Sees

/-- A key that both worlds give out. -/
def SharedKey (s : Stored) (key key' : String) : Prop := key = key' ∧ key ≠ s.key ∧ key ≠ s.spare

section Storing

variable {a b : Descriptor}

lemma get?_put_rel {l : Stored.Layer} {t t' : Table Descriptor} {key : String}
    (h : s.Unfolds l a b) {k : String} (hk : Option.Rel (s.Unfolds l) (t.get? k) (t'.get? k)) :
    Option.Rel (s.Unfolds l) ((t.put key a).get? k) ((t'.put key b).get? k) := by
  by_cases heq : k = key
  · subst heq
    rw [Table.get?_put_self, Table.get?_put_self]
    exact .some h
  · rw [Table.get?_put_ne _ _ heq, Table.get?_put_ne _ _ heq]
    exact hk

lemma slot_unfolds (h : s.Unfolds .later a b) :
    s.Unfolds .later (Results.slot a) (Results.slot b) :=
  .record (.cons "output" h .nil)

lemma World.Unfolds.has_eq (hw : w.Unfolds s w') {key : String} (hkey : key ≠ s.key)
    (hspare : key ≠ s.spare) : key ∈ w'.results.keys ↔ key ∈ w.results.keys := by
  have hresults := hw.results key hkey hspare
  have hmem (results : Store.Results) : key ∈ results.keys ↔ (results.get? key).isSome :=
    Table.get?_isSome.symm
  rw [hmem, hmem]
  generalize w.results.get? key = x, w'.results.get? key = y at hresults
  cases hresults <;> rfl

lemma World.Unfolds.nextUnused_eq (hw : w.Unfolds s w') : w'.nextUnused = w.nextUnused :=
  nextUnused_congr hw.issued fun n hn => hw.has_eq (hw.fresh n hn).1 (hw.fresh n hn).2

lemma World.mem_keys_addResult {key : String} (h : key ∈ w.results.keys) :
    key ∈ (w.addResult a).2.results.keys := by
  have hkeys : (w.addResult a).2.results.keys = w.results.keys ++ [keyText w.nextUnused] := by
    simp [addResult, Results.add, Results.keys, Table.keys]
  rw [hkeys]
  exact List.mem_append_left _ h

lemma World.Unfolds.addResult (hw : w.Unfolds s w') (h : s.Unfolds .later a b) :
    (w.addResult a).2.Unfolds s (w'.addResult b).2 := by
  have hlt := w.issued_lt_nextUnused
  obtain ⟨hkey, hspare⟩ := hw.fresh _ hlt
  have hnew := hw.notOld _ hlt w.nextUnused_notMem
  have hresolver : s.Resolves (w.addResult a).2.resolver (w'.addResult b).2.resolver := by
    refine ⟨hw.resolver.definitions, hw.resolver.refersBack, ?_, fun l key hl hspares => ?_⟩
    · exact (Table.get?_put_ne _ _ hkey.symm).trans hw.resolver.output
    · change Option.Rel (s.Unfolds l) (Table.get? (Table.put w.resolver.slots _ _) key)
        (Table.get? (Table.put w'.resolver.slots _ _) key)
      have hold := hw.resolver.slots l key hl hspares
      rw [hw.nextUnused_eq]
      cases l with
      | any => exact absurd rfl hl
      | later => exact get?_put_rel (slot_unfolds h) hold
      | older =>
        have hne : key ≠ keyText w.nextUnused := by
          rintro rfl
          exact hnew hspares
        rwa [Table.get?_put_ne _ _ hne, Table.get?_put_ne _ _ hne]
  have hresults : ∀ key, key ≠ s.key → key ≠ s.spare →
      Option.Rel (s.Unfolds .later) ((w.addResult a).2.results.get? key)
        ((w'.addResult b).2.results.get? key) := by
    intro key hne hne'
    have hold := hw.results key hne hne'
    change Option.Rel (s.Unfolds .later) (Table.get? (w.results.entries ++ _) key)
      (Table.get? (w'.results.entries ++ _) key)
    rw [hw.nextUnused_eq, Table.get?_append, Table.get?_append]
    simp only [Results.get?] at hold
    generalize Table.get? w.results.entries key = x, Table.get? w'.results.entries key = y at hold
    cases hold with
    | some hxy => exact .some hxy
    | none =>
      have hlast : s.UnfoldsFields .later [(keyText w.nextUnused, a)] [(keyText w.nextUnused, b)] :=
        .cons _ h .nil
      rw [Option.none_or, Option.none_or]
      exact hlast.get? key
  exact { hw with
    resolver := hresolver
    results := hresults
    issued := hw.nextUnused_eq
    fresh := fun n hn => hw.fresh n (hlt.trans hn)
    notOld := fun n hn hfresh =>
      hw.notOld n (hlt.trans hn) fun hmem => hfresh (World.mem_keys_addResult hmem) }

lemma store_follows (hw : w.Unfolds s w') (h : s.Unfolds .later a b) :
    Follows s (SharedKey s) (store a w) (store b w') := by
  obtain ⟨hkey, hspare⟩ := hw.fresh _ w.issued_lt_nextUnused
  exact .ok ⟨congrArg keyText hw.nextUnused_eq.symm, hkey, hspare⟩ (hw.addResult h)

lemma yielding_follows (hw : w.Unfolds s w') (h : s.Unfolds .later a b) :
    Follows s (Option.Rel (SharedKey s)) (yielding a w) (yielding b w') :=
  (store_follows hw h).bind fun _ _ _ _ hkey hw => .ok (.some hkey) hw

end Storing

section Cells

variable {a b : Descriptor} {entries entries' : List (Value × Descriptor)} {cells cells' : Cells}

lemma UnfoldsCells.putEntry (h : UnfoldsCells s entries entries') (key : Value)
    (hab : s.Unfolds .later a b) :
    UnfoldsCells s (Cells.putEntry key a entries) (Cells.putEntry key b entries') := by
  induction h with
  | nil => exact .cons ⟨rfl, hab⟩ .nil
  | @cons entry entry' rest rest' hentry hrest ih =>
    simp only [Cells.putEntry, hentry.1]
    split
    · exact .cons ⟨rfl, hab⟩ hrest
    · exact .cons ⟨rfl, hentry.2⟩ ih

lemma UnfoldsCells.erase (h : UnfoldsCells s cells.entries cells'.entries) (key : Value) :
    UnfoldsCells s (cells.erase key).entries (cells'.erase key).entries := by
  obtain ⟨entries⟩ := cells
  obtain ⟨entries'⟩ := cells'
  dsimp only [Cells.erase] at h ⊢
  induction h with
  | nil => exact .nil
  | @cons entry entry' rest rest' hentry hrest ih =>
    simp only [List.filter_cons, hentry.1]
    split
    · exact .cons hentry ih
    · exact ih

lemma UnfoldsCells.get? (h : UnfoldsCells s cells.entries cells'.entries) (key : Value) :
    Option.Rel (s.Unfolds .later) (cells.get? key) (cells'.get? key) := by
  obtain ⟨entries⟩ := cells
  obtain ⟨entries'⟩ := cells'
  dsimp only [Cells.get?] at h ⊢
  induction h with
  | nil => exact .none
  | @cons entry entry' rest rest' hentry hrest ih =>
    simp only [List.find?_cons, hentry.1]
    split
    · exact .some hentry.2
    · exact ih

lemma UnfoldsCells.get (h : UnfoldsCells s cells.entries cells'.entries) (key : Value) :
    Agree Fault.isLimit (s.Unfolds .later) (cells.get key) (cells'.get key) := by
  have hget := h.get? key
  unfold Cells.get
  split
  · exact .error _
  · generalize cells.get? key = x, cells'.get? key = y at hget
    cases hget with
    | none => exact .error _
    | some h => exact .ok h

lemma UnfoldsCells.set {limit : Fault → Bool} (h : UnfoldsCells s cells.entries cells'.entries)
    (key : Value) (hab : s.Unfolds .later a b) :
    Agree limit (fun x y => UnfoldsCells s x.entries y.entries) (cells.set key a)
      (cells'.set key b) :=
  (Agree.refl key.requireHashable fun _ _ => rfl).map fun _ _ (_ : _ = _) => h.putEntry key hab

lemma UnfoldsCells.delete {limit : Fault → Bool} (h : UnfoldsCells s cells.entries cells'.entries)
    (key : Value) :
    Agree limit (fun x y => UnfoldsCells s x.2.entries y.2.entries) (cells.delete key)
      (cells'.delete key) := by
  have hempty : cells.entries = [] ↔ cells'.entries = [] := by
    rw [← List.length_eq_zero_iff, ← List.length_eq_zero_iff, h.length_eq]
  simp only [Cells.delete, List.isEmpty_iff, hempty]
  split
  · exact .ok h
  · exact (Agree.refl key.requireHashable fun _ _ => rfl).map fun _ _ (_ : _ = _) => h.erase key

lemma UnfoldsCells.keys_eq (h : UnfoldsCells s cells.entries cells'.entries) :
    cells'.keys = cells.keys := by
  obtain ⟨entries⟩ := cells
  obtain ⟨entries'⟩ := cells'
  dsimp only [Cells.keys] at h ⊢
  induction h with
  | nil => rfl
  | cons hentry _ ih => rw [List.map_cons, List.map_cons, hentry.1, ih]

namespace World.Unfolds

lemma note (hw : w.Unfolds s w') (e e' : Event) : (w.note e).Unfolds s (w'.note e') := { hw with }

lemma addCell (hw : w.Unfolds s w') (h : s.Unfolds .later a b) :
    (w.addCell a).2.Unfolds s (w'.addCell b).2 := by
  have hcells : UnfoldsCells s (w.addCell a).2.cells.entries (w'.addCell b).2.cells.entries := by
    change UnfoldsCells s (Cells.putEntry _ a w.cells.entries) (Cells.putEntry _ b w'.cells.entries)
    rw [hw.issued]
    exact hw.cells.putEntry _ h
  exact { hw with
    cells := hcells
    issued := congrArg (· + 1) hw.issued
    fresh := fun n hn => hw.fresh n (Nat.lt_of_succ_lt hn)
    notOld := fun n hn => hw.notOld n (Nat.lt_of_succ_lt hn) }

lemma changeCells (hw : w.Unfolds s w') {x y : Except Fault Cells}
    (h : Agree (fun _ => false) (fun x y => UnfoldsCells s x.entries y.entries) x y) :
    (w.changeCells x).Unfolds s (w'.changeCells y) := by
  cases h with
  | left he => cases he
  | right he => cases he
  | ok hcells => exact { hw with cells := hcells }
  | error e => exact hw

lemma changeRegistry (hw : w.Unfolds s w') (name source : Value) :
    (w.changeRegistry (w.registry.define name source)).Unfolds s
      (w'.changeRegistry (w'.registry.define name source)) := by
  rw [hw.registry]
  cases w.registry.define name source with
  | error e => exact hw
  | ok defined => exact { hw with registry := rfl }

/-- The contexts differ only as resembling ones do. -/
lemma context (hw : w.Unfolds s w') : w.context.Resembles w'.context where
  cells := hw.cells.keys_eq
  issued := hw.issued
  effects := congrArg Registry.names hw.registry
  settings := hw.settings
  argv := hw.argv
  environ := hw.environ
  input := hw.input
  files := hw.files
  fixtures := hw.fixtures

/-- What a handler asks for is done in both worlds, with the same descriptors. -/
lemma fulfil (hw : w.Unfolds s w') {request : Request}
    (hrequest : ∀ d ∈ request.descriptor?, d.RefersWithin s.old) :
    (w.fulfil request).Unfolds s (w'.fulfil request) := by
  cases request with
  | output | diagnostic => exact hw.note _ _
  | addResult d => exact hw.addResult (.refl d (hrequest d rfl))
  | addCell d => exact hw.addCell (.refl d (hrequest d rfl))
  | setCell key d => exact hw.changeCells (hw.cells.set key (.refl d (hrequest d rfl)))
  | deleteCell key => exact hw.changeCells ((hw.cells.delete key).map fun _ _ h => h)
  | define name source => exact hw.changeRegistry name source
  | readLine =>
    have hinput : w'.input.read w'.settings.timeout = w.input.read w.settings.timeout := by
      rw [hw.input, hw.settings]
    exact { hw with input := congrArg Prod.snd hinput }
  | files files => exact { hw with files := rfl }

end World.Unfolds

end Cells

section Leaves

variable {a b : Descriptor} {a? b? c? d? : Option Descriptor} {xs ys : List Descriptor}
variable (hw : w.Unfolds s w')

/-- None of the questions tells the reference from the output. -/
abbrev Indistinct (s : Stored) (w : World) (qs : List Question) : Prop :=
  ∀ q ∈ qs, s.Indistinct w.resolver q

lemma UnfoldsAll.forall₂ {P : Descriptor → Prop} {R : Descriptor → Descriptor → Prop}
    (h : s.UnfoldsAll .later xs ys) (hxs : ∀ x ∈ xs, P x)
    (hR : ∀ x y, s.Unfolds .later x y → P x → R x y) : List.Forall₂ R xs ys := by
  induction xs generalizing ys with
  | nil =>
    cases h
    exact .nil
  | cons x xs ih =>
    cases h with
    | cons hx hs =>
      obtain ⟨hfirst, hrest⟩ := List.forall_mem_cons.mp hxs
      exact .cons (hR x _ hx hfirst) (ih hs hrest)

include hw

lemma literal_sees (h : s.Unfolds .later a b) (hq : s.Indistinct w.resolver (.value a)) :
    Sees (fun v v' => v = v' ∧ w.resolver.literalValue a = .ok v) w w' (literal a w)
      (literal b w') := by
  have hvalue := Stored.literalValue_agree hw.resolver h (.of_later hq)
  change Sees _ w w' (lift (w.resolver.literalValue a) w) (lift (w'.resolver.literalValue b) w')
  generalize w.resolver.literalValue a = x, w'.resolver.literalValue b = y at hvalue ⊢
  cases hvalue with
  | left he => exact .left (.fail he)
  | right he => exact .right (.fail he)
  | ok hv => exact .ok ⟨hv, rfl⟩
  | error e => exact .stop _

lemma render_sees (h : s.Unfolds .later a b) (hq : s.Indistinct w.resolver (.text a)) :
    Sees Eq w w' (render a w) (render b w') :=
  .lift (Stored.render_agree hw.resolver h hq)

lemma literalOf_sees (h : Option.Rel (s.Unfolds .later) a? b?)
    (hq : Indistinct s w (a?.toList.map .value)) :
    Sees Eq w w' (literalOf a? w) (literalOf b? w') := by
  cases h with
  | none => exact .ok rfl
  | @some a b h =>
    exact (literal_sees hw h (hq _ (by simp))).mono fun _ _ hv => hv.1

omit hw in
lemma value_mem_textQuestions (r : Resolver) (d : Descriptor) :
    Question.value d ∈ textQuestions r d := by
  unfold textQuestions
  split <;> simp

omit hw in
lemma text_mem_textQuestions {r : Resolver} {d : Descriptor} {v : Value}
    (hv : r.literalValue d = .ok v) (hnot : ∀ text marks, v ≠ .str text marks) :
    Question.text d ∈ textQuestions r d := by
  unfold textQuestions
  rw [hv]
  split
  · rename_i heq
    cases heq
  · rename_i heq
    exact absurd (Except.ok.inj heq) (hnot _ _)
  · simp

lemma textOf_sees (h : s.Unfolds .later a b) (hq : Indistinct s w (textQuestions w.resolver a)) :
    Sees Eq w w' (textOf a w) (textOf b w') := by
  refine (literal_sees hw h (hq _ (value_mem_textQuestions _ _))).bind fun v v' ⟨hv, hliteral⟩ => ?_
  subst hv
  split
  · exact .ok rfl
  · rename_i hnot
    exact render_sees hw h (hq _ (text_mem_textQuestions hliteral hnot))

omit hw in
lemma valueOrNull_unfolds (h : Option.Rel (s.Unfolds .later) a? b?) :
    s.Unfolds .later (valueOrNull a?) (valueOrNull b?) := by
  cases h with
  | none => exact .literal _
  | some h => exact h

lemma optionalText_sees (h : Option.Rel (s.Unfolds .later) a? b?)
    (hq : Indistinct s w (a?.toList.flatMap (textQuestions w.resolver))) :
    Sees Eq w w' (optionalText a? w) (optionalText b? w') := by
  cases h with
  | none => exact .ok rfl
  | some h => exact textOf_sees hw h (by simpa using hq)

lemma renderOr_sees (absent : String) (h : Option.Rel (s.Unfolds .later) a? b?)
    (hq : Indistinct s w (a?.toList.map .text)) :
    Sees Eq w w' (renderOr absent a? w) (renderOr absent b? w') := by
  cases h with
  | none => exact .ok rfl
  | some h => exact render_sees hw h (hq _ (by simp))

lemma raise_follows (h : Option.Rel (s.Unfolds .later) a? b?)
    (hq : Indistinct s w (a?.toList.flatMap fun d => [.value d, .text d])) :
    Follows s (Option.Rel (SharedKey s)) (raise a? w) (raise b? w') := by
  cases h with
  | none => exact .stop _ hw
  | some h =>
    refine (literal_sees hw h (hq _ (by simp))).andThen hw fun v v' hv => ?_
    refine (render_sees hw h (hq _ (by simp))).andThen hw fun x y hxy => ?_
    obtain ⟨rfl, -⟩ := hv
    subst hxy
    exact .stop _ hw

lemma writeOutput_follows (v : Value) :
    Follows s Eq (writeOutput v w) (writeOutput v w') := by
  unfold writeOutput
  split
  · exact .ok rfl (hw.note _ _)
  · exact .stop _ hw

lemma putString_follows (h : Option.Rel (s.Unfolds .later) a? b?)
    (hq : Indistinct s w (a?.toList.flatMap (textQuestions w.resolver))) :
    Follows s (Option.Rel (SharedKey s)) (putString a? w) (putString b? w') := by
  cases h with
  | none => exact .ok .none hw
  | some h =>
    refine (textOf_sees hw h (by simpa using hq)).andThen hw fun v v' hv => ?_
    subst hv
    exact (writeOutput_follows hw v).bind fun _ _ _ _ _ hw => .ok .none hw

lemma debug_follows (h : Option.Rel (s.Unfolds .later) a? b?)
    (h' : Option.Rel (s.Unfolds .later) c? d?)
    (hq : Indistinct s w (a?.toList.flatMap (textQuestions w.resolver) ++ c?.toList.map .text)) :
    Follows s (Option.Rel (SharedKey s)) (debug a? c? w) (debug b? d? w') := by
  have hlabel := optionalText_sees hw h fun q hmem => hq q (List.mem_append_left _ hmem)
  have htext := renderOr_sees hw "undefined" h' fun q hmem => hq q (List.mem_append_right _ hmem)
  refine hlabel.andThen hw fun _ _ _ => htext.andThen hw fun x y hxy => ?_
  subst hxy
  exact yielding_follows (hw.note _ _) (.literal _)

lemma pathOf_sees (opcode : String) (h : Option.Rel (s.Unfolds .later) a? b?)
    (hq : Indistinct s w (a?.toList.flatMap (textQuestions w.resolver))) :
    Sees Eq w w' (pathOf opcode a? w) (pathOf opcode b? w') := by
  cases h with
  | none => exact .stop _
  | @some a b h =>
    have hquestions : Indistinct s w (textQuestions w.resolver a) := by simpa using hq
    refine (literal_sees hw h (hquestions _ (value_mem_textQuestions _ _))).bind
      fun v v' ⟨hv, hliteral⟩ => ?_
    subst hv
    split
    · exact .ok rfl
    · rename_i hnot
      refine (render_sees hw h (hquestions _ (text_mem_textQuestions hliteral hnot))).bind
        fun x y hxy => ?_
      subst hxy
      exact .stop _

lemma readFile_follows (h : Option.Rel (s.Unfolds .later) a? b?)
    (hq : Indistinct s w (a?.toList.flatMap (textQuestions w.resolver))) :
    Follows s (Option.Rel (SharedKey s)) (readFile a? w) (readFile b? w') := by
  refine (pathOf_sees hw "ReadFile" h hq).andThen hw fun path path' hpath => ?_
  subst hpath
  rw [get_bind, get_bind, hw.files]
  refine (Sees.lift_same _).andThen hw fun text text' htext => ?_
  subst htext
  exact yielding_follows hw (.literal _)

lemma writeText_follows (path : FilePath) (contents : Value) :
    Follows s (Option.Rel (SharedKey s)) (writeText path contents w)
      (writeText path contents w') := by
  unfold writeText
  split
  · rw [get_bind, get_bind, hw.files]
    refine (Sees.lift_same _).andThen hw fun files files' hfiles => ?_
    subst hfiles
    have hwritten : World.Unfolds s { w with files } { w' with files } := { hw with files := rfl }
    have hmodified : Follows s Eq ((modify fun w => { w with files } : Machine Unit) w)
        ((modify fun w => { w with files } : Machine Unit) w') := .ok rfl hwritten
    refine hmodified.bind fun _ _ _ _ _ hw => ?_
    cases Text.unencodable? _ with
    | some text => exact .stop _ hw
    | none => exact .ok .none hw
  · exact .stop _ hw

lemma writeFile_follows (h : Option.Rel (s.Unfolds .later) a? b?)
    (h' : Option.Rel (s.Unfolds .later) c? d?)
    (hq : Indistinct s w (a?.toList.flatMap (textQuestions w.resolver) ++
      c?.toList.flatMap (textQuestions w.resolver))) :
    Follows s (Option.Rel (SharedKey s)) (writeFile a? c? w) (writeFile b? d? w') := by
  have hpath := pathOf_sees hw "WriteFile" h fun q hmem => hq q (List.mem_append_left _ hmem)
  have htext := optionalText_sees hw h' fun q hmem => hq q (List.mem_append_right _ hmem)
  refine hpath.andThen hw fun path path' hpath => htext.andThen hw fun text text' htext => ?_
  subst hpath htext
  exact writeText_follows hw path text

lemma readLine_follows :
    Follows s (Option.Rel (SharedKey s)) (readLine w) (readLine w') := by
  rw [readLine_eq]
  have hread : w'.input.read w'.settings.timeout = w.input.read w.settings.timeout := by
    rw [hw.input, hw.settings]
  have htaken : Follows s Eq (takeLine w) (takeLine w') :=
    .ok (congrArg Prod.fst hread.symm) { hw with input := congrArg Prod.snd hread }
  refine htaken.bind fun line? line?' w₁ w₁' hline hw₁ => ?_
  subst hline
  cases line? with
  | none => exact .stop _ hw₁
  | some answer =>
    refine (Sees.lift_same answer).andThen hw₁ fun text text' htext => ?_
    subst htext
    exact yielding_follows hw₁ (.literal _)

lemma environment_follows (name : Value) :
    Follows s (Option.Rel (SharedKey s)) (environment name w) (environment name w') := by
  unfold environment
  rw [get_bind, get_bind, hw.environ]
  exact yielding_follows hw (.literal _)

/-- The descriptor of a value refers to no result, so it is the same in both worlds. -/
lemma described_follows (v : Value) :
    Follows s (Option.Rel (SharedKey s))
      ((lift (Descriptor.describe v) >>= fun d => yielding d : Machine _) w)
      ((lift (Descriptor.describe v) >>= fun d => yielding d : Machine _) w') := by
  cases hd : Descriptor.describe v with
  | error e => exact .stop _ hw
  | ok d =>
    have hself : s.Unfolds .later d d :=
      .refl d (Stored.refersWithin_of_mentions (Descriptor.describe_mentions hd))
    exact yielding_follows hw hself

lemma expression_follows (source : Value) :
    Follows s (Option.Rel (SharedKey s)) (expression source w) (expression source w') := by
  refine (Sees.lift_same _).andThen hw fun compiled compiled' hcompiled => ?_
  subst hcompiled
  refine (Sees.lift_same _).andThen hw fun value value' hvalue => ?_
  subst hvalue
  exact described_follows hw value

lemma define_follows (name source : Value) :
    Follows s (Option.Rel (SharedKey s)) (define name source w) (define name source w') := by
  rw [define_eq]
  have hlisted : Follows s Eq (enlist name source w) (enlist name source w') := by
    refine .ok ?_ (hw.changeRegistry name source)
    rw [hw.registry]
  refine hlisted.bind fun outcome outcome' w₁ w₁' houtcome hw₁ => ?_
  subst houtcome
  exact (Sees.lift_same outcome).andThen hw₁ fun _ _ _ => .ok .none hw₁

omit hw in
lemma refersWithin_texts (keys : String → Prop) (texts : List String) :
    (Descriptor.tuple (texts.map fun text => .literal (.ofStr text))).RefersWithin keys := by
  refine Stored.refersWithin_of_mentions (List.eq_nil_iff_forall_not_mem.mpr fun m hm => ?_)
  obtain ⟨d, hd, hm⟩ := Descriptor.mem_mentions_tuple.mp hm
  obtain ⟨text, -, rfl⟩ := List.mem_map.mp hd
  cases hm

theorem runLeaf_follows (effect : Leaf) (h : s.UnfoldsAll .later xs ys)
    (hq : Indistinct s w (effect.questions w.resolver xs)) :
    Follows s (Option.Rel (SharedKey s)) (runLeaf effect xs w) (runLeaf effect ys w') := by
  cases effect with
  | produce => exact yielding_follows hw (valueOrNull_unfolds (h.getElem? 0))
  | raise => exact raise_follows hw (h.getElem? 0) hq
  | createCell =>
    have hcreated : Follows s Eq
        ((modifyGet fun w => w.addCell (valueOrNull xs[0]?) : Machine String) w)
        ((modifyGet fun w => w.addCell (valueOrNull ys[0]?) : Machine String) w') :=
      .ok (congrArg (fun n => keyText (n + 1)) hw.issued.symm)
        (hw.addCell (valueOrNull_unfolds (h.getElem? 0)))
    refine hcreated.bind fun key key' w₁ w₁' hkey hw₁ => ?_
    subst hkey
    exact yielding_follows hw₁ (.literal _)
  | readCell =>
    refine (literalOf_sees hw (h.getElem? 0) hq).andThen hw fun key key' hkey => ?_
    subst hkey
    exact (Sees.lift (hw.cells.get key)).andThen hw fun _ _ h => yielding_follows hw h
  | writeCell =>
    refine (literalOf_sees hw (h.getElem? 0) hq).andThen hw fun key key' hkey => ?_
    subst hkey
    have hset : Agree Fault.isLimit _ _ _ :=
      hw.cells.set key (valueOrNull_unfolds (h.getElem? 1))
    exact (Sees.lift hset).andThen hw fun _ _ hcells => .ok .none { hw with cells := hcells }
  | deleteCell =>
    refine (literalOf_sees hw (h.getElem? 0) hq).andThen hw fun key key' hkey => ?_
    subst hkey
    have hdelete : Agree Fault.isLimit _ _ _ := hw.cells.delete key
    exact (Sees.lift hdelete).andThen hw fun _ _ hcells => .ok .none { hw with cells := hcells }
  | print =>
    have hparts : Sees Eq w w' (xs.mapM render w) (ys.mapM render w') :=
      .mapM_eq (UnfoldsAll.forall₂ h (fun x hx => hq _ (List.mem_map_of_mem hx))
        fun _ _ hxy hx => render_sees hw hxy hx)
    refine hparts.andThen hw fun _ _ _ => ?_
    exact .ok .none (hw.note _ _)
  | putString => exact putString_follows hw (h.getElem? 0) hq
  | debug => exact debug_follows hw (h.getElem? 0) (h.getElem? 1) hq
  | readFile => exact readFile_follows hw (h.getElem? 0) hq
  | writeFile => exact writeFile_follows hw (h.getElem? 0) (h.getElem? 1) hq
  | readLine => exact readLine_follows hw
  | environment =>
    refine (literalOf_sees hw (h.getElem? 0) hq).andThen hw fun name name' hname => ?_
    subst hname
    exact environment_follows hw name
  | arguments =>
    change Follows s _ ((get >>= fun w => yielding _ : Machine _) w) _
    rw [runLeaf, get_bind, get_bind, hw.argv]
    exact yielding_follows hw (.refl _ (refersWithin_texts _ w.argv))
  | exit =>
    refine (literalOf_sees hw (h.getElem? 0) hq).andThen hw fun v v' hv => ?_
    subst hv
    refine (Sees.lift_same _).andThen hw fun code code' hcode => ?_
    subst hcode
    exact .stop _ hw
  | define =>
    have hname := literalOf_sees hw (h.getElem? 0) fun q hmem =>
      hq q (List.mem_append_left _ hmem)
    have hsource := literalOf_sees hw (h.getElem? 1) fun q hmem =>
      hq q (List.mem_append_right _ hmem)
    refine hname.andThen hw fun name name' hname => ?_
    refine hsource.andThen hw fun source source' hsource => ?_
    subst hname hsource
    exact define_follows hw name source
  | expression =>
    refine (literalOf_sees hw (h.getElem? 0) hq).andThen hw fun source source' hsource => ?_
    subst hsource
    exact expression_follows hw source

end Leaves

end Evaluation

end EffectTree
