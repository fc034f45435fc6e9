import Mathlib
import EffectTree.Proofs.LazyValues
import EffectTree.Proofs.Questions
import EffectTree.Proofs.RenderingDefects
import EffectTree.Proofs.Unfolding

/-!
# Resolution of unfolded descriptors

A descriptor and what it unfolds to have heads that unfold, decode to the same value and are written
as the same text, unless one of the searches runs into a limit, or something on the way tells the
reference from the output. The searches need not take the same steps: the first one has to find the
output, and a projection that finds itself on one side may take one more step on the other.
-/
namespace EffectTree

/-- Whether a fault is that of a limit on steps or on nesting. -/
def Fault.isLimit : Fault → Bool
  | .recursion | .unresolved _ | .depthExceeded _ => true
  | _ => false

def Resolution.Obstacle.isLimit : Resolution.Obstacle → Bool
  | .notLiteral => false
  | .fault e => e.isLimit

/-- Two computations have related outcomes or the same error, unless one of them runs into a
limit. -/
inductive Agree {ε α β : Type} (limit : ε → Bool) (R : α → β → Prop) :
    Except ε α → Except ε β → Prop
  | left {e : ε} {y : Except ε β} : limit e = true → Agree limit R (.error e) y
  | right {e : ε} {x : Except ε α} : limit e = true → Agree limit R x (.error e)
  | ok {a : α} {b : β} : R a b → Agree limit R (.ok a) (.ok b)
  | error (e : ε) : Agree limit R (.error e) (.error e)

namespace Agree

variable {ε α β γ δ : Type} {limit : ε → Bool} {R : α → β → Prop} {S : γ → δ → Prop}
variable {x : Except ε α} {y : Except ε β}

lemma bind {f : α → Except ε γ} {g : β → Except ε δ} (h : Agree limit R x y)
    (hfg : ∀ a b, R a b → Agree limit S (f a) (g b)) : Agree limit S (x >>= f) (y >>= g) := by
  cases h with
  | left he => exact .left he
  | right he => exact .right he
  | ok hab => exact hfg _ _ hab
  | error e => exact .error e

lemma map {f : α → γ} {g : β → δ} (h : Agree limit R x y) (hfg : ∀ a b, R a b → S (f a) (g b)) :
    Agree limit S (x.map f) (y.map g) := by
  cases h with
  | left he => exact .left he
  | right he => exact .right he
  | ok hab => exact .ok (hfg _ _ hab)
  | error e => exact .error e

lemma map_eq {x y : Except ε α} (h : Agree limit Eq x y) (f : α → γ) :
    Agree limit Eq (x.map f) (y.map f) :=
  h.map fun _ _ hab => congrArg f hab

lemma mono {R' : α → β → Prop} (h : Agree limit R x y) (hR : ∀ a b, R a b → R' a b) :
    Agree limit R' x y := by
  cases h with
  | left he => exact .left he
  | right he => exact .right he
  | ok hab => exact .ok (hR _ _ hab)
  | error e => exact .error e

lemma refl (x : Except ε α) {Q : α → α → Prop} (hQ : ∀ a, x = .ok a → Q a a) :
    Agree limit Q x x := by
  cases x with
  | ok a => exact .ok (hQ a rfl)
  | error e => exact .error e

end Agree

namespace Stored

open Descriptor Resolution

variable (s : Stored)

/-- Where heads are merged, the output can be put in before or after that. Where a reference to a
bare `Ref` is written, it is written like the `Ref`. -/
def IndistinctAt (r : Resolver) : Question → Prop
  | .head (.inter parts) => ∀ before part after acc head, parts = before ++ part :: after →
      r.merged before = .ok acc → r.head part = .ok head →
        s.put (merge acc head) = merge (s.put acc) (s.put head)
  | .text d => d = s.reference → ∀ name, s.output = .ref name → r.render d = r.render s.output
  | _ => True

/-- Nothing that a question leads to tells the reference from the output. -/
def Indistinct (r : Resolver) (q : Question) : Prop :=
  ∀ q', Relation.ReflTransGen r.Leads q q' → s.IndistinctAt r q'

/-- A question about a descriptor of some layer that does not tell the reference from the output;
among older results there is no reference. -/
structure Unnoticed (l : Layer) (r : Resolver) (q : Question) : Prop where
  layer : l ≠ .any
  indistinct : l = .later → s.Indistinct r q

variable {s} {l : Layer} {a b : Descriptor} {q q' : Question} {r r' : Resolver}

lemma Indistinct.leads (h : s.Indistinct r q) (hq : r.Leads q q') : s.Indistinct r q' :=
  fun q'' hlead => h q'' (.head hq hlead)

namespace Unnoticed

lemma of_older : s.Unnoticed .older r q where
  layer h := by cases h
  indistinct h := by cases h

lemma of_later (h : s.Indistinct r q) : s.Unnoticed .later r q where
  layer hany := by cases hany
  indistinct _ := h

lemma leads (h : s.Unnoticed l r q) (hq : r.Leads q q') : s.Unnoticed l r q' :=
  ⟨h.layer, fun hl => (h.indistinct hl).leads hq⟩

end Unnoticed

/-- Heads that unfold: a head that is a projection is the same on both sides, and none is an
intersection. -/
structure UnfoldsHead (s : Stored) (l : Layer) (a b : Descriptor) : Prop where
  unfolds : s.Unfolds l a b
  index : ∀ t field mark, a = .index t field mark → mark ≠ .fresh ∧ b = a
  inter : ∀ parts, a ≠ .inter parts

lemma UnfoldsHead.of_not_index (h : s.Unfolds l a b) (ha : ∀ t field mark, a ≠ .index t field mark)
    (hinter : ∀ parts, a ≠ .inter parts) : s.UnfoldsHead l a b :=
  ⟨h, fun t field mark heq => absurd heq (ha t field mark), hinter⟩

lemma UnfoldsHead.not_reference (h : s.UnfoldsHead l a b) : a ≠ s.reference :=
  fun heq => (h.index _ _ _ heq).1 rfl

lemma UnfoldsAll.mapM {ε α : Type} {limit : ε → Bool} {f g : Descriptor → Except ε α}
    {xs ys : List Descriptor} (h : s.UnfoldsAll l xs ys)
    (hfg : ∀ x ∈ xs, ∀ y, s.Unfolds l x y → Agree limit Eq (f x) (g y)) :
    Agree limit Eq (xs.mapM f) (ys.mapM g) := by
  induction xs generalizing ys with
  | nil =>
    cases h
    exact .ok rfl
  | cons x xs ih =>
    cases h with
    | cons hx hs =>
      rw [List.mapM_cons, List.mapM_cons]
      obtain ⟨hfirst, hrest⟩ := List.forall_mem_cons.mp hfg
      refine (hfirst _ hx).bind fun v w hvw => (ih hs hrest).bind fun vs ws hvws => ?_
      rw [hvw, hvws]
      exact .ok rfl

lemma UnfoldsFields.mapM {ε α : Type} {limit : ε → Bool} {f g : String × Descriptor → Except ε α}
    {xs ys : List (String × Descriptor)} (h : s.UnfoldsFields l xs ys)
    (hfg : ∀ entry ∈ xs, ∀ y, s.Unfolds l entry.2 y → Agree limit Eq (f entry) (g (entry.1, y))) :
    Agree limit Eq (xs.mapM f) (ys.mapM g) := by
  induction xs generalizing ys with
  | nil =>
    cases h
    exact .ok rfl
  | cons entry xs ih =>
    cases h with
    | cons name hx hs =>
      rw [List.mapM_cons, List.mapM_cons]
      obtain ⟨hfirst, hrest⟩ := List.forall_mem_cons.mp hfg
      refine (hfirst _ hx).bind fun v w hvw => (ih hs hrest).bind fun vs ws hvws => ?_
      rw [hvw, hvws]
      exact .ok rfl

lemma UnfoldsFields.pendingNames_eq {xs ys : Table Descriptor} (h : s.UnfoldsFields l xs ys)
    (hab : s.Unfolds l a b) : pendingNames xs a = pendingNames ys b := by
  simp only [pendingNames, hab.freeVars_eq, h.has_eq]

lemma UnfoldsFields.closeRounds {limit : Fault → Bool} {xs ys : Table Descriptor}
    (h : s.UnfoldsFields l xs ys) (rounds : Nat) (pending : List String) (hab : s.Unfolds l a b) :
    Agree limit (s.Unfolds l) (closeRounds xs rounds pending a)
      (closeRounds ys rounds pending b) := by
  induction rounds generalizing pending a b with
  | zero => exact .error _
  | succ rounds ih =>
    simp only [Resolution.closeRounds, hab.badVar?_eq, h.pendingNames_eq hab]
    split
    · exact .error _
    · split
      · exact .ok hab
      · exact ih _ (hab.substitute h)

lemma UnfoldsFields.closeOver {limit : Fault → Bool} {xs ys : Table Descriptor}
    (h : s.UnfoldsFields l xs ys) (hab : s.Unfolds l a b) :
    Agree limit (s.Unfolds l) (closeOver a xs) (closeOver b ys) := by
  rw [Resolution.closeOver, Resolution.closeOver, h.length_eq]
  exact h.closeRounds _ _ hab

lemma UnfoldsHead.project {limit : Fault → Bool} (h : s.UnfoldsHead l a b) (field : Value) :
    Agree limit (Option.Rel (s.Unfolds l)) (project a field) (project b field) := by
  cases h.unfolds with
  | output => exact absurd rfl h.not_reference
  | @record _ xs ys hfields =>
    simp only [Resolution.project]
    split
    · rename_i name mark
      have hget := hfields.get? name
      generalize Table.get? xs name = x, Table.get? ys name = y at hget
      cases hget with
      | none => exact .ok .none
      | some hxy => exact (hfields.closeOver hxy).map fun _ _ hab => .some hab
    · split
      · exact .error _
      · exact .ok .none
  | tuple hitems =>
    simp only [Resolution.project, hitems.length_eq]
    split
    · exact .ok (.some (.literal _))
    · split
      · exact .error _
      · exact .ok .none
      · split_ifs
        · exact .ok (hitems.getElem? _)
        · exact .ok .none
        · exact .ok (hitems.getElem? _)
        · exact .ok .none
  | literal | unknown | effect | var | ref | result | index | same | inter | op =>
    exact .ok .none

section Searches

variable {head head' : Descriptor → Except Fault Descriptor}
  (hfound : ∀ d found, head d = .ok found → r.head d = .ok found)
  (hhead : ∀ l a b, s.Unfolds l a b → s.Unnoticed l r (.head a) →
    Agree Fault.isLimit (s.UnfoldsHead l) (head a) (head' b))
include hfound hhead

lemma Unfolds.decodeWith (levels : Nat) (h : s.Unfolds l a b) (hq : s.Unnoticed l r (.value a)) :
    Agree Obstacle.isLimit Eq (decodeWith head levels a) (decodeWith head' levels b) := by
  induction levels generalizing a b with
  | zero => exact .error _
  | succ levels ih =>
    have hab := hhead l a b h (hq.leads (.found a))
    simp only [Resolution.decodeWith]
    generalize hx : head a = x, head' b = y at hab
    cases hab with
    | left he => exact .left he
    | right he => exact .right he
    | error e => exact .error _
    | ok hxy =>
      have hleads := hfound _ _ hx
      cases hxy.unfolds with
      | output => exact absurd rfl hxy.not_reference
      | literal v => exact .ok rfl
      | tuple hitems =>
        exact (hitems.mapM fun _ hitem _ h => ih h (hq.leads (.item hleads hitem))).map_eq _
      | record hfields =>
        refine (hfields.mapM fun entry hentry y _ => ?_).map_eq _
        have hfield := hq.leads (.field hleads hentry)
        exact (ih (.index _ _ (.record hfields)) hfield).map_eq _
      | unknown | effect | var | ref | result | index | same | inter | op => exact .error _

omit hfound hhead

/-- Steps to stable descriptors or to descriptors that unfold. -/
inductive UnfoldsStep (s : Stored) (l : Layer) : Step → Step → Prop
  | stable : UnfoldsStep s l .stable .stable
  | next {a b : Descriptor} : s.Unfolds l a b → UnfoldsStep s l (.next a) (.next b)

lemma whenDecoded_agree {α : Type} {x y : Except Obstacle α} {f g : α → Except Fault Step}
    (h : Agree Obstacle.isLimit Eq x y)
    (hfg : ∀ v, Agree Fault.isLimit (s.UnfoldsStep l) (f v) (g v)) :
    Agree Fault.isLimit (s.UnfoldsStep l) (whenDecoded x f) (whenDecoded y g) := by
  cases h with
  | @left e _ he =>
    cases e with
    | notLiteral => cases he
    | fault e => exact .left he
  | @right e _ he =>
    cases e with
    | notLiteral => cases he
    | fault e => exact .right he
  | error e =>
    cases e with
    | notLiteral => exact .ok .stable
    | fault e => exact .error e
  | ok hv =>
    subst hv
    exact hfg _

lemma outcomeStep_agree (operator : Operator) (name : Value) (values : List Value) :
    Agree Fault.isLimit (s.UnfoldsStep l) (outcomeStep operator name values)
      (outcomeStep operator name values) := by
  unfold outcomeStep
  split
  · rename_i d hd
    obtain ⟨v, -, hv⟩ := Except.bind_eq_ok.mp hd
    exact .ok (.next (.refl d (refersWithin_of_mentions (ofValue_mentions hv))))
  · exact .error _

include hfound hhead

lemma UnfoldsAll.conditionalStep {xs ys : List Descriptor} (h : s.UnfoldsAll l xs ys)
    (hq : ∀ x ∈ xs.take 1, s.Unnoticed l r (.value x)) :
    Agree Fault.isLimit (s.UnfoldsStep l) (conditionalStep (decodeWith head decodeLevels) xs)
      (conditionalStep (decodeWith head' decodeLevels) ys) := by
  match xs, ys, h with
  | [c, _, _], _, .cons hc (.cons hyes (.cons hno .nil)) =>
    have hcondition := hc.decodeWith hfound hhead decodeLevels (hq c (by simp))
    refine whenDecoded_agree hcondition fun v => .ok (.next ?_)
    split
    · exact hyes
    · exact hno
  | [], _, .nil | [_], _, .cons _ .nil | [_, _], _, .cons _ (.cons _ .nil)
  | _ :: _ :: _ :: _ :: _, _, .cons _ (.cons _ (.cons _ (.cons _ _))) => exact .error _

lemma UnfoldsAll.operatorStep {xs ys : List Descriptor} (h : s.UnfoldsAll l xs ys) (name : Value)
    (hq : ∀ x ∈ xs, s.Unnoticed l r (.value x)) :
    Agree Fault.isLimit (s.UnfoldsStep l) (operatorStep (decodeWith head decodeLevels) name xs)
      (operatorStep (decodeWith head' decodeLevels) name ys) := by
  unfold Resolution.operatorStep
  split
  · split
    · exact .error _
    · have hoperands := h.mapM fun x hx _ hxy =>
        hxy.decodeWith hfound hhead decodeLevels (hq x hx)
      exact whenDecoded_agree hoperands fun values => outcomeStep_agree _ _ values
  · split <;> exact .error _

end Searches

/-- The first resolver has the result in a slot; apart from its two keys, both have definitions that
refer to older results only, and slots that unfold. -/
structure Resolves (s : Stored) (r r' : Resolver) : Prop where
  definitions : r.definitions = r'.definitions
  refersBack : ∀ name d, Table.get? r.definitions name = some d → d.RefersWithin s.old
  output : Table.get? r.slots s.key = some (Store.Results.slot s.output)
  slots : ∀ l key, l ≠ .any → s.spares l (.ofStr key) →
    Option.Rel (s.Unfolds l) (Table.get? r.slots key) (Table.get? r'.slots key)

/-- How a step from the first descriptor goes together with one from the second: one of them comes
closer to the other, or both go on alike. -/
inductive Moves (s : Stored) (l : Layer) (a b : Descriptor) :
    Except Fault Step → Except Fault Step → Prop
  | left {x : Descriptor} {step' : Except Fault Step} :
      s.Unfolds l x b → Moves s l a b (.ok (.next x)) step'
  | right {step : Except Fault Step} {y : Descriptor} :
      s.Unfolds l a y → Moves s l a b step (.ok (.next y))
  | alike {step step' : Except Fault Step} : Agree Fault.isLimit (s.UnfoldsStep l) step step' →
      (step = .ok .stable → step' = .ok .stable → s.UnfoldsHead l a b) → Moves s l a b step step'

/-- The number of steps left on both sides together goes down, whichever side moves. -/
lemma iterate_agree {step step' : Descriptor → Except Fault Step} {limit limit' : Int}
    {Q : Descriptor → Prop} (hnext : ∀ a x, Q a → step a = .ok (.next x) → Q x)
    (hmoves : ∀ a b, s.Unfolds l a b → Q a → s.Moves l a b (step a) (step' b)) (m n : Nat)
    (hab : s.Unfolds l a b) (ha : Q a) :
    Agree Fault.isLimit (s.UnfoldsHead l) (iterate limit step m a) (iterate limit' step' n b) := by
  induction hk : m + n using Nat.strong_induction_on generalizing m n a b with
  | _ k ih =>
    match m, n with
    | 0, _ => exact .left rfl
    | _ + 1, 0 => exact .right rfl
    | m + 1, n + 1 =>
      have hab' := hmoves a b hab ha
      generalize hx : step a = x, hy : step' b = y at hab'
      cases hab' with
      | left h =>
        rw [iterate_next hx]
        exact ih (m + (n + 1)) (by omega) m (n + 1) h (hnext _ _ ha hx) rfl
      | right h =>
        rw [iterate_next hy]
        exact ih (m + 1 + n) (by omega) (m + 1) n h ha rfl
      | alike h hstable =>
        cases h with
        | left he =>
          rw [iterate_error hx]
          exact .left he
        | right he =>
          rw [iterate_error hy]
          exact .right he
        | error e =>
          rw [iterate_error hx, iterate_error hy]
          exact .error e
        | ok hsteps =>
          cases hsteps with
          | stable =>
            rw [iterate_stable hx, iterate_stable hy]
            exact .ok (hstable rfl rfl)
          | next h =>
            rw [iterate_next hx, iterate_next hy]
            exact ih (m + n) (by omega) m n h (hnext _ _ ha hx) rfl

lemma head_of_headAt {m : Nat} (hm : m ≤ r.nesting) {d found : Descriptor}
    (h : headAt r m d = .ok found) : r.head d = .ok found :=
  (headAt_kept (outgrows_self r) hm d).ok h

lemma step_of_headAt {m : Nat} (hm : m ≤ r.nesting) {d : Descriptor} {next : Step}
    (h : step r (headAt r m) d = .ok next) : step r r.head d = .ok next :=
  (step_kept (outgrows_self r) (headAt_kept (outgrows_self r) hm) d).ok h

section Steps

variable {m n : Nat} (hm : m ≤ r.nesting)
  (hhead : ∀ l a b, s.Unfolds l a b → s.Unnoticed l r (.head a) →
    Agree Fault.isLimit (s.UnfoldsHead l) (headAt r m a) (headAt r' n b))

/-- The search for the slot finds it or runs into a limit. -/
lemma headAt_result (hr : s.Resolves r r') (m : Nat) :
    headAt r m (.result (.ofStr s.key)) = .ok (Store.Results.slot s.output) ∨
      ∃ e, headAt r m (.result (.ofStr s.key)) = .error e ∧ e.isLimit = true := by
  have hfirst (head) : step r head (.result (.ofStr s.key)) =
      .ok (.next (Store.Results.slot s.output)) := by
    simp [step, named, Value.ofStr, hr.output, Except.map, Store.Results.slot]
  cases m with
  | zero => exact .inr ⟨_, rfl, rfl⟩
  | succ m =>
    rcases hsteps : r.maxSteps.toNat with _ | _ | k
    · exact .inr ⟨_, by rw [headAt, hsteps, iterate], rfl⟩
    · exact .inr ⟨_, by rw [headAt, hsteps, iterate_next (hfirst _), iterate], rfl⟩
    · left
      rw [headAt, hsteps, iterate_next (hfirst _)]
      exact iterate_stable rfl

/-- A reference expands to the output, or the search for it runs into a limit. -/
lemma step_reference (hr : s.Resolves r r') (m : Nat) :
    step r (headAt r m) s.reference = .ok (.next s.output) ∨
      ∃ e, step r (headAt r m) s.reference = .error e ∧ e.isLimit = true := by
  have hclose : closeOver s.output [("output", s.output)] = .ok s.output :=
    closeOver_of_not_declares s.badVar?_output fun name hname => by simp [s.closed] at hname
  have hproject : project (Store.Results.slot s.output) (.ofStr "output") =
      .ok (some s.output) := by
    simp [Store.Results.slot, project, Value.ofStr, Table.get?, hclose, Except.map]
  rcases headAt_result hr m with h | ⟨e, h, he⟩
  · left
    simp only [reference, Store.Results.reference, step, h]
    exact congrArg (Except.map (partStep _)) hproject
  · right
    refine ⟨e, ?_, he⟩
    simp only [reference, Store.Results.reference, step, h]
    rfl

lemma step_ref (hr : s.Resolves r r') (name : Value)
    {head head' : Descriptor → Except Fault Descriptor} :
    Agree Fault.isLimit (s.UnfoldsStep l) (step r head (.ref name))
      (step r' head' (.ref name)) := by
  simp only [step, ← hr.definitions]
  cases hnamed : named r.definitions .unknownDefinition name with
  | error e => exact .error e
  | ok target =>
    have htarget : target.RefersWithin s.old := by
      cases name with
      | str k mark =>
        simp only [named] at hnamed
        split at hnamed
        · rename_i hd
          cases hnamed
          exact hr.refersBack k target hd
        · cases hnamed
      | _ => simp only [named] at hnamed; split at hnamed <;> cases hnamed
    dsimp only
    split
    · exact .error _
    · exact .ok (.next (.refl target htarget))

lemma eq_of_isItself {d part : Descriptor} (h : isItself d part = true) : part = d := by
  cases d with
  | index target field mark => simpa [same_iff] using (Bool.and_eq_true_iff.mp h).2
  | result key => exact (same_iff _ _).mp h
  | literal | unknown | tuple | record | effect | var | ref | inter | op => cases h

/-- Parts that unfold are found by projections or references to results. Where one of them finds
itself and the other does not, the other one has found what it was to be compared with. -/
lemma partStep_moves {d d' : Descriptor} {x y : Except Fault (Option Descriptor)}
    (h : Agree Fault.isLimit (Option.Rel (s.Unfolds l)) x y)
    (hstable : ∀ part, isItself d' part = true → s.UnfoldsHead l d d') :
    s.Moves l d d' (x.map (partStep d)) (y.map (partStep d')) := by
  cases h with
  | left he => exact .alike (.left he) fun hstep => by cases hstep
  | right he => exact .alike (.right he) fun _ hstep => by cases hstep
  | error e => exact .alike (.error e) fun hstep => by cases hstep
  | ok hparts =>
    cases hparts with
    | none => exact .alike (.ok (.next .unknown)) fun hstep => by cases hstep
    | @some part part' hpart =>
      simp only [Except.map, partStep]
      split
      · rename_i hleft
        obtain rfl := eq_of_isItself hleft
        split
        · rename_i hright
          exact .alike (.ok .stable) fun _ _ => hstable _ hright
        · exact .right hpart
      · split
        · rename_i hright
          obtain rfl := eq_of_isItself hright
          exact .left hpart
        · exact .alike (.ok (.next hpart)) fun hstep => by cases hstep

lemma step_result (hr : s.Resolves r r') (hl : l ≠ .any) {key : Value} (hkey : s.spares l key)
    {head head' : Descriptor → Except Fault Descriptor} :
    s.Moves l (.result key) (.result key) (step r head (.result key))
      (step r' head' (.result key)) := by
  have hself : s.UnfoldsHead l (.result key) (.result key) :=
    .of_not_index (.result hkey) (by simp) (by simp)
  cases key with
  | str k mark =>
    have hslot := hr.slots l k hl (by cases l <;> exact hkey)
    simp only [step, named]
    generalize Table.get? r.slots k = x, Table.get? r'.slots k = y at hslot
    cases hslot with
    | none => exact .alike (.error _) fun hstep => by cases hstep
    | @some slot slot' h =>
      exact partStep_moves (x := .ok (some slot)) (y := .ok (some slot')) (.ok (.some h))
        fun _ _ => hself
  | _ =>
    refine .alike ?_ fun _ _ => hself
    simp only [step, named]
    split <;> exact .error _

include hm hhead in
lemma foldlM_merge_agree {before xs ys : List Descriptor} (h : s.UnfoldsAll l xs ys)
    (hab : s.Unfolds l a b) (hbefore : r.merged before = .ok a)
    (hq : s.Unnoticed l r (.head (.inter (before ++ xs)))) :
    Agree Fault.isLimit (s.Unfolds l)
      (xs.foldlM (fun merged part => (headAt r m part).map (merge merged)) a)
      (ys.foldlM (fun merged part => (headAt r' n part).map (merge merged)) b) := by
  induction xs generalizing before ys a b with
  | nil =>
    cases h
    exact .ok hab
  | cons x xs ih =>
    cases h with
    | @cons _ _ y _ ys hx hs =>
      have hxy := hhead l x y hx (hq.leads (.part (by simp)))
      rw [List.foldlM_cons, List.foldlM_cons]
      generalize hfound : headAt r m x = found, headAt r' n y = found' at hxy
      cases hxy with
      | left he => exact .left he
      | right he => exact .right he
      | error e => exact .error e
      | @ok head head' hhead =>
        have hpart := head_of_headAt hm hfound
        have hmerged : s.Unfolds l (merge a head) (merge b head') := by
          cases l with
          | any => exact absurd rfl hq.layer
          | older => exact Unfolds.merge (by nofun) hab hhead.unfolds
          | later =>
            refine hab.merge_of_put hhead.unfolds ?_
            exact hq.indistinct rfl _ .refl before x xs a head rfl hbefore hpart
        have hsofar : r.merged (before ++ [x]) = .ok (merge a head) := by
          have hlast : [x].foldlM (fun merged part => (r.head part).map (merge merged)) a =
              .ok (merge a head) := by
            rw [List.foldlM_cons, hpart]
            rfl
          unfold Resolver.merged at hbefore ⊢
          rw [List.foldlM_append, hbefore]
          exact hlast
        exact ih hs hmerged hsofar (by rwa [List.append_assoc])

include hm hhead in
lemma step_moves (hr : s.Resolves r r') (h : s.Unfolds l a b)
    (hq : s.Unnoticed l r (.head a)) :
    s.Moves l a b (step r (headAt r m) a) (step r' (headAt r' n) b) := by
  have hfound (d found) (h : headAt r m d = .ok found) : r.head d = .ok found :=
    head_of_headAt hm h
  cases h with
  | output h =>
    rcases step_reference hr m with hstep | ⟨e, hstep, he⟩ <;> rw [hstep]
    · exact .left h.of_older
    · exact .alike (.left he) fun hstep => by cases hstep
  | literal v =>
    exact .alike (.ok .stable) fun _ _ => .of_not_index (.literal v) (by simp) (by simp)
  | unknown => exact .alike (.ok .stable) fun _ _ => .of_not_index .unknown (by simp) (by simp)
  | tuple h => exact .alike (.ok .stable) fun _ _ => .of_not_index (.tuple h) (by simp) (by simp)
  | record h => exact .alike (.ok .stable) fun _ _ => .of_not_index (.record h) (by simp) (by simp)
  | effect tag h =>
    exact .alike (.ok .stable) fun _ _ => .of_not_index (.effect tag h) (by simp) (by simp)
  | var name => exact .alike (.ok .stable) fun _ _ => .of_not_index (.var name) (by simp) (by simp)
  | ref name =>
    exact .alike (step_ref hr name) fun _ _ => .of_not_index (.ref name) (by simp) (by simp)
  | result h => exact step_result hr hq.layer h
  | index field mark h =>
    have htarget := hhead _ _ _ h (hq.leads (.target _ _ _))
    refine partStep_moves (htarget.bind fun _ _ h => h.project field) fun part hpart => ?_
    simp [isItself] at hpart
  | same field mark h =>
    have htarget := hhead _ _ _ h (hq.leads (.target _ _ _))
    refine partStep_moves (htarget.bind fun _ _ h => h.project field) fun part hpart =>
      ⟨.same field mark h, ?_, by simp⟩
    rintro _ _ _ ⟨⟩
    exact ⟨of_decide_eq_true (Bool.and_eq_true_iff.mp hpart).1, rfl⟩
  | inter h =>
    have hnothing : r.merged [] = .ok .unknown := rfl
    have hmerged := foldlM_merge_agree hm hhead h .unknown hnothing hq
    refine .alike (hmerged.map fun _ _ => .next) fun heq => ?_
    obtain ⟨_, -, heq⟩ := Except.map_eq_ok.mp heq
    cases heq
  | @op _ name xs ys h =>
    refine .alike ?_ fun _ _ => .of_not_index (.op name h) (by simp) (by simp)
    have hoperands (x) (hx : x ∈ operands name xs) : s.Unnoticed l r (.value x) :=
      hq.leads (.operand hx)
    simp only [step]
    split
    · exact h.conditionalStep hfound hhead hoperands
    · rename_i hif
      refine h.operatorStep hfound hhead name fun x hx => hoperands x ?_
      unfold operands
      split
      · exact absurd rfl (hif _)
      · exact hx

end Steps

theorem headAt_agree (hr : s.Resolves r r') {m : Nat} (hm : m ≤ r.nesting) (n : Nat)
    (h : s.Unfolds l a b) (hq : s.Unnoticed l r (.head a)) :
    Agree Fault.isLimit (s.UnfoldsHead l) (headAt r m a) (headAt r' n b) := by
  induction m generalizing n l a b with
  | zero => exact .left rfl
  | succ m ih =>
    have hm' : m ≤ r.nesting := Nat.le_of_succ_le hm
    cases n with
    | zero => exact .right rfl
    | succ n =>
      refine iterate_agree (Q := fun a => s.Unnoticed l r (.head a)) (fun a x ha hx => ?_)
        (fun _ _ h hq => step_moves hm' (fun _ _ _ h hq => ih hm' n h hq) hr h hq) _ _ h hq
      exact ha.leads (.step (step_of_headAt hm' hx))

section Questions

variable (hr : s.Resolves r r')
include hr

lemma head_agree (h : s.Unfolds l a b) (hq : s.Unnoticed l r (.head a)) :
    Agree Fault.isLimit (s.UnfoldsHead l) (r.head a) (r'.head b) :=
  headAt_agree hr le_rfl _ h hq

lemma literalValue_agree (h : s.Unfolds l a b) (hq : s.Unnoticed l r (.value a)) :
    Agree Fault.isLimit Eq (r.literalValue a) (r'.literalValue b) := by
  have hdecode : Agree Obstacle.isLimit Eq (r.decode a) (r'.decode b) :=
    h.decodeWith (fun _ _ h => h) (fun _ _ _ h hq => head_agree hr h hq) decodeLevels hq
  unfold Resolver.literalValue
  generalize r.decode a = x, r'.decode b = y at hdecode
  cases hdecode with
  | @left e _ he =>
    cases e with
    | notLiteral => cases he
    | fault e => exact .left he
  | @right e _ he =>
    cases e with
    | notLiteral => cases he
    | fault e => exact .right he
  | error e =>
    cases e with
    | notLiteral => exact .ok rfl
    | fault e => exact .error e
  | ok hv => exact .ok hv

lemma effectOf_agree (h : s.Unfolds l a b) (hq : s.Unnoticed l r (.head a)) :
    Agree Fault.isLimit (fun x y => x.1 = y.1 ∧ s.UnfoldsAll l x.2 y.2) (r.effectOf a)
      (r'.effectOf b) := by
  refine (head_agree hr h hq).map fun x y hxy => ?_
  cases hxy.unfolds with
  | output => exact absurd rfl hxy.not_reference
  | effect tag hargs => exact ⟨rfl, hargs⟩
  | literal | unknown | tuple | record | var | ref | result | index | same | inter | op =>
    exact ⟨rfl, .nil⟩

lemma elementsOf_agree (h : s.Unfolds l a b) (hq : s.Unnoticed l r (.head a)) :
    Agree Fault.isLimit (Option.Rel (s.UnfoldsAll l)) (r.elementsOf a) (r'.elementsOf b) := by
  refine (head_agree hr h hq).map fun x y hxy => ?_
  cases hxy.unfolds with
  | output => exact absurd rfl hxy.not_reference
  | tuple hitems => exact .some hitems
  | literal | unknown | effect | record | var | ref | result | index | same | inter | op =>
    exact .none

lemma projectField_agree (h : s.Unfolds l a b) (hq : s.Unnoticed l r (.head a)) (field : Value)
    (hpart : ∀ head part, r.head a = .ok head → project head field = .ok (some part) →
      s.Unnoticed l r (.head part)) :
    Agree Fault.isLimit (Option.Rel (s.Unfolds l)) (r.projectField a field)
      (r'.projectField b field) := by
  have hhead := head_agree hr h hq
  unfold Resolver.projectField
  generalize hx : r.head a = x, r'.head b = y at hhead
  cases hhead with
  | left he => exact .left he
  | right he => exact .right he
  | error e => exact .error e
  | @ok head head' hhead =>
    have hparts : Agree Fault.isLimit (Option.Rel (s.Unfolds l)) (project head field)
        (project head' field) := hhead.project field
    change Agree _ _ (project head field >>= _) (project head' field >>= _)
    generalize hp : project head field = p, project head' field = p' at hparts
    cases hparts with
    | left he => exact .left he
    | right he => exact .right he
    | error e => exact .error e
    | ok hparts =>
      cases hparts with
      | none => exact .ok .none
      | @some part part' hunfolds =>
        exact (head_agree hr hunfolds (hpart head part hx hp)).bind fun _ _ hnext =>
          .ok (.some hnext.unfolds)

/-- What a continuation comes to for an input is a search like any other. -/
lemma specialize_agree {c c' x x' : Descriptor} (hc : s.Unfolds l c c') (hx : s.Unfolds l x x')
    (hq : s.Unnoticed l r (.head (.inter [c, .record [("input", x)]]))) :
    Agree Fault.isLimit (s.Unfolds l) (r.specialize c [("input", x)])
      (r'.specialize c' [("input", x')]) :=
  (head_agree hr (.inter (.cons hc (.cons (.record (.cons "input" hx .nil)) .nil))) hq).mono
    fun _ _ h => h.unfolds

end Questions

theorem Unfolds.eq_ref {name : Value} (h : s.Unfolds .older a (.ref name)) : a = .ref name := by
  cases h with
  | ref => rfl

theorem Unfolds.ref_right {name : Value} (h : s.Unfolds l (.ref name) b) : b = .ref name := by
  cases h with
  | ref => rfl

section Render

variable {render render' : Descriptor → Except Fault Value}

lemma UnfoldsAll.renderParts {xs ys : List Descriptor} (h : s.UnfoldsAll l xs ys)
    (hrender : ∀ x ∈ xs, ∀ y, s.Unfolds l x y → Agree Fault.isLimit Eq (render x) (render' y)) :
    Agree Fault.isLimit Eq (renderParts render xs) (renderParts render' ys) :=
  (h.mapM hrender).bind fun _ _ hparts => hparts ▸ .refl _ fun _ _ => rfl

lemma UnfoldsHead.renderHead (h : s.UnfoldsHead l a b)
    (hrender : ∀ x ∈ written a, ∀ y, s.Unfolds l x y →
      Agree Fault.isLimit Eq (render x) (render' y)) :
    Agree Fault.isLimit Eq (renderHead render a) (renderHead render' b) := by
  cases h.unfolds with
  | output => exact absurd rfl h.not_reference
  | literal v => exact .refl _ fun _ _ => rfl
  | unknown | ref | result => exact .ok rfl
  | var name => exact .refl _ fun _ _ => rfl
  | tuple hitems => exact (hitems.renderParts hrender).map_eq _
  | op name hargs => exact (hargs.renderParts hrender).map_eq _
  | inter => exact absurd rfl (h.inter _)
  | index | same =>
    rw [(h.index _ _ _ rfl).2]
    exact .ok rfl
  | record hfields =>
    cases hfields with
    | nil => exact .ok rfl
    | cons name hx hs =>
      refine ((UnfoldsFields.cons name hx hs).mapM fun entry hentry y hxy => ?_).map_eq _
      exact (hrender entry.2 (List.mem_map_of_mem hentry) y hxy).map_eq _
  | effect tag hargs =>
    cases hargs with
    | nil => exact .ok rfl
    | cons hx hs => exact ((UnfoldsAll.cons hx hs).renderParts hrender).map_eq _

end Render

/-- Among later results, references to a bare `Ref` are written like the `Ref`. -/
def BareAlike (s : Stored) (l : Layer) (r r' : Resolver) : Prop :=
  l = .later → ∀ m n name, m ≤ r.nesting → s.output = .ref name →
    s.Indistinct r (.text s.reference) →
      Agree Fault.isLimit Eq (renderAt r m [] s.reference) (renderAt r' n [] (.ref name))

/-- Texts agree where those of references to a bare `Ref` do; inside of definitions there are no
references to the output. -/
lemma renderAt_agree_of (hr : s.Resolves r r') {m : Nat} (hm : m ≤ r.nesting) (n : Nat)
    (seen : List Value) (hbare : s.BareAlike l r r') (h : s.Unfolds l a b)
    (hseen : l = .later → seen = []) (hq : s.Unnoticed l r (.text a)) :
    Agree Fault.isLimit Eq (renderAt r m seen a) (renderAt r' n seen b) := by
  induction m generalizing n seen l a b with
  | zero => exact .left rfl
  | succ m ih =>
    have hm' : m ≤ r.nesting := Nat.le_of_succ_le hm
    cases n with
    | zero => exact .right rfl
    | succ n =>
      have hgo {l : Layer} {a b : Descriptor} (seen : List Value) (hbare : s.BareAlike l r r')
          (hab : s.Unfolds l a b)
          (hseen : l = .later → seen = []) (hq : s.Unnoticed l r (.text a)) :
          Agree Fault.isLimit Eq ((r.head a).bind (renderHead (renderAt r m seen)))
            ((r'.head b).bind (renderHead (renderAt r' n seen))) := by
        have hhead := head_agree hr hab (hq.leads (.shown a))
        generalize hx : r.head a = x, r'.head b = y at hhead
        cases hhead with
        | left he => exact .left he
        | right he => exact .right he
        | error e => exact .error e
        | ok hxy =>
          refine hxy.renderHead fun part hpart y hunfolds => ?_
          exact ih hm' n seen hbare hunfolds hseen (hq.leads (.within hx hpart))
      by_cases ha : ∃ name, a = .ref name
      · obtain ⟨name, rfl⟩ := ha
        obtain rfl := h.ref_right
        cases hplace : surroundings seen (.ref name) with
        | error e =>
          simp only [renderAt, hplace]
          exact .error e
        | ok place =>
          cases place with
          | inl name =>
            simp only [renderAt, hplace]
            exact .ok rfl
          | inr seen =>
            rw [renderAt_of_inside hplace, renderAt_of_inside hplace]
            exact hgo (l := .older) seen (fun h => by cases h) (.ref name) (fun h => by cases h)
              .of_older
      · have ha' : ∀ name, a ≠ .ref name := fun name heq => ha ⟨name, heq⟩
        by_cases hb : ∃ name, b = .ref name
        · obtain ⟨name, rfl⟩ := hb
          cases h with
          | ref => exact absurd rfl (ha' name)
          | output houtput =>
            obtain rfl := hseen rfl
            exact hbare rfl (m + 1) (n + 1) name hm houtput.eq_ref (hq.indistinct rfl)
        · have hb' : ∀ name, b ≠ .ref name := fun name heq => hb ⟨name, heq⟩
          rw [renderAt_of_inside (surroundings_of_ne_ref ha'),
            renderAt_of_inside (surroundings_of_ne_ref hb')]
          exact hgo seen hbare h hseen hq

theorem render_agree (hr : s.Resolves r r') (h : s.Unfolds .later a b)
    (hq : s.Indistinct r (.text a)) : Agree Fault.isLimit Eq (r.render a) (r'.render b) := by
  refine renderAt_agree_of hr le_rfl _ [] (fun _ m n name hm hname hsame => ?_) h (fun _ => rfl)
    (.of_later hq)
  -- With all the room there is, the text of the reference is that of the `Ref`, which is older.
  have hself : s.Unfolds .older s.output (.ref name) := by
    rw [hname]
    exact .ref name
  have holder : Agree Fault.isLimit Eq (r.render s.output) (renderAt r' n [] (.ref name)) :=
    renderAt_agree_of hr le_rfl n [] (by nofun) hself (by nofun) .of_older
  have htext : r.render s.reference = r.render s.output := hsame _ .refl rfl name hname
  have hkept : Kept (· = .recursion) (renderAt r m [] s.reference) (r.render s.reference) := by
    apply renderAt_kept _ (fun _ => .same _) hm
    rfl
  rw [htext] at hkept
  generalize renderAt r m [] s.reference = x, r.render s.output = y at hkept holder
  cases hkept with
  | same => exact holder
  | lost y he =>
    subst he
    exact .left rfl

end Stored

end EffectTree
