import EffectTree.Proofs.Discipline
import EffectTree.Proofs.GrowingResolution
import Mathlib.Order.WellFounded

/-!
# Nested searches

A search takes a limited number of steps, each of which asks for the heads of finitely many other
descriptors. So a search that does not end however deep searches nest asks for a head that is not
found either. Resolution ends unless searches can be held inside each other for ever.
-/
namespace EffectTree

abbrev Heads := Descriptor → Except Fault Descriptor

/-- A computation that asks for heads one after another, and ends where a search for one of them
nests too deeply. -/
inductive Asking {ε α : Type} (raise : Fault → ε) : (Heads → Except ε α) → Prop
  | done {x : Except ε α} (h : x ≠ .error (raise .recursion)) : Asking raise fun _ => x
  | ask (d : Descriptor) (next : Except Fault Descriptor → Heads → Except ε α)
      (hlost : ∀ head, next (.error .recursion) head = .error (raise .recursion))
      (hnext : ∀ answer, answer ≠ .error .recursion → Asking raise (next answer)) :
      Asking raise fun head => next (head d) head

namespace Asking

variable {ε α β : Type} {raise : Fault → ε} {Φ : Heads → Except ε α}

theorem ok (a : α) : Asking raise fun _ => .ok a := .done (by simp)

theorem error {e : ε} (h : e ≠ raise .recursion) : Asking raise fun _ => (.error e : Except ε α) :=
  .done fun heq => h (Except.error.inj heq)

theorem constant (hsame : ∀ head head', Φ head = Φ head')
    (hne : ∀ head, Φ head ≠ .error (raise .recursion)) :
    Asking raise Φ := by
  have hconstant : Φ = fun _ => Φ fun _ => .ok .unknown := funext fun head => hsame _ _
  rw [hconstant]
  exact .done (hne _)

theorem single (d : Descriptor) : Asking id fun head : Heads => head d :=
  .ask d (fun answer _ => answer) (fun _ => rfl) fun _ hanswer => .done hanswer

theorem bind {Ψ : α → Heads → Except ε β} (hΦ : Asking raise Φ) (hΨ : ∀ a, Asking raise (Ψ a)) :
    Asking raise fun head => Φ head >>= fun a => Ψ a head := by
  induction hΦ with
  | @done x h =>
    cases x with
    | ok a => exact hΨ a
    | error e => exact .error fun heq => h (congrArg Except.error heq)
  | ask d next hlost hnext ih =>
    exact .ask d (fun answer head => next answer head >>= fun a => Ψ a head)
      (fun head => by rw [hlost]; rfl) ih

theorem map (hΦ : Asking raise Φ) (f : α → β) : Asking raise fun head => (Φ head).map f := by
  have heq : (fun head => (Φ head).map f) = fun head => Φ head >>= fun a => .ok (f a) := by
    funext head
    cases Φ head <;> rfl
  rw [heq]
  exact hΦ.bind fun a => .ok (f a)

theorem mapM {f : Heads → α → Except ε β} (hf : ∀ a, Asking raise fun head => f head a)
    (xs : List α) :
    Asking raise fun head => xs.mapM (f head) := by
  induction xs with
  | nil => exact .ok []
  | cons a xs ih =>
    simp only [List.mapM_cons]
    exact (hf a).bind fun y => ih.bind fun ys => .ok (y :: ys)

theorem foldlM {f : Heads → β → α → Except ε β} (hf : ∀ b a, Asking raise fun head => f head b a)
    (xs : List α) (b : β) : Asking raise fun head => xs.foldlM (f head) b := by
  induction xs generalizing b with
  | nil => exact .ok b
  | cons a xs ih =>
    simp only [List.foldlM_cons]
    exact (hf b a).bind fun b' => ih b'

end Asking

namespace Resolution

theorem unhashable_ne_recursion (v : Value) : Fault.unhashable v ≠ .recursion := Fault.noConfusion

theorem named_ne_recursion (missing : Value → Fault) (hmissing : ∀ v, missing v ≠ .recursion)
    (table : Table Descriptor) (name : Value) : named table missing name ≠ .error .recursion := by
  unfold named
  (repeat' split) <;> simp [hmissing, unhashable_ne_recursion]

theorem project_ne_recursion (d : Descriptor) (field : Value) :
    project d field ≠ .error .recursion := by
  intro h
  have hfaults := Discipline.project_faults d field
  rw [h] at hfaults
  rcases hfaults with hvalues | ⟨names, hnames⟩
  · exact Bool.false_ne_true hvalues
  · cases hnames

theorem outcomeStep_ne_recursion (operator : Operator) (name : Value) (values : List Value) :
    outcomeStep operator name values ≠ .error .recursion := by
  have h : OfValues (operator.apply values >>= Descriptor.ofValue) :=
    .bind (Operator.apply_ofValues operator values) Descriptor.ofValue_ofValues
  unfold outcomeStep
  split
  · simp
  · rename_i e he
    intro hrecursion
    split at hrecursion
    · cases hrecursion
    · cases hrecursion
      exact Bool.false_ne_true (h.of_error he)

def decodeFound (head : Heads) (levels : Nat) : Except Fault Descriptor → Except Obstacle Value
  | .error e => .error (.fault e)
  | .ok (.literal v) => .ok v
  | .ok (.tuple items) => (items.mapM (decodeWith head levels)).map .ofList
  | .ok (.record fields) =>
      (fields.mapM fun entry =>
        (decodeWith head levels (.index (.record fields) (.ofStr entry.1) .fresh)).map fun v =>
          (Value.ofStr entry.1, v)).map .ofDict
  | .ok _ => .error .notLiteral

theorem decodeWith_succ (head : Heads) (levels : Nat) (d : Descriptor) :
    decodeWith head (levels + 1) d = decodeFound head levels (head d) := by
  rw [decodeWith]
  unfold decodeFound
  rfl

theorem decodeWith_asking (levels : Nat) (d : Descriptor) :
    Asking Obstacle.fault fun head => decodeWith head levels d := by
  induction levels generalizing d with
  | zero => exact .error (by simp)
  | succ levels ih =>
    simp only [decodeWith_succ]
    refine .ask d (fun answer head => decodeFound head levels answer) (fun _ => rfl)
      fun answer hanswer => ?_
    cases answer with
    | error e => exact .error fun h => hanswer (congrArg Except.error (Obstacle.fault.inj h))
    | ok found =>
      cases found with
      | tuple items => exact (Asking.mapM ih items).map _
      | record fields => exact (Asking.mapM (fun entry => (ih _).map _) fields).map _
      | literal v => exact .ok v
      | unknown | effect | var | ref | result | index | inter | op => exact .error (by simp)

theorem whenDecoded_asking {α : Type} {decoded : Heads → Except Obstacle α}
    {next : α → Except Fault Step} (h : Asking Obstacle.fault decoded)
    (hnext : ∀ a, next a ≠ .error .recursion) :
    Asking id fun head => whenDecoded (decoded head) next := by
  induction h with
  | @done x h =>
    cases x with
    | ok a => exact .done (hnext a)
    | error e =>
      cases e with
      | notLiteral => exact .ok Step.stable
      | fault e => exact .error fun heq => h (congrArg (Except.error ∘ Obstacle.fault) heq)
  | ask d rest hlost hrest ih =>
    exact .ask d (fun answer head => whenDecoded (rest answer head) next)
      (fun head => by rw [hlost]; rfl) ih

section Operators

variable {decode : Heads → Descriptor → Except Obstacle Value}
  (hdecode : ∀ d, Asking Obstacle.fault fun head => decode head d)
include hdecode

theorem conditionalStep_asking (args : List Descriptor) :
    Asking id fun head => conditionalStep (decode head) args := by
  match args with
  | [condition, _, _] => exact whenDecoded_asking (hdecode condition) fun _ => by simp
  | [] | [_] | [_, _] | _ :: _ :: _ :: _ :: _ => exact .error (by simp)

theorem operatorStep_asking (name : Value) (args : List Descriptor) :
    Asking id fun head => operatorStep (decode head) name args := by
  cases name with
  | str s mark =>
    cases hname : Operator.ofName? s with
    | none =>
      simp only [operatorStep, hname]
      exact .error (by simp)
    | some operator =>
      simp only [operatorStep, hname]
      exact whenDecoded_asking (Asking.mapM hdecode args) (outcomeStep_ne_recursion _ _)
  | _ =>
    simp only [operatorStep]
    refine .done ?_
    split <;> simp [unhashable_ne_recursion]

end Operators

/-- One step asks for the heads of the parts of a descriptor or of what it decodes. -/
theorem step_asking (r : Resolver) (d : Descriptor) : Asking id fun head => step r head d := by
  cases d with
  | ref name =>
    have hnamed := named_ne_recursion .unknownDefinition (fun _ => Fault.noConfusion)
      r.definitions name
    simp only [step]
    refine .done ?_
    split
    · rename_i e he
      rw [he] at hnamed
      exact fun h => hnamed (congrArg Except.error (Except.error.inj h))
    · split <;> simp
  | result key =>
    exact (Asking.done
      (named_ne_recursion .unknownSlot (fun _ => Fault.noConfusion) r.slots key)).map _
  | index target field mark =>
    exact ((Asking.single target).bind fun found => .done (project_ne_recursion found field)).map _
  | inter parts =>
    exact (Asking.foldlM (fun merged part => (Asking.single part).map _) parts _).map _
  | op name args =>
    by_cases hif : ∃ mark, name = .str "if" mark
    · obtain ⟨mark, rfl⟩ := hif
      simp only [step]
      exact conditionalStep_asking (decodeWith_asking _) args
    · have hother : (fun head => step r head (.op name args)) =
          fun head => operatorStep (decodeWith head decodeLevels) name args := by
        funext head
        simp only [step]
        split
        · exact absurd ⟨_, rfl⟩ hif
        · rfl
      rw [hother]
      exact operatorStep_asking (decodeWith_asking _) name args
  | literal | unknown | tuple | record | effect | var => exact .ok Step.stable

theorem iterate_succ (limit : Int) (step : Descriptor → Except Fault Step) (n : Nat)
    (d : Descriptor) :
    iterate limit step (n + 1) d = step d >>= fun
      | .stable => .ok d
      | .next d' => iterate limit step n d' := by
  rw [iterate]
  rcases step d with e | (_ | d') <;> rfl

/-- The search for the head of a descriptor, with given answers to the searches inside of it. -/
def search (r : Resolver) (head : Heads) (d : Descriptor) : Except Fault Descriptor :=
  iterate r.maxSteps (step r head) r.maxSteps.toNat d

theorem headAt_succ (r : Resolver) (n : Nat) (d : Descriptor) :
    headAt r (n + 1) d = search r (headAt r n) d := rfl

/-- A search takes finitely many steps, so it asks for finitely many heads. -/
theorem search_asking (r : Resolver) (d : Descriptor) : Asking id fun head => search r head d := by
  unfold search
  generalize r.maxSteps.toNat = n
  induction n generalizing d with
  | zero => exact .error (by simp)
  | succ n ih =>
    simp only [iterate_succ]
    refine (step_asking r d).bind fun outcome => ?_
    cases outcome with
    | stable => exact .ok d
    | next d' => exact ih d'

end Resolution

/-- With all other answers that are known, whatever else is answered, the computation does not go on
without the head of the descriptor. -/
def Needs {ε α : Type} (raise : Fault → ε) (Φ : Heads → Except ε α) (known : Heads)
    (d : Descriptor) : Prop :=
  ∀ head : Heads, head d = .error .recursion →
    (∀ e ≠ d, known e ≠ .error .recursion → head e = known e) →
    Φ head = .error (raise .recursion)

theorem Kept.of_ne {x y : Except Fault Descriptor} (h : Kept (· = .recursion) x y)
    (hx : x ≠ .error .recursion) :
    y = x :=
  h.eq_of_not_lost fun _ he hlost => hx (he.trans (congrArg Except.error hlost))

/-- While more and more heads are found, a computation either ends some time or needs one that is
never found. -/
theorem Asking.ends_or_needs {ε α : Type} {raise : Fault → ε} {Φ : Heads → Except ε α}
    (h : Asking raise Φ) {heads : ℕ → Heads}
    (hgrow : ∀ n m, n ≤ m → ∀ d, Kept (· = .recursion) (heads n d) (heads m d)) :
    (∃ n, ∀ m ≥ n, Φ (heads m) ≠ .error (raise .recursion)) ∨
      ∃ d, (∀ n, heads n d = .error .recursion) ∧ ∃ n, Needs raise Φ (heads n) d := by
  induction h with
  | done h => exact .inl ⟨0, fun _ _ => h⟩
  | ask d next hlost _ ih =>
    by_cases hfound : ∃ n, heads n d ≠ .error .recursion
    · obtain ⟨n, hn⟩ := hfound
      have hlater {m : ℕ} (hm : n ≤ m) : heads m d = heads n d := (hgrow n m hm d).of_ne hn
      rcases ih (heads n d) hn with ⟨k, hk⟩ | ⟨e, he, k, hneeds⟩
      · refine .inl ⟨max n k, fun m hm => ?_⟩
        change next (heads m d) (heads m) ≠ _
        rw [hlater (by omega)]
        exact hk m (by omega)
      · refine .inr ⟨e, he, max n k, fun head hhead hknown => ?_⟩
        have hne : d ≠ e := by
          rintro rfl
          exact hn (he n)
        have hd : head d = heads n d := by
          rw [hknown d hne (by rw [hlater (by omega)]; exact hn), hlater (by omega)]
        change next (head d) head = _
        rw [hd]
        refine hneeds head hhead fun x hx hxk => ?_
        have hx' : heads (max n k) x = heads k x := (hgrow k _ (by omega) x).of_ne hxk
        rw [hknown x hx (by rw [hx']; exact hxk), hx']
    · simp only [not_exists, not_not] at hfound
      refine .inr ⟨d, hfound, 0, fun head hhead _ => ?_⟩
      change next (head d) head = _
      rw [hhead]
      exact hlost head

namespace Resolver

open Resolution

variable {r : Resolver} {d e : Descriptor}

/-- The search for the head of the first descriptor comes to a point where it cannot go on without a
search for that of the second one, which is then held inside it. -/
def Asks (r : Resolver) (d e : Descriptor) : Prop :=
  ∃ n, Needs id (fun head => search r head d) (headAt r n) e

theorem headAt_grows (r : Resolver) (n m : ℕ) (h : n ≤ m) (d : Descriptor) :
    Kept (· = .recursion) (headAt r n d) (headAt r m d) :=
  headAt_kept (outgrows_self r) h d

theorem search_kept {head head' : Heads} (h : ∀ d, Kept (· = .recursion) (head d) (head' d))
    (d : Descriptor) :
    Kept (· = .recursion) (search r head d) (search r head' d) :=
  iterate_kept (step_kept (outgrows_self r) h) le_rfl (.inl ⟨rfl, rfl⟩) d

theorem Asks.found (h : r.Asks d e) {m : ℕ} (hd : headAt r (m + 1) d ≠ .error .recursion) :
    headAt r m e ≠ .error .recursion := by
  intro he
  obtain ⟨n, hneeds⟩ := h
  let head : Heads := fun x => if x.same e then .error .recursion else headAt r (max n m) x
  have hself : head e = .error .recursion := if_pos ((Descriptor.same_iff e e).mpr rfl)
  have hother {x : Descriptor} (hx : x ≠ e) : head x = headAt r (max n m) x :=
    if_neg fun h => hx ((Descriptor.same_iff x e).mp h)
  have hgrow (x : Descriptor) : Kept (· = .recursion) (headAt r m x) (head x) := by
    by_cases hx : x = e
    · subst hx
      rw [he]
      exact .lost _ rfl
    · rw [hother hx]
      exact headAt_grows r m _ (le_max_right n m) x
  have hfails : search r head d = .error .recursion := hneeds head hself fun x hx hknown => by
    rw [hother hx]
    exact (headAt_grows r n _ (le_max_left n m) x).of_ne hknown
  exact hd (by rw [headAt_succ, ← (search_kept hgrow d).of_ne hd, hfails])

/-- A search that nests too deeply asks for a head that is not found one level deeper. -/
theorem exists_asks_of_headAt_succ {n : ℕ} (h : headAt r (n + 1) d = .error .recursion) :
    ∃ e, r.Asks d e ∧ headAt r n e = .error .recursion := by
  have hconstant : ∀ k m : ℕ, k ≤ m → ∀ x, Kept (· = .recursion) (headAt r n x) (headAt r n x) :=
    fun _ _ _ _ => .same _
  rcases (search_asking r d).ends_or_needs hconstant with ⟨k, hk⟩ | ⟨e, he, -, hneeds⟩
  · exact absurd h (hk k le_rfl)
  · exact ⟨e, ⟨n, hneeds⟩, he 0⟩

/-- A search that never ends asks for a head for which the search never ends either. -/
theorem exists_asks_of_forall_headAt (h : ∀ n, headAt r n d = .error .recursion) :
    ∃ e, r.Asks d e ∧ ∀ n, headAt r n e = .error .recursion := by
  rcases (search_asking r d).ends_or_needs (headAt_grows r) with ⟨n, hn⟩ | ⟨e, he, hneeds⟩
  · exact absurd (h (n + 1)) (hn n le_rfl)
  · exact ⟨e, hneeds, he⟩

/-- At most so many searches are held inside each other as there are descriptors that ask for one
another. -/
theorem headAt_recursion_iff (r : Resolver) (n : ℕ) (d : Descriptor) :
    headAt r n d = .error .recursion ↔
      ∃ chain : ℕ → Descriptor, chain 0 = d ∧ ∀ i < n, r.Asks (chain i) (chain (i + 1)) := by
  -- On the levels: the first link of a chain is the search asked from `d`, the others are those
  -- from there.
  induction n generalizing d with
  | zero =>
    exact ⟨fun _ => ⟨fun _ => d, rfl, fun _ h => absurd h (Nat.not_lt_zero _)⟩, fun _ => rfl⟩
  | succ n ih =>
    constructor
    · intro h
      obtain ⟨e, hasks, he⟩ := exists_asks_of_headAt_succ h
      obtain ⟨chain, rfl, hchain⟩ := (ih e).mp he
      refine ⟨fun i => Nat.rec d (fun i _ => chain i) i, rfl, fun i hi => ?_⟩
      cases i with
      | zero => exact hasks
      | succ i => exact hchain i (Nat.lt_of_succ_lt_succ hi)
    · rintro ⟨chain, rfl, hchain⟩
      by_contra hfound
      refine (hchain 0 (Nat.succ_pos n)).found hfound
        ((ih _).mpr ⟨fun i => chain (i + 1), rfl, fun i hi => ?_⟩)
      exact hchain (i + 1) (Nat.succ_lt_succ hi)

/-- Every search ends within some nesting unless descriptors ask for one another for ever. -/
theorem exists_headAt_iff_acc :
    (∃ n, headAt r n d ≠ .error .recursion) ↔ Acc (fun e d => r.Asks d e) d := by
  constructor
  · rintro ⟨n, hn⟩
    induction n generalizing d with
    | zero => exact absurd rfl hn
    | succ n ih => exact ⟨_, fun e hasks => ih (hasks.found hn)⟩
  · intro hacc
    induction hacc with
    | intro d _ ih =>
      by_contra hendless
      simp only [not_exists, not_not] at hendless
      obtain ⟨e, hasks, he⟩ := exists_asks_of_forall_headAt hendless
      obtain ⟨n, hn⟩ := ih e hasks
      exact hn (he n)

/-- The search for a head needs just as much nesting as there are descriptors that ask for one
another. So it ends with an answer that more nesting does not change, unless they ask for one
another for ever. -/
theorem head_ends_iff (r : Resolver) (d : Descriptor) :
    (∀ n, headAt r n d = .error .recursion ↔
        ∃ chain : ℕ → Descriptor, chain 0 = d ∧ ∀ i < n, r.Asks (chain i) (chain (i + 1))) ∧
      ((∃ n answer, answer ≠ .error .recursion ∧ ∀ m ≥ n, headAt r m d = answer) ↔
        ¬ ∃ chain : ℕ → Descriptor, chain 0 = d ∧ ∀ i, r.Asks (chain i) (chain (i + 1))) := by
  refine ⟨fun n => headAt_recursion_iff r n d, ?_⟩
  have hends : (∃ n answer, answer ≠ .error .recursion ∧ ∀ m ≥ n, headAt r m d = answer) ↔
      ∃ n, headAt r n d ≠ .error .recursion := by
    constructor
    · rintro ⟨n, answer, hanswer, hlater⟩
      exact ⟨n, by rwa [hlater n le_rfl]⟩
    · rintro ⟨n, hn⟩
      exact ⟨n, _, hn, fun m hm => (headAt_grows r n m hm d).of_ne hn⟩
  exact (hends.trans exists_headAt_iff_acc).trans not_acc_iff_exists_descending_chain.not_right

def selfProjection : Descriptor := .index (.ref (.ofStr "A")) (.ofStr "x") .fresh

def selfProjecting : Resolver := { definitions := [("A", selfProjection)] }

/-- Two steps from its name the head of that very name is needed. -/
theorem selfProjecting_asks : selfProjecting.Asks (.ref (.ofStr "A")) (.ref (.ofStr "A")) := by
  refine ⟨0, fun head hhead _ => ?_⟩
  have href : step selfProjecting head (.ref (.ofStr "A")) = .ok (.next selfProjection) := rfl
  have hindex : step selfProjecting head selfProjection = .error .recursion := by
    rw [selfProjection, step, hhead]
    rfl
  exact (iterate_next href : iterate 10000 _ 10000 _ = _).trans (iterate_error hindex)

/-- The search for its head holds another one inside it, and so on: the number of steps limits each
of them but not how many there are. -/
theorem selfProjecting_endless :
    (∀ n, headAt selfProjecting n (.ref (.ofStr "A")) = .error .recursion) ∧
      ¬ ∀ (r : Resolver) (d : Descriptor), ∃ n, headAt r n d ≠ .error .recursion := by
  have hendless (n : ℕ) : headAt selfProjecting n (.ref (.ofStr "A")) = .error .recursion :=
    (headAt_recursion_iff _ n _).mpr
      ⟨fun _ => .ref (.ofStr "A"), rfl, fun _ _ => selfProjecting_asks⟩
  refine ⟨hendless, fun hlaw => ?_⟩
  obtain ⟨n, hn⟩ := hlaw selfProjecting (.ref (.ofStr "A"))
  exact hn (hendless n)

end Resolver

end EffectTree
