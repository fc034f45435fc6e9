import EffectTree.Proofs.RecordedEvaluations
import EffectTree.Proofs.UnreportedFaults

/-!
# Limits of evaluations

An evaluation visits a limited number of nodes. Lists that comprehensions and ranges make and texts,
lists and tuples that are repeated have a limited number of items, and what would exceed a limit
ends the evaluation with a fault of the expression. Octets are sequences as well, and no limit is
kept for repeating them.
-/
namespace EffectTree.Expression

open Value

/-- The number of nodes that an evaluation comes to. -/
def nodesVisited (steps : List Step) : Nat := steps.countP Step.isVisit

/-- A node that is not counted any more. -/
def Step.isRefused (step : Step) : Bool := step.isVisit && step.fault?.isSome

def tooManyNodes : Fault := .expression "Expression exceeded evaluation step limit"

theorem run_visit (node : Expr) (frame : Frame) :
    Operation.run (.visit node) frame = if maxNodes ≤ frame.nodes then (.error tooManyNodes, frame)
      else (.ok (), { frame with nodes := frame.nodes + 1 }) := rfl

theorem Step.fault?_of_isRefused {step : Step} (h : step.isRefused = true) :
    step.fault? = some tooManyNodes := by
  obtain ⟨o, frame⟩ := step
  obtain ⟨hvisit, hfault⟩ := Bool.and_eq_true_iff.mp h
  cases o with
  | visit node =>
    simp only [Step.fault?, run_visit] at hfault ⊢
    by_cases hlimit : maxNodes ≤ frame.nodes
    · rw [if_pos hlimit]
    · simp [hlimit] at hfault
  | _ => cases hvisit

/-- How an evaluation counts its nodes. -/
structure Counts {α : Type} (frame : Frame) (outcome : Except Fault α × Frame) (steps : List Step) :
    Prop where
  nodes : outcome.2.nodes + steps.countP Step.isRefused = frame.nodes + nodesVisited steps
  /-- Nothing is refused on the way to a value. -/
  accepted : ∀ a, outcome.1 = .ok a → steps.countP Step.isRefused = 0
  refused : steps.countP Step.isRefused ≤ 1
  /-- A node is refused at the limit alone. -/
  reached : steps.countP Step.isRefused = 1 → maxNodes ≤ outcome.2.nodes
  within : frame.nodes ≤ maxNodes → outcome.2.nodes ≤ maxNodes

theorem run_nodes {o : Operation} (ho : ∀ node, o ≠ .visit node) (frame : Frame) :
    (o.run frame).2.nodes = frame.nodes := by
  cases o with
  | visit node => exact absurd rfl (ho node)
  | bind target v =>
    simp only [Operation.run, Operation.bound]
    split <;> rfl
  | _ => rfl

theorem counts_perform (o : Operation) (frame : Frame) :
    Counts frame (o.run frame) [(o, frame)] := by
  by_cases ho : ∀ node, o ≠ .visit node
  · have hvisit : Step.isVisit (o, frame) = false := by
      cases o <;> first | rfl | exact absurd rfl (ho _)
    have hrefused : [(o, frame)].countP Step.isRefused = 0 := by simp [Step.isRefused, hvisit]
    have hnodes := run_nodes ho frame
    refine ⟨?_, fun _ _ => hrefused, by omega, by omega, by omega⟩
    simp [nodesVisited, hrefused, hvisit, hnodes]
  · obtain ⟨node, rfl⟩ : ∃ node, o = .visit node := by simpa using ho
    by_cases hlimit : maxNodes ≤ frame.nodes
    · have hrun : Operation.run (.visit node) frame = (.error tooManyNodes, frame) := by
        rw [run_visit, if_pos hlimit]
      have hrefused : [(Operation.visit node, frame)].countP Step.isRefused = 1 := by
        simp [Step.isRefused, Step.isVisit, Step.fault?, hrun]
      rw [hrun]
      refine ⟨by simp [nodesVisited, hrefused, Step.isVisit], fun a ha => ?_, by omega,
        fun _ => hlimit, id⟩
      cases ha
    · have hrun : Operation.run (.visit node) frame =
          (.ok (), { frame with nodes := frame.nodes + 1 }) := by
        rw [run_visit, if_neg hlimit]
      have hrefused : [(Operation.visit node, frame)].countP Step.isRefused = 0 := by
        simp [Step.isRefused, Step.fault?, hrun]
      rw [hrun]
      exact ⟨by simp [nodesVisited, hrefused, Step.isVisit], fun _ _ => hrefused, by omega,
        by omega,
        fun _ => by simp only; omega⟩

theorem Counts.bind {α β : Type} {frame mid : Frame} {a : α} {steps more : List Step}
    {outcome : Except Fault β × Frame} (h : Counts frame (.ok a, mid) steps)
    (hmore : Counts mid outcome more) :
    Counts frame outcome (steps ++ more) := by
  have hnodes := h.nodes
  have hmorenodes := hmore.nodes
  have haccepted := h.accepted a rfl
  simp only [nodesVisited] at hnodes hmorenodes
  refine ⟨?_, fun b hb => ?_, ?_, fun hone => ?_, fun hframe => hmore.within (h.within hframe)⟩
  · simp only [nodesVisited, List.countP_append]
    omega
  · rw [List.countP_append, haccepted, hmore.accepted b hb]
  · rw [List.countP_append, haccepted, Nat.zero_add]
    exact hmore.refused
  · rw [List.countP_append, haccepted, Nat.zero_add] at hone
    exact hmore.reached hone

theorem counts_evaluation (e : Expr) (frame : Frame) :
    Counts frame (counted (m := Recorded) e (eval e) frame).1
      (counted (m := Recorded) e (eval e) frame).2 := by
  refine Respects.closed (m := Recorded)
    (P := fun {α} (x : Recorded α) => ∀ frame, Counts frame (x frame).1 (x frame).2)
    (fun a frame => ⟨rfl, fun _ _ => rfl, Nat.zero_le 1, nofun, id⟩)
      (fun {α β x f} hx hf frame => ?_) counts_perform
    (fun {α x} hx frame => ?_) e frame
  · have hx := hx frame
    change Counts frame (Recorded.bind x f frame).1 (Recorded.bind x f frame).2
    unfold Recorded.bind
    rcases hend : x frame with ⟨⟨_ | a, after⟩, steps⟩
    · rw [hend] at hx
      exact ⟨hx.nodes, nofun, hx.refused, hx.reached, hx.within⟩
    · rw [hend] at hx
      exact hx.bind (hf a after)
  · have hx := hx { frame with scopes := [] :: frame.scopes }
    exact ⟨hx.nodes, hx.accepted, hx.refused, hx.reached, hx.within⟩

/-- An evaluation comes to a limited number of nodes. If it comes to one more, it ends with a
fault. -/
theorem nodesVisited_performed (e : Expr) (bindings : Table Value) :
    nodesVisited (performed e bindings) ≤ maxNodes ∨
      nodesVisited (performed e bindings) = maxNodes + 1 ∧
        evaluate e bindings = .error tooManyNodes := by
  have h := counts_evaluation (prepared e bindings).1 (prepared e bindings).2
  change Counts _ _ (performed e bindings) at h
  have hnodes := h.nodes
  have hwithin := h.within (Nat.zero_le _)
  have hstart : (prepared e bindings).2.nodes = 0 := rfl
  rw [hstart, Nat.zero_add] at hnodes
  by_cases hrefused : (performed e bindings).countP Step.isRefused = 0
  · exact .inl (by omega)
  · have hone : (performed e bindings).countP Step.isRefused = 1 := by
      have := h.refused
      omega
    have hreached := h.reached hone
    obtain ⟨step, hstep, hstepRefused⟩ := List.countP_pos_iff.mp (Nat.pos_of_ne_zero hrefused)
    exact .inr ⟨by omega, (evaluate_eq_error_iff ..).mpr
      ⟨step, hstep, Step.fault?_of_isRefused hstepRefused⟩⟩

/-- The list that a comprehension makes has a limited number of items. -/
theorem comprehension_within (isList : Bool) (element : Expr) (generators : List Generator)
    {frame after : Frame} {v : Value}
    (h : eval (m := Eval) (.comprehension isList element generators) frame = (.ok v, after)) :
    ∃ items, v = ofList items ∧ items.length ≤ maxRange := by
  rw [eval, bind_run_eq_ok] at h
  obtain ⟨c, mid, -, hvalue⟩ := h
  cases hvalue
  exact ⟨c.items.reverse, rfl, by rw [List.length_reverse, c.length_eq]; exact c.within⟩

/-- The number of items that a range asks for, if its bounds are numbers. -/
def rangeSize? (bounds : List Value) : Option Nat :=
  match bounds.mapM integer? with
  | some [stop] => some (rangeLength 0 stop 1)
  | some [start, stop] => some (rangeLength start stop 1)
  | some [start, stop, step] => some (rangeLength start stop step)
  | _ => none

theorem rangeItems_within {start stop step : Int} {v : Value}
    (h : rangeItems start stop step = .ok v) :
    ∃ items, v = ofList items ∧ items.length ≤ maxRange ∧
      items.length = rangeLength start stop step := by
  unfold rangeItems at h
  simp only [throw_bind] at h
  split_ifs at h with hzero hlarge hlong
  cases h
  refine ⟨_, rfl, ?_, ?_⟩ <;> simp only [List.length_map, List.length_range]
  omega

theorem integer?_of_wholeNumber {v : Value} {i : Int} (h : wholeNumber v = .ok i) :
    v.integer? = some i := by
  unfold wholeNumber at h
  split at h <;> simp_all

/-- The list that a range makes has the items that it asks for, which are limited in number. -/
theorem range_within {call : Builtin → List Value → Except Fault Value} {args : Arguments}
    {v : Value} (h : applyWith call .range args = .ok v) :
    ∃ items, v = ofList items ∧ items.length ≤ maxRange ∧
      rangeSize? args.positional = some items.length := by
  obtain ⟨-, -, h⟩ := Except.bind_eq_ok.mp h
  unfold applyRange at h
  split at h
  · cases h
  · rename_i stop hargs
    obtain ⟨i, hi, h⟩ := Except.bind_eq_ok.mp h
    obtain ⟨items, rfl, hwithin, hlength⟩ := rangeItems_within h
    exact ⟨items, rfl, hwithin, by simp [hargs, rangeSize?, integer?_of_wholeNumber hi, hlength]⟩
  · rename_i start stop hargs
    obtain ⟨i, hi, h⟩ := Except.bind_eq_ok.mp h
    obtain ⟨j, hj, h⟩ := Except.bind_eq_ok.mp h
    obtain ⟨items, rfl, hwithin, hlength⟩ := rangeItems_within h
    exact ⟨items, rfl, hwithin,
      by simp [hargs, rangeSize?, integer?_of_wholeNumber hi, integer?_of_wholeNumber hj, hlength]⟩
  · rename_i start stop step hargs
    obtain ⟨i, hi, h⟩ := Except.bind_eq_ok.mp h
    obtain ⟨j, hj, h⟩ := Except.bind_eq_ok.mp h
    obtain ⟨k, hk, h⟩ := Except.bind_eq_ok.mp h
    obtain ⟨items, rfl, hwithin, hlength⟩ := rangeItems_within h
    exact ⟨items, rfl, hwithin,
      by simp [hargs, rangeSize?, integer?_of_wholeNumber hi, integer?_of_wholeNumber hj,
      integer?_of_wholeNumber hk, hlength]⟩
  · cases h

theorem range_exceeding {call : Builtin → List Value → Except Fault Value} {args : Arguments}
    {n : Nat} (hsize : rangeSize? args.positional = some n) (hn : maxRange < n) :
    ∃ f, applyWith call .range args = .error f := by
  cases h : applyWith call .range args with
  | error f => exact ⟨f, rfl⟩
  | ok v =>
    obtain ⟨items, -, hwithin, hitems⟩ := range_within h
    rw [hsize] at hitems
    cases hitems
    omega

/-- The sequences for which repetition is limited. -/
def isLimited : Value → Bool
  | .str .. | .list .. | .tuple .. => true
  | _ => false

theorem exists_size?_of_isLimited {seq : Value} (h : isLimited seq = true) :
    ∃ n, seq.size? = some n := by
  cases seq <;> first | exact ⟨_, rfl⟩ | cases h

theorem repetition?_of_isLimited {seq count : Value} {n : Nat} {k : Int}
    (hseq : isLimited seq = true) (hsize : seq.size? = some n) (hcount : count.integer? = some k) :
    repetition? seq count = some (n * k) := by
  cases seq with
  | str | list | tuple => simp [repetition?, hsize, hcount]
  | _ => cases hseq

theorem length_repeated {α : Type} (xs : List α) (count : Int) :
    (repeated xs count).length = xs.length * count.toNat := by
  simp [repeated, Nat.mul_comm]

theorem size?_of_repeatSequence? {seq v : Value} {count : Int}
    (h : repeatSequence? seq count = some (.ok v)) :
    isLimited v = isLimited seq ∧ v.size? = seq.size?.map (· * count.toNat) := by
  by_cases hone : count = 1
  · cases seq <;> simp only [repeatSequence?, hone, if_true, Option.some.injEq,
      reduceCtorEq] at h <;> split at h <;>
      cases h <;> simp [size?, isLimited, hone, length_repeated]
  · cases seq <;> simp only [repeatSequence?, hone, if_false, Option.some.injEq,
      reduceCtorEq] at h <;> split at h <;>
      cases h <;> simp [size?, isLimited, ofStr, ofBytes, ofTuple, length_repeated,
        ← String.length_toList]

theorem mul_eq_ok {a b v : Value} (h : Value.mul a b = .ok v) (hv : isSequence v = true) :
    (∃ count, b.integer? = some count ∧ repeatSequence? a count = some (.ok v)) ∨
      ∃ count, a.integer? = some count ∧ repeatSequence? b count = some (.ok v) := by
  obtain ⟨pair, -, h⟩ := Except.bind_eq_ok.mp h
  have hgiven {r : Option (Except Fault Value)} {e : Fault} (hr : r.getD (.error e) = .ok v) :
      r = some (.ok v) := by
    cases r <;> simp_all
  split at h
  · cases h; cases hv
  · cases h; cases hv
  · cases h; cases hv
  · (repeat' split at h)
    · exact .inl ⟨_, ‹_›, hgiven h⟩
    · cases h
    · exact .inr ⟨_, ‹_›, hgiven h⟩
    · cases h
    · cases h

/-- A text, list or tuple that is a product has a limited number of items. -/
theorem product_within {a b v : Value} (h : multiply a b = .ok v) (hv : isLimited v = true) :
    ∃ n, v.size? = some n ∧ n ≤ maxSequence := by
  unfold multiply at h
  dsimp only at h
  split at h
  · cases h
  · rename_i hlimit
    rw [Bool.not_eq_true, Bool.or_eq_false_iff] at hlimit
    have hfactor {seq count : Value} {k : Int} (hcount : count.integer? = some k)
        (hrepeat : repeatSequence? seq k = some (.ok v))
        (hsmall : (repetition? seq count).any (fun n => decide ((maxSequence : Int) < n)) = false) :
        ∃ n, v.size? = some n ∧ n ≤ maxSequence := by
      obtain ⟨hseq, hsize⟩ := size?_of_repeatSequence? hrepeat
      rw [hv, eq_comm] at hseq
      obtain ⟨n, hn⟩ := exists_size?_of_isLimited hseq
      have hrepetition := repetition?_of_isLimited hseq hn hcount
      have hle : (n * k : Int) ≤ maxSequence := by simpa [hrepetition] using hsmall
      refine ⟨n * k.toNat, by rw [hsize, hn]; rfl, ?_⟩
      rcases Int.le_total 0 k with hk | hk
      · obtain ⟨m, rfl⟩ := Int.eq_ofNat_of_zero_le hk
        exact_mod_cast hle
      · simp [Int.toNat_of_nonpos hk]
    rcases mul_eq_ok h (by cases v <;> first | rfl | cases hv) with ⟨k, hk, hrepeat⟩ | ⟨k,
      hk, hrepeat⟩
    · exact hfactor hk hrepeat hlimit.1
    · exact hfactor hk hrepeat hlimit.2

/-- Octets are repeated as often as asked for, in whatever order the factors stand. -/
theorem octets_product (bs : List UInt8) (mark : Mark) {count : Value} {k : Int}
    (hcount : count.integer? = some k) (hleast : -maxIndex - 1 ≤ k) (hmost : k ≤ maxIndex) :
    ∃ octets mark', multiply (.bytes bs mark) count = .ok (.bytes octets mark') ∧
      multiply count (.bytes bs mark) = .ok (.bytes octets mark') ∧
        octets.length = bs.length * k.toNat := by
  have hpair : numberPair? (.bytes bs mark) count = .ok none := by
    cases count <;> simp_all [numberPair?, real?, integer?]
  have hpair' : numberPair? count (.bytes bs mark) = .ok none := by
    cases count <;> simp_all [numberPair?, real?, integer?]
  have hsequence : isSequence count = false := by
    cases count <;> first | rfl | cases hcount
  have hguard : repetition? (.bytes bs mark) count = none := rfl
  have hguard' : repetition? count (.bytes bs mark) = none := by cases count <;> rfl
  have hrepeat : repeatSequence? (.bytes bs mark) k =
      some (.ok (if k = 1 then .bytes bs mark else ofBytes (repeated bs k))) := by
    simp [repeatSequence?, hleast, hmost]
  have hmul : Value.mul (.bytes bs mark) count =
      .ok (if k = 1 then .bytes bs mark else ofBytes (repeated bs k)) := by
    rw [Value.mul, hpair]
    simp [bind, Except.bind, isSequence, hcount, hrepeat]
  have hmul' : Value.mul count (.bytes bs mark) =
      .ok (if k = 1 then .bytes bs mark else ofBytes (repeated bs k)) := by
    rw [Value.mul, hpair']
    simp only [bind, Except.bind, hsequence, Bool.false_eq_true, if_false]
    simp [isSequence, hcount, hrepeat]
  simp only [multiply, hguard, hguard', Option.any_none, Bool.or_self, Bool.false_eq_true, if_false,
    hmul, hmul']
  by_cases hone : k = 1
  · exact ⟨bs, mark, by rw [if_pos hone], by rw [if_pos hone], by simp [hone]⟩
  · exact ⟨_, _, by rw [if_neg hone, ofBytes], by rw [if_neg hone, ofBytes], length_repeated bs k⟩

/-- What would exceed a limit. -/
def Operation.exceeds : Operation → Frame → Bool
  | .visit _, frame => maxNodes ≤ frame.nodes
  | .collect c _, _ => maxRange ≤ c.count
  | .call .range args, _ => (rangeSize? args.positional).any (maxRange < ·)
  | .binary .mul a b, _ => (repetition? a b).any (fun n => (maxSequence : Int) < n) ||
      (repetition? b a).any (fun n => (maxSequence : Int) < n)
  | _, _ => false

theorem finishCall_error {function : Builtin} {args : Arguments} {f : Fault}
    (hfunction : function ≠ .str) (h : applyBuiltin function args = .error f) :
    ∃ text, finishCall (applyBuiltin function args) = .error (.expression text) := by
  cases hfinish : finishCall (applyBuiltin function args) with
  | ok v => simp [finishCall, h, reporting, bind, Except.bind] at hfinish
  | error e =>
    by_cases he : e.kind = .expression
    · cases e with
      | expression text => exact ⟨text, rfl⟩
      | file problem => cases problem <;> cases he
      | _ => cases he
    · rcases (finishCall_eq_error_iff he).mp hfinish with ⟨herror, hkind⟩ | ⟨b, -, hok, -⟩
      · exact absurd (applyBuiltin_eq_error herror he hkind).1 hfunction
      · rw [h] at hok
        cases hok

/-- What would exceed a limit fails with a fault of the expression. -/
theorem Operation.run_of_exceeds {o : Operation} {frame : Frame} (h : o.exceeds frame = true) :
    ∃ text, (o.run frame).1 = .error (.expression text) := by
  cases o with
  | visit node => exact ⟨_, by rw [run_visit, if_pos (of_decide_eq_true h)]; rfl⟩
  | collect c v => exact ⟨_, dif_neg (Nat.not_lt.mpr (of_decide_eq_true h))⟩
  | call function args =>
    cases function with
    | range =>
      obtain ⟨n, hsize, hn⟩ := (Option.any_eq_true ..).mp h
      obtain ⟨f, hf⟩ := range_exceeding hsize (of_decide_eq_true hn)
      exact finishCall_error nofun hf
    | _ => cases h
  | binary op a b =>
    cases op with
    | mul =>
      refine ⟨"Sequence repetition too large", ?_⟩
      have hmultiply : multiply a b =
        .error (.expression "Sequence repetition too large") := if_pos h
      simp only [Operation.run, Operation.pure, binaryOp, hmultiply]
      rfl
    | _ => cases h
  | _ => cases h

/-- Evaluations stay within the limits: they visit no more nodes than that; lists of comprehensions
and of ranges have no more items, and neither have products that are texts, lists or tuples; what
would exceed a limit ends an evaluation with a fault of the expression. Octets alone are repeated as
often as asked for. -/
theorem limits_kept (e : Expr) (bindings : Table Value) :
    (nodesVisited (performed e bindings) ≤ maxNodes ∨
      nodesVisited (performed e bindings) = maxNodes + 1 ∧
        evaluate e bindings = .error tooManyNodes) ∧
    (∀ step ∈ performed e bindings, step.1.exceeds step.2 = true →
      ∃ text, evaluate e bindings = .error (.expression text)) ∧
    (∀ isList element generators frame after v,
      eval (m := Eval) (.comprehension isList element generators) frame = (.ok v, after) →
        ∃ items, v = ofList items ∧ items.length ≤ maxRange) ∧
    (∀ call args v, applyWith call .range args = .ok v → ∃ items, v = ofList items ∧
      items.length ≤ maxRange) ∧
    (∀ a b v, multiply a b = .ok v → isLimited v = true → ∃ n, v.size? = some n ∧ n ≤ maxSequence) ∧
    ∀ (bs : List UInt8) (mark : Mark) (count : Value) (k : Int), count.integer? = some k →
      -maxIndex - 1 ≤ k →
      k ≤ maxIndex → ∃ octets mark', multiply (.bytes bs mark) count = .ok (.bytes octets mark') ∧
        multiply count (.bytes bs mark) = .ok (.bytes octets mark') ∧
          octets.length = bs.length * k.toNat := by
  refine ⟨nodesVisited_performed e bindings, fun step hstep hexceeds => ?_,
    fun _ _ _ _ _ _ => comprehension_within _ _ _, fun call args v h => ?_,
      fun _ _ _ => product_within,
    fun bs mark _ _ => octets_product bs mark⟩
  · obtain ⟨text, hfault⟩ := Operation.run_of_exceeds hexceeds
    exact ⟨text, (evaluate_eq_error_iff ..).mpr ⟨step, hstep, Step.fault?_eq_some_iff.mpr hfault⟩⟩
  · obtain ⟨items, hv, hwithin, -⟩ := range_within h
    exact ⟨items, hv, hwithin⟩

theorem eval_product {a b : Value} (ha : ∀ n, a.track n = (a, n)) (hb : ∀ n, b.track n = (b, n))
    {frame : Frame} (h : frame.nodes + 1 < maxNodes) :
    eval (m := Eval) (.binary .mul (.constant a) (.constant b)) frame =
      (reporting FaultKind.isOfOperands (multiply a b),
        { frame with nodes := frame.nodes + 2 }) := by
  have hconstant {v : Value} (hv : ∀ n, v.track n = (v, n)) {frame : Frame}
      (h : frame.nodes < maxNodes) :
      counted (m := Eval) (.constant v) (eval (.constant v)) frame =
        (.ok v, { frame with nodes := frame.nodes + 1 }) := by
    rw [counted_run _ _ h]
    change (Except.ok (v.track frame.things).1,
      { frame with nodes := _, things := (v.track frame.things).2 }) = _
    rw [hv]
  rw [eval, bind_run, hconstant ha (by omega)]
  dsimp only
  rw [bind_run, hconstant hb (by simpa using h)]
  rfl

/-- The value of a product of octets and a number that are written out. -/
theorem evaluate_octets_product (bs : List UInt8) {i : Int} (hleast : -maxIndex - 1 ≤ i)
    (hmost : i ≤ maxIndex) (bindings : Table Value) :
    ∃ octets mark, evaluate (.binary .mul (.constant (.bytes bs .sole)) (.constant (.int i .fresh)))
      bindings =
      .ok (.bytes octets mark) ∧ octets.length = bs.length * i.toNat := by
  obtain ⟨octets, mark, hproduct, -, hlength⟩ :=
    octets_product bs .sole (rfl : (Value.int i (.numbered 0)).integer? = some i) hleast hmost
  have hcounted (node : Expr) (scopes : List (Table Value)) (things : Nat) : ∃ mark',
      (counted (m := Eval) node
        (eval (.binary .mul (.constant (.bytes bs .sole)) (.constant (.int i (.numbered 0)))))
        { scopes, things }).1 = .ok (.bytes octets mark') := by
    have hnodes : 0 + 1 + 1 < maxNodes := by decide
    rw [counted_run _ _ (Nat.lt_of_succ_lt (Nat.lt_of_succ_lt hnodes)),
      eval_product (fun _ => rfl) (fun _ => rfl) hnodes, hproduct]
    cases mark <;> exact ⟨_, rfl⟩
  have hprepared : prepared (.binary .mul (.constant (.bytes bs .sole)) (.constant (.int i .fresh)))
    bindings =
      (.binary .mul (.constant (.bytes bs .sole)) (.constant (.int i (.numbered 0))),
        { scopes := [(trackTable bindings 1).1], things := (trackTable bindings 1).2 }) := rfl
  obtain ⟨mark', hmark⟩ := hcounted
    (.binary .mul (.constant (.bytes bs .sole)) (.constant (.int i (.numbered 0))))
    [(trackTable bindings 1).1] (trackTable bindings 1).2
  refine ⟨octets, mark'.released, ?_, hlength⟩
  rw [evaluate, hprepared]
  dsimp only
  rw [hmark]
  rfl

/-- The factors of a product of octets and a number that are written out. -/
def octetsProduct? : Expr → Option (List UInt8 × Int)
  | .binary .mul (.constant (.bytes bs .sole)) (.constant (.int i .fresh)) => some (bs, i)
  | _ => none

theorem eq_of_octetsProduct? {e : Expr} {bs : List UInt8} {i : Int}
    (h : octetsProduct? e = some (bs, i)) :
    e = .binary .mul (.constant (.bytes bs .sole)) (.constant (.int i .fresh)) := by
  unfold octetsProduct? at h
  split at h <;> cases h
  rfl

/-- A single octet repeated beyond the limit is compiled and evaluated. -/
theorem octet_repeated_exceeds :
    ∃ c, compile "b'x' * 1000001" = .ok c ∧
      ∃ octets mark, c.call [] = .ok (.bytes octets mark) ∧ maxSequence < octets.length := by
  have hshape : ((compile "b'x' * 1000001").toOption.bind (octetsProduct? ·.body)) =
      some ([0x78], 1000001) := by
    decide +kernel
  cases hcompile : compile "b'x' * 1000001" with
  | error f =>
    rw [hcompile] at hshape
    cases hshape
  | ok c =>
    rw [hcompile] at hshape
    have hbody := eq_of_octetsProduct? hshape
    obtain ⟨octets, mark, hvalue, hlength⟩ :=
      evaluate_octets_product [0x78] (by decide) (by decide) (i := 1000001) (bindParams c.params [])
    refine ⟨c, rfl, octets, mark, ?_, by rw [hlength, List.length_singleton]; decide⟩
    rw [Compiled.call, hbody]
    exact hvalue

end EffectTree.Expression
