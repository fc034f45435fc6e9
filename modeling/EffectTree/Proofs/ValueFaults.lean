import EffectTree.Evaluation.ExitCode
import EffectTree.Proofs.PlainData
import EffectTree.Value.Percent

/-!
# Faults of values

Operations on values end only in faults about values: a value of the wrong type or size, a missing
key, a text that cannot be encoded. They never complain about definitions, results or effects.
-/
namespace EffectTree

/-- How a computation that can fail ends: with a value of one kind or with a fault of another. -/
def Ends {ε α : Type} (P : α → Prop) (Q : ε → Prop) : Except ε α → Prop
  | .ok a => P a
  | .error e => Q e

namespace Ends

variable {ε α β : Type} {P P' : α → Prop} {R : β → Prop} {Q Q' : ε → Prop}

theorem mono {x : Except ε α} (h : Ends P Q x) (hP : ∀ a, P a → P' a) (hQ : ∀ e, Q e → Q' e) :
    Ends P' Q' x := by
  cases x with
  | ok a => exact hP a h
  | error e => exact hQ e h

theorem bind {x : Except ε α} {f : α → Except ε β} (hx : Ends P Q x)
    (hf : ∀ a, P a → Ends R Q (f a)) :
    Ends R Q (x >>= f) := by
  cases x with
  | ok a => exact hf a hx
  | error e => exact hx

theorem map {x : Except ε α} {f : α → β} (hx : Ends P Q x) (hf : ∀ a, P a → R (f a)) :
    Ends R Q (x.map f) := by
  cases x with
  | ok a => exact hf a hx
  | error e => exact hx

theorem mapM {f : α → Except ε β} {xs : List α} (hf : ∀ x ∈ xs, Ends R Q (f x)) :
    Ends (fun ys => ∀ y ∈ ys, R y) Q (xs.mapM f) := by
  induction xs with
  | nil =>
    rw [List.mapM_nil]
    exact fun y hy => absurd hy List.not_mem_nil
  | cons x xs ih =>
    rw [List.mapM_cons]
    refine (hf x (List.mem_cons_self ..)).bind fun y hy => ?_
    refine (ih fun x' hx' => hf x' (List.mem_cons_of_mem _ hx')).bind fun ys hys => ?_
    exact fun z hz => (List.mem_cons.mp hz).elim (fun h => h ▸ hy) (hys z)

theorem foldlM {f : β → α → Except ε β} {xs : List α} {b : β} (hb : R b)
    (hf : ∀ b, ∀ x ∈ xs, R b → Ends R Q (f b x)) : Ends R Q (xs.foldlM f b) := by
  induction xs generalizing b with
  | nil => exact hb
  | cons x xs ih =>
    rw [List.foldlM_cons]
    exact (hf b x (List.mem_cons_self ..) hb).bind fun b' hb' =>
      ih hb' fun b x hx => hf b x (List.mem_cons_of_mem _ hx)

end Ends

namespace FaultKind

/-- The faults that operations on values end in. -/
def isOfValues : FaultKind → Bool
  | mismatch | invalid | key | index | noAttribute | zeroDivision | overflow | expression
  | undecodable | unencodable
  | lookup => true
  | _ => false

/-- The faults that formats end in. -/
def isOfFormats (k : FaultKind) : Bool := k.isOfOperands || k = .invalid

def isOfFilling (k : FaultKind) : Bool := k.isOfFormats || k = .key

/-- Kinds that have others among them. -/
class Covers (kinds less : FaultKind → Bool) : Prop where
  covers : ∀ k, less k = true → kinds k = true

instance (kinds : FaultKind → Bool) : Covers kinds kinds := ⟨fun _ h => h⟩

instance (kinds : FaultKind → Bool) [h : Covers kinds isOfOperands] : Covers kinds isMismatch :=
  ⟨fun k hk => h.covers k (by simp [isOfOperands, hk])⟩

instance (kinds : FaultKind → Bool) [h : Covers kinds isOfFormats] : Covers kinds isOfOperands :=
  ⟨fun k hk => h.covers k (by simp [isOfFormats, hk])⟩

instance (kinds : FaultKind → Bool) [h : Covers kinds isOfFilling] : Covers kinds isOfFormats :=
  ⟨fun k hk => h.covers k (by simp [isOfFilling, hk])⟩

instance : Covers isOfValues isOfFilling :=
  ⟨by rintro (_ | _) <;> simp [isOfFilling, isOfFormats, isOfOperands, isMismatch, isArithmetic,
    isOfValues]⟩

end FaultKind

open FaultKind (Covers isMismatch isOfOperands isOfFormats isOfFilling)

namespace Fault

def isOfValues (e : Fault) : Bool := e.kind.isOfValues

/-- A fault of one of some kinds. -/
def IsOf (kinds : FaultKind → Bool) (e : Fault) : Prop := kinds e.kind = true

@[simp] theorem isOf_isOfValues (e : Fault) : e.IsOf FaultKind.isOfValues ↔ e.isOfValues = true :=
  .rfl

@[simp] theorem isOfValues_text (text : String) :
    (mismatch text).isOfValues = true ∧ (invalid text).isOfValues = true ∧
    (outOfBounds text).isOfValues = true ∧
    (noAttribute text).isOfValues = true ∧ (divisionByZero text).isOfValues = true ∧
    (overflow text).isOfValues = true ∧ (expression text).isOfValues = true ∧
    (undecodable text).isOfValues = true ∧ (unencodable text).isOfValues = true ∧
    (unknownName text).isOfValues = true := by
  simp [isOfValues, kind, FaultKind.isOfValues]

@[simp] theorem isOfValues_missingKey (key : Value) : (missingKey key).isOfValues = true := rfl

@[simp] theorem isOfValues_notInteger (base : Int) (literal : String) :
    (notInteger base literal).isOfValues = true := rfl

section Covers

variable {kinds : FaultKind → Bool}

@[simp] theorem isOf_mismatch [h : Covers kinds isMismatch] (text : String) :
    (mismatch text).IsOf kinds :=
  h.covers .mismatch rfl

@[simp] theorem isOf_operands [Covers kinds isMismatch] (symbol : String) (a b : Value) :
    (operands symbol a b).IsOf kinds := isOf_mismatch _

@[simp] theorem isOf_divisionByZero [h : Covers kinds isOfOperands] (text : String) :
    (divisionByZero text).IsOf kinds := h.covers .zeroDivision rfl

@[simp] theorem isOf_overflow [h : Covers kinds isOfOperands] (text : String) :
    (overflow text).IsOf kinds :=
  h.covers .overflow rfl

@[simp] theorem isOf_invalid [h : Covers kinds isOfFormats] (text : String) :
    (invalid text).IsOf kinds :=
  h.covers .invalid rfl

@[simp] theorem isOf_missingKey [h : Covers kinds isOfFilling] (key : Value) :
    (missingKey key).IsOf kinds :=
  h.covers .key rfl

end Covers

end Fault

/-- A computation that ends in faults of some kinds alone. -/
def OfKinds (kinds : FaultKind → Bool) {α : Type} (x : Except Fault α) : Prop :=
  Ends (fun _ => True) (·.IsOf kinds) x

abbrev OfValues {α : Type} (x : Except Fault α) : Prop := OfKinds FaultKind.isOfValues x

section Rules

variable {α β : Type} {kinds : FaultKind → Bool}

@[simp] theorem ofKinds_ok (a : α) : OfKinds kinds (.ok a) := trivial

@[simp] theorem ofKinds_pure (a : α) : OfKinds kinds (pure a) := trivial

@[simp] theorem ofKinds_error (e : Fault) :
    OfKinds kinds (.error e : Except Fault α) ↔ e.IsOf kinds := .rfl

@[simp] theorem ofKinds_throw (e : Fault) :
    OfKinds kinds (throw e : Except Fault α) ↔ e.IsOf kinds := .rfl

@[simp] theorem ofKinds_bind (x : Except Fault α) (f : α → Except Fault β) :
    OfKinds kinds (x >>= f) ↔ OfKinds kinds x ∧ ∀ a, x = .ok a → OfKinds kinds (f a) := by
  cases x <;> simp [bind, Except.bind]

theorem throw_bind (e : Fault) (f : α → Except Fault β) :
    ((throw e : Except Fault α) >>= f) = throw e := rfl

@[simp] theorem ofKinds_map (x : Except Fault α) (f : α → β) :
    OfKinds kinds (x.map f) ↔ OfKinds kinds x := by
  cases x <;> simp [Except.map]

@[simp] theorem ofKinds_functor (x : Except Fault α) (f : α → β) :
    OfKinds kinds (f <$> x) ↔ OfKinds kinds x :=
  ofKinds_map x f

@[simp] theorem ofKinds_discard (x : Except Fault α) :
    OfKinds kinds (discard x) ↔ OfKinds kinds x :=
  ofKinds_map x _

@[simp] theorem ofKinds_ite (c : Prop) [Decidable c] (x y : Except Fault α) :
    OfKinds kinds (if c then x else y) ↔ (c → OfKinds kinds x) ∧ (¬ c → OfKinds kinds y) := by
  split <;> simp_all

theorem ofKinds_mapM {f : α → Except Fault β} (hf : ∀ a, OfKinds kinds (f a)) (xs : List α) :
    OfKinds kinds (xs.mapM f) :=
  (Ends.mapM fun x _ => hf x).mono (fun _ _ => trivial) fun _ he => he

theorem ofKinds_foldlM {f : β → α → Except Fault β} (hf : ∀ b a, OfKinds kinds (f b a))
    (xs : List α) (b : β) :
    OfKinds kinds (xs.foldlM f b) :=
  Ends.foldlM trivial fun b x _ _ => hf b x

theorem OfKinds.bind {x : Except Fault α} {f : α → Except Fault β} (hx : OfKinds kinds x)
    (hf : ∀ a, OfKinds kinds (f a)) :
    OfKinds kinds (x >>= f) := (ofKinds_bind x f).mpr ⟨hx, fun a _ => hf a⟩

theorem OfKinds.ite {c : Prop} [Decidable c] {x y : Except Fault α} (hx : OfKinds kinds x)
    (hy : OfKinds kinds y) :
    OfKinds kinds (if c then x else y) := (ofKinds_ite c x y).mpr ⟨fun _ => hx, fun _ => hy⟩

theorem OfKinds.of_error {x : Except Fault α} {e : Fault} (hx : OfKinds kinds x)
    (h : x = .error e) :
    e.IsOf kinds := by
  subst h
  exact hx

theorem OfKinds.weaken {more : FaultKind → Bool} [Covers more kinds] {x : Except Fault α}
    (hx : OfKinds kinds x) :
    OfKinds more x :=
  hx.mono (fun _ _ => trivial) fun e he => Covers.covers e.kind he

end Rules

namespace Value

mutual

@[simp] theorem related_ofKinds {kinds : FaultKind → Bool} [Covers kinds isMismatch]
    (r : Relation) :
    (v w : Value) → OfKinds kinds (related r v w)
  | .list xs _, w | .tuple xs _, w => by
      cases w <;> simp [related, Fault.unordered, relatedItems_ofKinds r xs]
  | .str .., w | .bytes .., w | .set .., w => by cases w <;> simp [related, Fault.unordered]
  | .null, w | .bool _, w | .int .., w | .float .., w | .complex .., w | .dict .., w | .ellipsis, w
  | .builtin _, w | .generic .., w | .union .., w | .context _, w => by
      simp only [related]
      split <;> simp [Fault.unordered]

@[simp] theorem relatedItems_ofKinds {kinds : FaultKind → Bool} [Covers kinds isMismatch]
    (r : Relation) :
    (xs ys : List Value) → OfKinds kinds (relatedItems r xs ys)
  | [], _ => by simp [relatedItems]
  | _ :: _, [] => by simp [relatedItems]
  | x :: xs, y :: ys => by simp [relatedItems, related_ofKinds r x y, relatedItems_ofKinds r xs ys]

end

section Items

variable {kinds : FaultKind → Bool} [Covers kinds isMismatch]

@[simp] theorem requireHashable_ofKinds (v : Value) : OfKinds kinds v.requireHashable := by
  unfold requireHashable
  split <;> simp [Fault.unhashable]

@[simp] theorem items_ofKinds (v : Value) : OfKinds kinds v.items := by
  cases v <;> simp [items, Fault.notIterable]

@[simp] theorem itemAt_ofKinds (target key : Value) : OfKinds kinds (itemAt target key) := by
  unfold itemAt itemAt.indexed
  (repeat' split) <;> simp

@[simp] theorem sliceBound_ofKinds (v : Value) : OfKinds kinds (sliceBound v) := by
  unfold sliceBound
  (repeat' split) <;> simp

end Items

section Containers

variable {kinds : FaultKind → Bool} [Covers kinds isOfFormats]

@[simp] theorem member_ofKinds (x container : Value) : OfKinds kinds (member x container) := by
  unfold member
  (repeat' split) <;> simp

@[simp] theorem sliceOf_ofKinds (target lower upper step : Value) :
    OfKinds kinds (sliceOf target lower upper step) := by
  unfold sliceOf sliceOf.bounds
  split <;> simp

end Containers

namespace Before

variable {kinds : FaultKind → Bool} {α : Type} {before : Before α}
    (hbefore : ∀ a b, OfKinds kinds (before a b))
include hbefore

theorem continued_ofKinds (descends : Bool) (x : α) (items : List α) :
    OfKinds kinds (continued before descends x items) := by
  induction items generalizing x with
  | nil => simp [continued]
  | cons y rest ih => simp [continued, hbefore, ih]

theorem leadingRun_ofKinds (items : List α) : OfKinds kinds (leadingRun before items) := by
  unfold leadingRun
  split <;> simp [hbefore, continued_ofKinds hbefore]

theorem placeIn_ofKinds (run : Array α) (x : α) (fuel low high : Nat) :
    OfKinds kinds (placeIn before run x fuel low high) := by
  induction fuel generalizing low high with
  | zero => simp [placeIn]
  | succ fuel ih =>
    rw [placeIn]
    split <;> simp [hbefore, ih]

theorem insert_ofKinds (run : List α) (x : α) : OfKinds kinds (insert before run x) := by
  simp [insert, placeIn_ofKinds hbefore]

theorem runs_ofKinds (least fuel : Nat) (items : List α) :
    OfKinds kinds (runs before least fuel items) := by
  induction fuel generalizing items with
  | zero => simp [runs]
  | succ fuel ih =>
    cases items with
    | nil => simp [runs]
    | cons item items =>
      simp [runs, leadingRun_ofKinds hbefore, ofKinds_foldlM (insert_ofKinds hbefore), ih]

theorem merge_ofKinds (fuel : Nat) (xs ys acc : List α) :
    OfKinds kinds (merge before fuel xs ys acc) := by
  fun_induction merge before fuel xs ys acc with
  | case1 | case2 | case3 => simp
  | case4 fuel x xs y ys acc ih1 ih2 => simp [hbefore, ih1, ih2]

theorem mergePairs_ofKinds (lists : List (List α)) : OfKinds kinds (mergePairs before lists) := by
  fun_induction mergePairs before lists with
  | case1 a b rest ih => simp [merge_ofKinds hbefore, ih]
  | case2 => simp

theorem mergeAll_ofKinds (fuel : Nat) (lists : List (List α)) :
    OfKinds kinds (mergeAll before fuel lists) := by
  fun_induction mergeAll before fuel lists with
  | case1 | case2 | case3 => simp
  | case4 _ _ _ _ ih => simp [mergePairs_ofKinds hbefore, ih]

theorem sort_ofKinds (items : List α) : OfKinds kinds (sort before items) := by
  simp [sort, runs_ofKinds hbefore, mergeAll_ofKinds hbefore]

end Before

section Operands

variable {kinds : FaultKind → Bool} [Covers kinds isOfOperands]

@[simp] theorem sortKeyed_ofKinds (items : List (Value × Value)) :
    OfKinds kinds (sortKeyed items) :=
  Before.sort_ofKinds (fun _ _ => related_ofKinds _ _ _) items

@[simp] theorem sortValues_ofKinds (items : List Value) : OfKinds kinds (sortValues items) :=
  Before.sort_ofKinds (fun _ _ => related_ofKinds _ _ _) items

@[simp] theorem toDouble_ofKinds (i : Int) : OfKinds kinds (toDouble i) := by
  simp [toDouble]

@[simp] theorem Real.toDouble_ofKinds (r : Real) : OfKinds kinds r.toDouble := by
  cases r <;> simp [Real.toDouble]

@[simp] theorem numberPair?_ofKinds (a b : Value) : OfKinds kinds (numberPair? a b) := by
  unfold numberPair?
  (repeat' split) <;> simp

@[simp] theorem add_ofKinds (a b : Value) : OfKinds kinds (add a b) := by
  simp only [add, ofKinds_bind, numberPair?_ofKinds, true_and]
  intro pair _
  (repeat' split) <;> simp

@[simp] theorem sub_ofKinds (a b : Value) : OfKinds kinds (sub a b) := by
  simp only [sub, ofKinds_bind, numberPair?_ofKinds, true_and]
  intro pair _
  (repeat' split) <;> simp

/-- A sequence is repeated unless the count is too large. -/
theorem repeatSequence?_ofKinds (seq : Value) (count : Int) (e : Fault) (he : e.IsOf kinds) :
    OfKinds kinds ((repeatSequence? seq count).getD (.error e)) := by
  cases seq <;> simp [repeatSequence?, he]

@[simp] theorem mul_ofKinds (a b : Value) : OfKinds kinds (mul a b) := by
  simp only [mul, ofKinds_bind, numberPair?_ofKinds, true_and]
  intro pair _
  (repeat' split) <;> first | exact repeatSequence?_ofKinds _ _ _ (by simp) | simp

@[simp] theorem divideInts_ofKinds (i j : Int) : OfKinds kinds (divideInts i j) := by
  simp [divideInts]

@[simp] theorem complexDiv_ofKinds (x y x' y' : Float) : OfKinds kinds (complexDiv x y x' y') := by
  simp [complexDiv]

@[simp] theorem divide_ofKinds (a b : Value) : OfKinds kinds (divide a b) := by
  simp only [divide, ofKinds_bind, numberPair?_ofKinds, true_and]
  intro pair _
  split <;> simp

@[simp] theorem floorDiv_ofKinds (a b : Value) : OfKinds kinds (floorDiv a b) := by
  simp only [floorDiv, ofKinds_bind, numberPair?_ofKinds, true_and]
  intro pair _
  split <;> simp

@[simp] theorem modNumbers_ofKinds (a b : Value) : OfKinds kinds (modNumbers a b) := by
  simp only [modNumbers, ofKinds_bind, numberPair?_ofKinds, true_and]
  intro pair _
  (repeat' split) <;> simp

@[simp] theorem complexResult_ofKinds (re im : Float) : OfKinds kinds (complexResult re im) := by
  simp [complexResult]

@[simp] theorem complexPow_ofKinds (x y x' y' : Float) : OfKinds kinds (complexPow x y x' y') := by
  unfold complexPow complexPowInt complexPowPolar
  (repeat' split) <;> simp [undefinedPower]

@[simp] theorem floatPow_ofKinds (x y : Float) : OfKinds kinds (floatPow x y) := by
  simp [floatPow]

@[simp] theorem power_ofKinds (a b : Value) : OfKinds kinds (power a b) := by
  simp only [power, ofKinds_bind, numberPair?_ofKinds, true_and]
  intro pair _
  split <;> simp

@[simp] theorem bitwise_ofKinds (op : BitOp) (a b : Value) : OfKinds kinds (bitwise op a b) := by
  unfold bitwise
  (repeat' split) <;> simp

@[simp] theorem negate_ofKinds (v : Value) : OfKinds kinds v.negate := by
  unfold negate
  (repeat' split) <;> simp

@[simp] theorem plus_ofKinds (v : Value) : OfKinds kinds v.plus := by
  cases v <;> simp [plus]

@[simp] theorem invert_ofKinds (v : Value) : OfKinds kinds v.invert := by
  unfold invert
  split <;> simp

@[simp] theorem absolute_ofKinds (v : Value) : OfKinds kinds v.absolute := by
  cases v <;> simp [absolute]

end Operands

section Formats

variable {kinds : FaultKind → Bool} [Covers kinds isOfFormats]

namespace FormatSpec

@[simp] theorem takeNumber_ofKinds (cs : List Char) : OfKinds kinds (takeNumber cs) := by
  simp [takeNumber]

@[simp] theorem parse_ofKinds (text typeName : String) (normal : Align) (normalType : Option Char) :
    OfKinds kinds (parse text typeName normal normalType) := by
  simp only [parse, throw_bind, pure_bind]
  refine .bind (takeNumber_ofKinds _) fun width => .ite (by simp) (.ite (by simp) ?_)
  refine .ite (.bind (takeNumber_ofKinds _) fun precision => .ite (by simp) ?_) (.ite (by simp) ?_)
  · rcases precision with ⟨_, _ | ⟨c, _ | _⟩⟩
    · exact .ite (by simp) (ofKinds_pure _)
    · exact .ite (by simp) (ofKinds_pure _)
    · simp
  · generalize (takeFlag '.' _).2 = rest
    rcases rest with _ | ⟨c, _ | _⟩
    · exact .ite (by simp) (ofKinds_pure _)
    · exact .ite (by simp) (ofKinds_pure _)
    · simp

@[simp] theorem requirePrecision_ofKinds (spec : FormatSpec) :
    OfKinds kinds spec.requirePrecision := by
  simp [requirePrecision]

end FormatSpec

@[simp] theorem formatText_ofKinds (spec : FormatSpec) (s : String) :
    OfKinds kinds (formatText spec s) := by
  have hlaid : OfKinds kinds (formatText { spec with type := none } s) := by
    simp only [formatText, throw_bind]
    exact .ite (by simp) (.ite (by simp)
      (.ite (by simp) (.ite (by simp) (.ite (by simp) (ofKinds_pure _)))))
  simp only [formatText, throw_bind]
  split
  · exact hlaid
  · exact hlaid
  · simp [unknownType]

@[simp] theorem formatFloat_ofKinds (spec : FormatSpec) (typeName : String) (x : Float) :
    OfKinds kinds (formatFloat spec typeName x) := by
  simp only [formatFloat, throw_bind]
  split
  · exact .ite (by simp [unknownType]) (.bind (by simp) fun _ => ofKinds_pure _)
  · exact .bind (by simp) fun _ => ofKinds_pure _

@[simp] theorem codePointFault_isOf (i : Int) : (codePointFault i).IsOf kinds := by
  unfold codePointFault
  split <;> simp

@[simp] theorem formatInt_ofKinds (spec : FormatSpec) (typeName : String) (i : Int) :
    OfKinds kinds (formatInt spec typeName i) := by
  simp only [formatInt, throw_bind]
  split
  · refine .ite (.bind (by simp) fun x => by simp)
      (.ite (by simp [unknownType]) (.ite (by simp) (.ite (by simp) ?_)))
    split <;> simp
  · refine .ite (by simp) (.ite (by simp) ?_)
    split <;> simp

@[simp] theorem formatComplex_ofKinds (spec : FormatSpec) (re im : Float) :
    OfKinds kinds (formatComplex spec re im) := by
  have hpadded (text : String) : OfKinds kinds (if spec.fill = '0' then
      (throw (.invalid "Zero padding is not allowed in complex format specifier") :
        Except Fault String)
    else if spec.align = .afterSign then
      throw (.invalid "'=' alignment flag is not allowed in complex format specifier")
        else pure text) :=
    .ite (by simp) (.ite (by simp) (ofKinds_pure _))
  simp only [formatComplex, throw_bind]
  split
  · exact .ite (by simp [unknownType]) (.bind (by simp) fun _ => hpadded _)
  · exact .bind (by simp) fun _ => hpadded _

@[simp] theorem format_ofKinds (v : Value) (text : String) : OfKinds kinds (format v text) := by
  cases v <;> simp [format]

end Formats

section Filling

variable {kinds : FaultKind → Bool} [Covers kinds isOfFilling]

@[simp] theorem conversionInt_ofKinds (type : Char) (v : Value) :
    OfKinds kinds (conversionInt type v) := by
  unfold conversionInt
  (repeat' split) <;> simp

@[simp] theorem next_ofKinds (args : Arguments) : OfKinds kinds args.next := by
  unfold Arguments.next
  split <;> simp

@[simp] theorem apply_ofKinds (c : Conversion) (type : Char) (index : Nat) (v : Value) :
    OfKinds kinds (c.apply type index v) := by
  unfold Conversion.apply
  (repeat' split) <;> simp

@[simp] theorem octetOf_ofKinds (v : Value) : OfKinds kinds (octetOf v) := by
  unfold octetOf
  (repeat' split) <;> simp

@[simp] theorem applyOctets_ofKinds (c : Conversion) (type : Char) (index : Nat) (v : Value) :
    OfKinds kinds (c.applyOctets type index v) := by
  unfold Conversion.applyOctets
  (repeat' split) <;> simp

@[simp] theorem takeSize_ofKinds (limit : SizeLimit) (args : Arguments) (cs : List Char) :
    OfKinds kinds (takeSize limit args cs) := by
  unfold takeSize
  split
  · simp only [ofKinds_bind, next_ofKinds, true_and]
    intro taken _
    (repeat' split) <;> simp
  · simp

@[simp] theorem keyedArgument_ofKinds (mapping key : Value) :
    OfKinds kinds (keyedArgument mapping key) := by
  simp only [keyedArgument, ofKinds_bind, itemAt_ofKinds, true_and]
  intro found _
  split <;> simp

@[simp] theorem takeArguments_ofKinds (style : PercentStyle) (args : Arguments) (cs : List Char) :
    OfKinds kinds (takeArguments style args cs) := by
  unfold takeArguments
  (repeat' split) <;> simp

@[simp] theorem takePrecision_ofKinds (style : PercentStyle) (args : Arguments) (cs : List Char) :
    OfKinds kinds (takePrecision style args cs) := by
  unfold takePrecision
  split <;> simp

section Percent

variable {style : PercentStyle}
    (hstyle : ∀ c type index v, OfKinds kinds (style.apply c type index v))
include hstyle

theorem writeArgument_ofKinds (total : Nat) (c : Conversion) (args : Arguments) (cs : List Char) :
    OfKinds kinds (writeArgument style total c args cs) := by
  unfold writeArgument
  split <;> simp [hstyle]

theorem formatOne_ofKinds (total : Nat) (args : Arguments) (cs : List Char) :
    OfKinds kinds (formatOne style total args cs) := by
  unfold formatOne
  simp [writeArgument_ofKinds hstyle]

theorem formatPieces_ofKinds (total fuel : Nat) (args : Arguments) (cs : List Char)
    (acc : List Value) :
    OfKinds kinds (formatPieces style total fuel args cs acc) := by
  fun_induction formatPieces style total fuel args cs acc with
  | case1 | case2 => simp
  | case3 _ _ _ _ ih => exact ih
  | case4 _ _ _ _ _ ih => simp [formatOne_ofKinds hstyle, ih]
  | case5 _ _ _ _ _ _ _ _ ih => exact ih

theorem filled_ofKinds (cs : List Char) (v : Value) : OfKinds kinds (filled style cs v) := by
  simp [filled, formatPieces_ofKinds hstyle]

end Percent

@[simp] theorem mod_ofKinds (a b : Value) : OfKinds kinds (mod a b) := by
  unfold mod
  split
  · refine (ofKinds_map ..).mpr ?_
    exact filled_ofKinds apply_ofKinds _ b
  · refine (ofKinds_map ..).mpr ?_
    exact filled_ofKinds applyOctets_ofKinds _ b
  · exact modNumbers_ofKinds a b

end Filling

end Value

namespace Json

@[simp] theorem keyText_ofValues (v : Value) : OfValues (keyText v) := by
  unfold keyText
  split <;> simp

mutual

@[simp] theorem print_ofValues : (v : Value) → OfValues (print v)
  | .list xs _ | .tuple xs _ => by simp [print, printItems_ofValues xs]
  | .dict es _ => by simp [print, printEntries_ofValues es]
  | .null | .bool _ | .int .. | .float .. | .str .. | .complex .. | .bytes .. | .set .. | .ellipsis
  | .builtin _
  | .generic .. | .union .. | .context _ => by simp [print]

@[simp] theorem printItems_ofValues : (xs : List Value) → OfValues (printItems xs)
  | [] => by simp [printItems]
  | x :: xs => by
      have hx := print_ofValues x
      rw [printItems]
      split
      · exact hx.of_error ‹_›
      · simp [printItems_ofValues xs]

@[simp] theorem printEntries_ofValues : (es : List (Value × Value)) → OfValues (printEntries es)
  | [] => by simp [printEntries]
  | (k, v) :: rest => by
      have hv := print_ofValues v
      rw [printEntries]
      split
      · exact (keyText_ofValues k).of_error ‹_›
      · split
        · exact hv.of_error ‹_›
        · simp [printEntries_ofValues rest]

end

end Json

namespace Descriptor

mutual

@[simp] theorem ofValue_ofValues : (v : Value) → OfValues (ofValue v)
  | .list xs _ | .tuple xs _ => by simp [ofValue, ofItems_ofValues xs]
  | .dict es _ => by simp [ofValue, ofEntries_ofValues es]
  | .null | .bool _ | .int .. | .float .. | .str .. | .complex .. | .bytes .. | .set .. | .ellipsis
  | .builtin _
  | .generic .. | .union .. | .context _ => by simp [ofValue, indescribable]

@[simp] theorem ofItems_ofValues : (xs : List Value) → OfValues (ofItems xs)
  | [] => by simp [ofItems]
  | x :: xs => by
      have hx := ofValue_ofValues x
      rw [ofItems]
      split
      · exact hx.of_error ‹_›
      · simp [ofItems_ofValues xs]

@[simp] theorem ofEntries_ofValues : (es : List (Value × Value)) → (acc : Table Descriptor) →
    OfValues (ofEntries es acc)
  | [], _ => by simp [ofEntries]
  | (k, v) :: rest, acc => by
      have hv := ofValue_ofValues v
      rw [ofEntries]
      split
      · exact hv.of_error ‹_›
      · exact ofEntries_ofValues rest _

end

@[simp] theorem describe_ofValues (v : Value) : OfValues (describe v) := by
  unfold describe
  (repeat' split) <;> simp

end Descriptor

namespace Operator

@[simp] theorem arityFault_isOfValues (function : String) (names : List String) (given : Nat) :
    (arityFault function names given).isOfValues = true := by
  unfold arityFault
  dsimp only
  split <;> rfl

theorem unary_ofValues {f : Value → Except Fault Value} (hf : ∀ a, OfValues (f a)) (name : String)
    (vs : List Value) : OfValues (unary name f vs) := by
  unfold unary
  split <;> simp [hf]

theorem binary_ofValues {f : Value → Value → Except Fault Value} (hf : ∀ a b, OfValues (f a b))
    (function first second : String) (vs : List Value) :
    OfValues (binary function first second f vs) := by
  unfold binary
  split <;> simp [hf]

@[simp] theorem concatenate_ofValues (vs : List Value) : OfValues (concatenate vs) := by
  induction vs with
  | nil => simp [concatenate]
  | cons v rest ih =>
    unfold concatenate
    split
    · simp
    · simp_all
    · split
      · exact (Json.print_ofValues _).of_error ‹_›
      · simp_all

@[simp] theorem sum_ofValues (vs : List Value) : OfValues (sum vs) :=
  ofKinds_foldlM Value.add_ofKinds vs _

@[simp] theorem product_ofValues (vs : List Value) : OfValues (product vs) :=
  ofKinds_foldlM Value.mul_ofKinds vs _

@[simp] theorem quotient_ofValues (a b : Value) : OfValues (quotient a b) := by
  simp [quotient]

theorem textMethod_ofValues {f : String → Except Fault Value} (hf : ∀ s, OfValues (f s))
    (name : String) (v : Value) : OfValues (textMethod name f v) := by
  unfold textMethod
  split <;> simp [hf]

@[simp] theorem splitText_ofValues (s : String) (v : Value) : OfValues (splitText s v) := by
  unfold splitText
  split <;> simp

@[simp] theorem length1_ofValues (v : Value) : OfValues (length1 v) := by
  unfold length1
  split <;> simp

theorem apply_ofValues (operator : Operator) (vs : List Value) : OfValues (operator.apply vs) := by
  cases operator with
  | add =>
    simp only [apply]
    split <;> simp
  | length =>
    simp only [apply]
    split <;> simp
  | sub | div | mod | eq | ne | lt | le | gt | ge => exact binary_ofValues (by simp) _ _ _ vs
  | mul => exact product_ofValues vs
  | concat => simp [apply]
  | and | or => simp [apply]
  | not | json | keys => exact unary_ofValues (by simp) _ vs
  | upper | lower | trim => exact unary_ofValues (textMethod_ofValues (by simp) _) _ vs
  | split =>
    exact binary_ofValues (fun v sep => textMethod_ofValues (fun s => splitText_ofValues s sep)
      _ v) _ _ _ vs

end Operator

@[simp] theorem Evaluation.exitCode_ofValues (v : Value) : OfValues (Evaluation.exitCode v) := by
  cases v with
  | str s =>
    simp only [Evaluation.exitCode, ofKinds_ite, ofKinds_ok, implies_true, and_true]
    intro _
    cases Number.readInt? 10 s <;> simp
  | _ => simp only [Evaluation.exitCode, ofKinds_ok]

end EffectTree
