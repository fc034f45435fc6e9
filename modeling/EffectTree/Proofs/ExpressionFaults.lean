import EffectTree.Expression.Compile
import EffectTree.Proofs.RelatedEvaluations
import EffectTree.Proofs.ValueFaults

/-!
# Faults of expressions

Expressions compute on values, so compiling and evaluating them ends only in faults of values. Calls
of functions and methods end in faults of fewer kinds, but for texts read in an encoding that is not
known.
-/
namespace EffectTree

open FaultKind (Covers isMismatch isOfOperands isOfFormats)

/-- The faults that calls end in. -/
def FaultKind.isOfCalls : FaultKind → Bool
  | mismatch | invalid | zeroDivision | overflow | undecodable | expression => true
  | _ => false

instance : Covers FaultKind.isOfCalls isOfFormats :=
  ⟨by rintro (_ | _) <;> simp [isOfFormats, isOfOperands, isMismatch, FaultKind.isArithmetic,
    FaultKind.isOfCalls]⟩

instance : Covers FaultKind.isOfValues FaultKind.isOfCalls :=
  ⟨by rintro (_ | _) <;> simp [FaultKind.isOfCalls, FaultKind.isOfValues]⟩

def Fault.isOfCalls (e : Fault) : Bool := e.kind.isOfCalls

@[simp] theorem Fault.isOf_isOfCalls (e : Fault) :
    e.IsOf FaultKind.isOfCalls ↔ e.isOfCalls = true := .rfl

@[simp] theorem Fault.isOfCalls_text (text : String) :
    (mismatch text).isOfCalls = true ∧ (invalid text).isOfCalls = true ∧
    (divisionByZero text).isOfCalls = true ∧
    (overflow text).isOfCalls = true ∧ (expression text).isOfCalls = true ∧
    (undecodable text).isOfCalls = true := by
  simp [isOfCalls, kind, FaultKind.isOfCalls]

@[simp] theorem Fault.isOfCalls_notInteger (base : Int) (literal : String) :
    (notInteger base literal).isOfCalls = true := rfl

@[simp] theorem Fault.isOfCalls_operands (symbol : String) (a b : Value) :
    (operands symbol a b).isOfCalls = true := rfl

/-- The faults that operators end in. -/
def FaultKind.isOfOperators (k : FaultKind) : Bool := k.isOfOperands || k = .expression

instance : Covers FaultKind.isOfOperators isOfOperands :=
  ⟨fun _ h => by simp [FaultKind.isOfOperators, h]⟩

instance : Covers FaultKind.isOfValues FaultKind.isOfOperators :=
  ⟨by rintro (_ | _) <;> simp [FaultKind.isOfOperators, isOfOperands, isMismatch,
    FaultKind.isArithmetic, FaultKind.isOfValues]⟩

/-- The faults that taking values apart ends in. -/
def FaultKind.isOfTargets (k : FaultKind) : Bool := k.isMismatch || k = .expression

instance : Covers FaultKind.isOfTargets isMismatch :=
  ⟨fun _ h => by simp [FaultKind.isOfTargets, h]⟩

instance : Covers FaultKind.isOfValues FaultKind.isOfTargets :=
  ⟨by rintro (_ | _) <;> simp [FaultKind.isOfTargets, isMismatch, FaultKind.isOfValues]⟩

@[simp] theorem Fault.isOfTargets_expression (text : String) :
    (expression text).IsOf FaultKind.isOfTargets := rfl

/-- The faults that are reported as faults of the expression. -/
def FaultKind.isOfExpressions (k : FaultKind) : Bool := k = .expression

instance : Covers FaultKind.isOfValues FaultKind.isOfExpressions :=
  ⟨by rintro (_ | _) <;> simp [FaultKind.isOfExpressions, FaultKind.isOfValues]⟩

/-- The faults that reading a text in an encoding ends in. -/
def FaultKind.isOfReading (k : FaultKind) : Bool := k.isOfCalls || k = .lookup

instance : Covers FaultKind.isOfReading FaultKind.isOfCalls :=
  ⟨fun _ h => by simp [FaultKind.isOfReading, h]⟩

instance : Covers FaultKind.isOfValues FaultKind.isOfReading :=
  ⟨by rintro (_ | _) <;> simp [FaultKind.isOfReading, FaultKind.isOfCalls, FaultKind.isOfValues]⟩

abbrev OfCalls {α : Type} (x : Except Fault α) : Prop := OfKinds FaultKind.isOfCalls x

abbrev OfOperators {α : Type} (x : Except Fault α) : Prop := OfKinds FaultKind.isOfOperators x

/-- A computation that ends in faults of the expression alone. -/
abbrev Reported {α : Type} (x : Except Fault α) : Prop := OfKinds FaultKind.isOfExpressions x

namespace Expression

open Value

namespace Arguments

@[simp] theorem withoutKeywords_ofCalls (args : Arguments) (function : String) :
    OfCalls (args.withoutKeywords function) := by
  simp [withoutKeywords]

@[simp] theorem nothing_ofCalls (args : Arguments) (function : String) :
    OfCalls (args.nothing function) := by
  simp [nothing]

@[simp] theorem one_ofCalls (args : Arguments) (function : String) :
    OfCalls (args.one function) := by
  refine .bind (withoutKeywords_ofCalls args function) fun vs => ?_
  split <;> simp

@[simp] theorem between_ofCalls (args : Arguments) (owner function : String) (least most : Nat) :
    OfCalls (args.between owner function least most) := by
  simp [between]

@[simp] theorem search_ofCalls (args : Arguments) (function : String) :
    OfCalls (args.search function) := by
  refine .bind (withoutKeywords_ofCalls args function) fun vs => ?_
  split <;> simp

@[simp] theorem named_ofCalls (args : Arguments) (s : Signature) : OfCalls (args.named s) := by
  simp only [named, throw_bind]
  (repeat' split) <;> simp

theorem keywordFault?_isOfCalls {args : Arguments} {d : Definition} {e : Fault}
    (h : args.keywordFault? d = some e) : e.isOfCalls = true := by
  obtain ⟨⟨name, v⟩, -, hentry⟩ := List.exists_of_findSome?_eq_some h
  dsimp only at hentry
  split_ifs at hentry <;> cases hentry <;> rfl

@[simp] theorem defined_ofCalls (args : Arguments) (d : Definition) : OfCalls (args.defined d) := by
  simp only [defined, throw_bind]
  split
  · exact keywordFault?_isOfCalls ‹_›
  · simp

end Arguments

@[simp] theorem wholeNumber_ofCalls (v : Value) : OfCalls (wholeNumber v) := by
  unfold wholeNumber
  split <;> simp

@[simp] theorem flagNumber_ofCalls (v : Value) : OfCalls (flagNumber v) := by
  simp [flagNumber]

@[simp] theorem sizedNumber_ofCalls (v : Value) : OfCalls (sizedNumber v) := by
  simp [sizedNumber]

@[simp] theorem readInteger_ofCalls (base : Int) (v : Value) (s : String) :
    OfCalls (readInteger base v s) := by
  unfold readInteger
  split <;> simp

@[simp] theorem wholePart_ofCalls (x : Float) : OfCalls (wholePart x) := by
  unfold wholePart
  split <;> simp

@[simp] theorem toInteger_ofCalls (v : Value) : OfCalls (toInteger v) := by
  unfold toInteger
  split <;> simp

@[simp] theorem toIntegerIn_ofCalls (v base : Value) : OfCalls (toIntegerIn v base) := by
  refine .bind (wholeNumber_ofCalls base) fun b => ?_
  simp only [throw_bind]
  (repeat' split) <;> simp

@[simp] theorem applyInt_ofCalls (args : Arguments) : OfCalls (applyInt args) := by
  refine .bind (Arguments.named_ofCalls args _) fun values => ?_
  split <;> simp

@[simp] theorem toDoubleValue_ofCalls (v : Value) : OfCalls (toDoubleValue v) := by
  unfold toDoubleValue toDoubleValue.read
  (repeat' split) <;> simp

@[simp] theorem pairsOf_ofCalls (i : Nat) (xs : List Value) (acc : List (Value × Value)) :
    OfCalls (pairsOf i xs acc) := by
  induction xs generalizing i acc with
  | nil => simp [pairsOf]
  | cons v rest ih =>
    simp only [pairsOf, throw_bind, pure_bind]
    (repeat' split) <;> simp [ih]

@[simp] theorem applyDict_ofCalls (args : Arguments) : OfCalls (applyDict args) := by
  simp only [applyDict, throw_bind, pure_bind]
  split <;> simp

@[simp] theorem rangeItems_ofCalls (start stop step : Int) :
    OfCalls (rangeItems start stop step) := by
  simp [rangeItems]

@[simp] theorem applyRange_ofCalls (vs : List Value) : OfCalls (applyRange vs) := by
  unfold applyRange
  split <;> simp

@[simp] theorem reversedItems_ofCalls (v : Value) : OfCalls (reversedItems v) := by
  unfold reversedItems
  split <;> simp

@[simp] theorem roundDouble_ofCalls (x : Float) (places : Int) :
    OfCalls (roundDouble x places) := by
  unfold roundDouble
  split <;> simp

@[simp] theorem roundWhole_ofCalls (x : Float) : OfCalls (roundWhole x) := by
  unfold roundWhole
  split <;> simp

@[simp] theorem round_ofCalls (v : Value) (places : Option Value) : OfCalls (round v places) := by
  unfold round
  (repeat' split) <;> simp

@[simp] theorem applyRound_ofCalls (args : Arguments) : OfCalls (applyRound args) := by
  refine .bind (Arguments.named_ofCalls args _) fun values => ?_
  split <;> simp

theorem decodeOctets_ofReading (bs : List UInt8) (encoding handling : String) :
    OfKinds FaultKind.isOfReading (decodeOctets bs encoding handling) := by
  unfold decodeOctets
  (repeat' split) <;> trivial

@[simp] theorem textArgument_ofCalls (name : String) (v : Option Value) (default : String) :
    OfCalls (textArgument name v default) := by
  unfold textArgument
  split <;> simp

theorem applyStr_ofReading (args : Arguments) : OfKinds FaultKind.isOfReading (applyStr args) := by
  refine .bind (Arguments.named_ofCalls args _).weaken fun values => ?_
  refine .ite (ofKinds_pure _) (.bind (textArgument_ofCalls ..).weaken fun encoding => ?_)
  refine .bind (textArgument_ofCalls ..).weaken fun errors => ?_
  split
  · exact decodeOctets_ofReading ..
  · rfl
  · rfl

@[simp] theorem sumItems_ofCalls (xs : List Value) (start : Value) :
    OfCalls (sumItems xs start) := by
  unfold sumItems
  split
  · simp
  · simp
  · exact ofKinds_foldlM add_ofKinds xs _

@[simp] theorem applySum_ofCalls (args : Arguments) : OfCalls (applySum args) := by
  refine .bind (Arguments.named_ofCalls args _) fun values => ?_
  split <;> simp

section Keys

variable {call : Builtin → List Value → Except Fault Value} (hcall : ∀ f v, OfCalls (call f [v]))
include hcall

theorem keyFunction_ofCalls (f : Option Value) (v : Value) : OfCalls (keyFunction call f v) := by
  unfold keyFunction
  split <;> simp [hcall]

omit hcall in
theorem sortItems_ofCalls {key : KeyFunction} (hkey : ∀ v, OfCalls (key v)) (xs : List Value)
    (reverse : Bool) :
    OfCalls (sortItems xs key reverse) := by
  refine .bind (ofKinds_mapM (fun x => by simp [hkey]) xs) fun keyed => ?_
  split <;> simp

omit hcall in
theorem extremeItem_ofCalls {key : KeyFunction} (hkey : ∀ v, OfCalls (key v)) (direction : Relation)
    (xs : List Value) : OfCalls (extremeItem direction key xs) := by
  cases xs with
  | nil => simp [extremeItem]
  | cons x xs =>
    refine .bind (hkey x) fun k => .bind (ofKinds_foldlM (fun best y => ?_) xs _) fun best =>
      ofKinds_pure _
    refine .bind (hkey y) fun k => .bind (related_ofKinds ..) fun b => ?_
    split <;> simp

theorem applySorted_ofCalls (args : Arguments) : OfCalls (applySorted call args) := by
  unfold applySorted
  split
  · refine .bind (items_ofKinds _) fun xs => .bind (Arguments.named_ofCalls ..) fun values => ?_
    split <;> simp [sortItems_ofCalls (keyFunction_ofCalls hcall _)]
  · simp

theorem applyExtreme_ofCalls (name : String) (direction : Relation) (args : Arguments) :
    OfCalls (applyExtreme name direction call args) := by
  simp only [applyExtreme, throw_bind]
  refine .ite (by simp) (.bind (Arguments.named_ofCalls ..) fun values => ?_)
  have hxs (xs : List Value) :=
    extremeItem_ofCalls (keyFunction_ofCalls hcall (values[0]?.join)) direction xs
  split
  · refine .bind (items_ofKinds _) fun xs => .bind (hxs xs) fun best => ?_
    (repeat' split) <;> simp
  · refine .ite (by simp) (.bind (ofKinds_pure _) fun xs => .bind (hxs xs) fun best => ?_)
    (repeat' split) <;> simp

omit hcall in
theorem atMostOne_ofCalls {f : Value → Except Fault Value} (hf : ∀ v, OfCalls (f v))
    (args : Arguments) (name : String) (empty : Value) : OfCalls (atMostOne args name empty f) := by
  refine .bind (Arguments.between_ofCalls ..) fun vs => ?_
  split <;> simp [hf]

omit hcall in
@[simp] theorem toTuple_ofCalls (v : Value) : OfCalls (toTuple v) := by
  unfold toTuple
  split <;> simp

theorem applyWith_ofCalls {f : Builtin} (hf : f ≠ .str) (args : Arguments) :
    OfCalls (applyWith call f args) := by
  cases f with
  | bool | float | list | tuple => exact atMostOne_ofCalls (by simp) args _ _
  | max | min => exact applyExtreme_ofCalls hcall _ _ args
  | sorted => exact applySorted_ofCalls hcall args
  | enumerate | reversed =>
    refine .bind (Arguments.defined_ofCalls ..) fun values => ?_
    split <;> simp
  | len =>
    refine .bind (Arguments.one_ofCalls ..) fun v => ?_
    split <;> simp
  | zip => simp [applyWith, ofKinds_mapM items_ofKinds]
  | str => exact absurd rfl hf
  | abs | all | any | dict | int | range | round | sum => simp [applyWith]

end Keys

theorem applyKey_ofCalls (f : Builtin) (v : Value) : OfCalls (applyKey f [v]) := by
  by_cases hf : f = .str
  · subst hf
    exact ofKinds_ok _
  · exact applyWith_ofCalls (fun _ _ => ofKinds_ok _) hf _

/-- Calls of functions, but for texts read in an encoding. -/
theorem applyBuiltin_ofCalls {f : Builtin} (hf : f ≠ .str) (args : Arguments) :
    OfCalls (applyBuiltin f args) :=
  applyWith_ofCalls applyKey_ofCalls hf args

@[simp] theorem applyBuiltin_ofReading (f : Builtin) (args : Arguments) :
    OfKinds FaultKind.isOfReading (applyBuiltin f args) := by
  by_cases hf : f = .str
  · subst hf
    exact applyStr_ofReading args
  · exact (applyBuiltin_ofCalls hf args).weaken

@[simp] theorem searchBound_ofCalls (size : Nat) (default : Int) (clip : Bool) (v : Value) :
    OfCalls (searchBound size default clip v) := by
  refine .bind (sliceBound_ofKinds v) fun bound => ?_
  split <;> simp

@[simp] theorem searchRange_ofCalls (s : String) (lower upper : Value) :
    OfCalls (searchRange s lower upper) := by
  simp [searchRange]

@[simp] theorem searchText_ofCalls (v : Value) : OfCalls (searchText v) := by
  unfold searchText
  split <;> simp

@[simp] theorem hasAny_ofCalls (function : String) (test : List Char → Bool) (vs : List Value) :
    OfCalls (hasAny function test vs) := by
  induction vs with
  | nil => simp [hasAny]
  | cons v rest ih =>
    unfold hasAny
    split <;> simp_all

@[simp] theorem affixed_ofCalls (function : String) (test : List Char → List Char → Bool)
    (s : String) (args : Arguments) : OfCalls (affixed function test s args) := by
  refine .bind (Arguments.search_ofCalls ..) fun found => .bind (searchRange_ofCalls ..)
    fun range => ?_
  split <;> simp

@[simp] theorem joinable_ofCalls (i : Nat) (vs : List Value) : OfCalls (joinable i vs) := by
  induction vs generalizing i with
  | nil => simp [joinable]
  | cons v rest ih =>
    unfold joinable
    split <;> simp_all

@[simp] theorem trimSet_ofCalls (function : String) (args : Arguments) :
    OfCalls (trimSet function args) := by
  refine .bind (Arguments.between_ofCalls ..) fun vs => ?_
  split <;> simp

@[simp] theorem joinTexts_ofCalls (separator : String) (xs : List Value) :
    OfCalls (joinTexts separator xs) := by
  refine .bind (joinable_ofCalls 0 xs) fun texts => ?_
  split <;> simp

@[simp] theorem replaced_ofCalls (whole : Value) (args : Arguments) :
    OfCalls (replaced whole args) := by
  refine .bind (Arguments.between_ofCalls ..) fun vs => .bind ?_ fun old => .bind ?_ fun new => ?_
  · dsimp only
    split <;> simp
  · dsimp only
    split <;> simp
  · split <;> simp

@[simp] theorem splitParts_ofCalls (whole : Value) (args : Arguments) :
    OfCalls (splitParts whole args) := by
  refine .bind (Arguments.named_ofCalls ..) fun values => ?_
  simp only [throw_bind]
  (repeat' split) <;> simp

@[simp] theorem lineParts_ofCalls (whole : Value) (args : Arguments) :
    OfCalls (lineParts whole args) := by
  refine .bind (Arguments.named_ofCalls ..) fun values => ?_
  split <;> simp

@[simp] theorem plainText_ofCalls (function : String) (f : String → Value) (s : String)
    (args : Arguments) :
    OfCalls (plainText function f s args) := by
  simp [plainText]

@[simp] theorem applyText_ofCalls (s : String) (whole : Value) (args : Arguments)
    (method : TextMethod) :
    OfCalls (applyText s whole args method) := by
  cases method with
  | join =>
    refine .bind (Arguments.one_ofCalls ..) fun v => ?_
    split <;> simp
  | _ => simp [applyText]

@[simp] theorem indexBound_ofCalls (size : Nat) (default : Int) (v : Option Value) :
    OfCalls (indexBound size default v) := by
  unfold indexBound
  (repeat' split) <;> simp

theorem applySequence_ofCalls {missing : Value → Fault}
    (hmissing : ∀ v, (missing v).isOfCalls = true) (owner : String) (xs : List Value)
    (args : Arguments) (method : SequenceMethod) :
    OfCalls (applySequence owner xs args missing method) := by
  cases method with
  | count => simp [applySequence]
  | index =>
    refine .bind (Arguments.between_ofCalls ..) fun vs => .bind (indexBound_ofCalls ..) fun low =>
      .bind (indexBound_ofCalls ..) fun high => ?_
    split <;> simp [hmissing]

@[simp] theorem applyDictMethod_ofCalls (es : List (Value × Value)) (args : Arguments)
    (method : DictMethod) :
    OfCalls (applyDictMethod es args method) := by
  cases method <;> simp [applyDictMethod]

theorem method?_ofCalls {target : Value} {name : String} {method : Arguments → Except Fault Value}
    (h : method? target name = some method) (args : Arguments) : OfCalls (method args) := by
  unfold method? at h
  split at h
  · obtain ⟨m, -, rfl⟩ := Option.map_eq_some_iff.mp h
    exact applyText_ofCalls _ _ args m
  · obtain ⟨m, -, rfl⟩ := Option.map_eq_some_iff.mp h
    exact applySequence_ofCalls (by simp) _ _ args m
  · obtain ⟨m, -, rfl⟩ := Option.map_eq_some_iff.mp h
    exact applySequence_ofCalls (by simp) _ _ args m
  · obtain ⟨m, -, rfl⟩ := Option.map_eq_some_iff.mp h
    exact applyDictMethod_ofCalls _ args m
  · cases h

theorem join_ofOperators (a b : Value) : OfOperators (join a b) := by
  simp [join]

theorem multiply_ofOperators (a b : Value) : OfOperators (multiply a b) :=
  .ite rfl (mul_ofKinds a b)

theorem raise_ofOperators (a b : Value) : OfOperators (raise a b) :=
  .ite rfl (power_ofKinds a b)

/-- Operators but for the remainder, which also fills in texts. -/
theorem binaryOp_ofOperators {op : BinaryOp} (hop : op ≠ .mod) (a b : Value) :
    OfOperators (binaryOp op a b) := by
  cases op with
  | mod => exact absurd rfl hop
  | add => exact join_ofOperators a b
  | mul => exact multiply_ofOperators a b
  | pow => exact raise_ofOperators a b
  | matMul | shiftLeft | shiftRight => rfl
  | sub | div | floorDiv | bitAnd | bitOr | bitXor => simp [binaryOp]

theorem binaryOp_ofValues (op : BinaryOp) (a b : Value) : OfValues (binaryOp op a b) := by
  by_cases hop : op = .mod
  · subst hop
    exact mod_ofKinds a b
  · exact (binaryOp_ofOperators hop a b).weaken

theorem unaryOp_ofKinds {kinds : FaultKind → Bool} [Covers kinds isOfOperands] (op : UnaryOp)
    (v : Value) :
    OfKinds kinds (unaryOp op v) := by
  cases op <;> simp [unaryOp]

theorem compareOp_ofKinds {kinds : FaultKind → Bool} [Covers kinds isOfFormats] (op : CompareOp)
    (a b : Value) :
    OfKinds kinds (compareOp op a b) := by
  cases op <;> simp [compareOp]

theorem reporting_reported {α : Type} {kinds more : FaultKind → Bool} {r : Except Fault α}
    (h : OfKinds more r) (hkinds : ∀ k, more k = true → kinds k = true ∨ k = .expression) :
    Reported (reporting kinds r) := by
  cases r with
  | ok a => trivial
  | error e =>
    simp only [reporting, Reported, ofKinds_error]
    rcases hkinds e.kind h with hreported | hexpression
    · rw [if_pos hreported]
      rfl
    · split
      · rfl
      · simp [Fault.IsOf, FaultKind.isOfExpressions, hexpression]

theorem itemOf_reported (target key : Value) : Reported (itemOf target key) :=
  have h : OfKinds isMismatch (itemAt target key) := itemAt_ofKinds target key
  (ofKinds_map ..).mpr (reporting_reported h fun _ => .inl)

theorem fieldOf_reported (target : Value) (name : String) : Reported (fieldOf target name) := by
  unfold fieldOf
  dsimp only
  split <;> first | exact .ite trivial rfl | exact rfl

theorem reporting_ofValues {α : Type} (kinds : FaultKind → Bool) {r : Except Fault α}
    (h : OfValues r) :
    OfValues (reporting kinds r) := by
  cases r with
  | ok a => trivial
  | error e =>
    simp only [reporting, ofKinds_error]
    split
    · rfl
    · exact h

@[simp] theorem listed_ofKinds {kinds : FaultKind → Bool} [Covers kinds isMismatch] (v : Value) :
    OfKinds kinds (listed v) := by
  unfold listed
  split <;> simp

theorem finishCall_ofValues {r : Except Fault Value} (h : OfValues r) : OfValues (finishCall r) :=
  .bind (reporting_ofValues _ h) listed_ofKinds

theorem callMethod_ofValues (target : Value) (name : String) (args : Arguments) :
    OfValues (callMethod target name args) := by
  unfold callMethod
  split
  · exact finishCall_ofValues (method?_ofCalls ‹_› args).weaken
  · rfl

theorem formatted_ofKinds {kinds : FaultKind → Bool} [Covers kinds isOfFormats] (v : Value)
    (spec : String) :
    OfKinds kinds (formatted v spec) := by
  simp [formatted]

mutual

theorem bindTarget_ofTargets :
    (target : Expr) → (v : Value) → OfKinds FaultKind.isOfTargets (bindTarget target v)
  | .name _, _ => by simp [bindTarget]
  | .tuple targets, v => by simp [bindTarget, bindTargets_ofTargets targets]
  | .constant _, _ | .binary .., _ | .unary .., _ | .logical .., _ | .compare .., _
  | .conditional .., _ | .item .., _ | .slice .., _ | .field .., _ | .call .., _ | .list _, _
  | .set _, _ | .dict _, _ | .text _, _ | .formatted .., _ | .comprehension .., _
  | .unsupported _, _ => by simp [bindTarget]

theorem bindTargets_ofTargets :
    (targets : List Expr) → (vs : List Value) →
    OfKinds FaultKind.isOfTargets (bindTargets targets vs)
  | [], _ => by simp [bindTargets]
  | _ :: _, [] => by simp [bindTargets]
  | t :: ts, v :: vs => by simp [bindTargets, bindTarget_ofTargets t, bindTargets_ofTargets ts]

end

theorem sourceItems_ofValues (v : Value) : OfValues (sourceItems v) := by
  simp [sourceItems]

theorem lookup_reported (name : String) (scopes : List (Table Value)) :
    Reported (lookup name scopes) := by
  unfold lookup
  (repeat' split) <;> trivial

theorem Collected.add_reported (c : Collected) (v : Value) : Reported (c.add v) := by
  unfold add
  split
  · trivial
  · rfl

theorem notCallable_isOfValues (function : Expr) : (notCallable function).isOfValues = true := by
  unfold notCallable
  split <;> rfl

theorem Operation.visited_reported (frame : Frame) : Reported (visited frame).1 := by
  unfold visited
  split
  · rfl
  · trivial

theorem Operation.bound_ofValues (target : Expr) (v : Value) (frame : Frame) :
    OfValues (bound target v frame).1 := by
  unfold bound
  split
  · trivial
  · have h : OfValues (bindTarget target v) := (bindTarget_ofTargets target v).weaken
    exact h.of_error ‹_›

/-- Operations end only in faults of values. -/
theorem Operation.run_ofValues (o : Operation) (frame : Frame) : OfValues (o.run frame).1 := by
  cases o with
  | visit => exact (visited_reported frame).weaken
  | track | join => trivial
  | lookup name => exact (lookup_reported name frame.scopes).weaken
  | binary op a b => exact reporting_ofValues _ (binaryOp_ofValues op a b)
  | unary op v => exact unaryOp_ofKinds op v
  | compare op a b => exact compareOp_ofKinds op a b
  | item target key => exact (itemOf_reported target key).weaken
  | slice target lower upper step =>
    exact reporting_ofValues _ (sliceOf_ofKinds target lower upper step)
  | field target name => exact (fieldOf_reported target name).weaken
  | call f args => exact finishCall_ofValues (applyBuiltin_ofReading f args).weaken
  | method target name args => exact callMethod_ofValues target name args
  | hash v => exact requireHashable_ofKinds v
  | format v conversion spec => exact formatted_ofKinds _ spec
  | iterate v => exact sourceItems_ofValues v
  | bind target v => exact bound_ofValues target v frame
  | collect c v => exact (c.add_reported v).weaken
  | refuse => rfl
  | refuseCall function => exact notCallable_isOfValues function

theorem eval_ofValues (e : Expr) (frame : Frame) :
    OfValues (counted (m := Eval) e (eval e) frame).1 := by
  refine Respects.closed (m := Eval) (P := fun {α} (x : Eval α) => ∀ frame, OfValues (x frame).1)
    (fun a _ => ofKinds_ok a) ?_ Operation.run_ofValues (fun h frame => h _) e frame
  intro α β x f hx hf frame
  have hx := hx frame
  rw [bind_run]
  split <;> simp_all

@[simp] theorem evaluate_ofValues (e : Expr) (bindings : Table Value) :
    OfValues (evaluate e bindings) :=
  (ofKinds_map ..).mpr (eval_ofValues _ _)

@[simp] theorem call_ofValues (c : Compiled) (args : List Value) : OfValues (c.call args) :=
  evaluate_ofValues _ _

@[simp] theorem compileValue_ofValues (source : Value) : OfValues (compileValue source) := by
  unfold compileValue
  split
  · unfold compile
    dsimp only
    (repeat' split) <;> simp
  · simp

end Expression

end EffectTree
