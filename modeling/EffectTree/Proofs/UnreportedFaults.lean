import EffectTree.Proofs.ExpressionFaults
import EffectTree.Proofs.RecordedEvaluations

/-!
# Faults that are not reported

Compiling or evaluating an expression is meant to end in faults of the expression alone. Some
operations let other faults through. Each of them is named here with the fault that it lets through,
and an evaluation ends in a fault that is none of the expression exactly if it performs such an
operation.
-/
namespace EffectTree.Expression

open Value

/-- The types of collections, which offer iteration and do not support it. -/
def isCollectionType : Builtin → Bool
  | .str | .list | .tuple | .dict => true
  | _ => false

/-- Values that have slices. -/
def isSliced : Value → Bool
  | .str .. | .bytes .. | .list .. | .tuple .. => true
  | _ => false

/-- The faults that an operation lets through. -/
inductive Operation.LetsThrough : Operation → Fault → Prop where
  /-- A sign before what is no number. -/
  | unary {op : UnaryOp} {v : Value} {f : Fault} (h : unaryOp op v = .error f) :
      LetsThrough (.unary op v) f
  /-- A comparison of values without an order, or a member sought where there are none. -/
  | compare {op : CompareOp} {a b : Value} {f : Fault} (h : compareOp op a b = .error f) :
      LetsThrough (.compare op a b) f
  /-- A key or a member that cannot be one. -/
  | hash {v : Value} {f : Fault} (h : v.requireHashable = .error f) : LetsThrough (.hash v) f
  /-- A text that is filled in badly, which the remainder does. -/
  | fill {a b : Value} {f : Fault} (h : Value.mod a b = .error f)
      (hkind : f.kind.isOfOperands = false) :
      LetsThrough (.binary .mod a b) f
  /-- A slice in steps of zero. -/
  | slice {target lower upper step : Value} (htarget : isSliced target = true)
      (hstep : step.integer? = some 0) :
      LetsThrough (.slice target lower upper step) (.invalid "slice step cannot be zero")
  /-- A format that a value does not have. -/
  | format {v : Value} {c : Conversion} {spec : String} {f : Fault}
      (h : formatted (converted c v) spec = .error f) :
      LetsThrough (.format v c spec) f
  /-- A type in place of a collection. -/
  | iterate {b : Builtin} (h : isCollectionType b = true) :
      LetsThrough (.iterate (.builtin b)) (.notIterable (.builtin b))
  /-- A value without parts that is to be taken apart. -/
  | bind {target : Expr} {v : Value} {f : Fault} (h : bindTarget target v = .error f)
      (hkind : f.kind = .mismatch) :
      LetsThrough (.bind target v) f
  /-- A text read in an encoding, or with a way to handle errors, that is not known. -/
  | encoding {args : Arguments} {f : Fault} (h : applyStr args = .error f)
      (hkind : f.kind = .lookup) :
      LetsThrough (.call .str args) f
  /-- A function that gives the type of a collection. -/
  | called {function b : Builtin} {args : Arguments} (h : applyBuiltin function args =
      .ok (.builtin b))
      (htype : isCollectionType b = true) :
        LetsThrough (.call function args) (.notIterable (.builtin b))
  /-- A method that gives the type of a collection. -/
  | method {target : Value} {name : String} {args : Arguments} {apply : Arguments →
      Except Fault Value} {b : Builtin}
      (hmethod : method? target name = some apply) (h : apply args = .ok (.builtin b))
      (htype : isCollectionType b = true) :
        LetsThrough (.method target name args) (.notIterable (.builtin b))
  /-- A call of what can neither be called nor be written in a complaint. -/
  | refuseCall {function : Expr} (h : source? function = none) :
      LetsThrough (.refuseCall function)
        (.invalid "Unable to avoid backslash in f-string expression part")

section Kinds

variable {α : Type} {x : Except Fault α} {f : Fault}

theorem ne_error {kinds : FaultKind → Bool} (hx : OfKinds kinds x) (hf : kinds f.kind = false) :
    x ≠ .error f := by
  intro h
  have hkind : kinds f.kind = true := hx.of_error h
  rw [hf] at hkind
  cases hkind

theorem ne_error_of_reported (hx : Reported x) (hf : f.kind ≠ .expression) : x ≠ .error f :=
  Expression.ne_error hx (by simpa [FaultKind.isOfExpressions] using hf)

/-- What reporting leaves of the faults of a computation. -/
theorem reporting_eq_error_iff {kinds : FaultKind → Bool} (hf : f.kind ≠ .expression) :
    reporting kinds x = .error f ↔ x = .error f ∧ kinds f.kind = false := by
  cases x with
  | ok a => simp [reporting]
  | error e =>
    simp only [reporting, Except.error.injEq]
    split
    · rename_i hkind
      constructor
      · intro heq
        exact absurd (heq ▸ rfl) hf
      · rintro ⟨heq, hnot⟩
        rw [heq, hnot] at hkind
        cases hkind
    · rename_i hkind
      refine ⟨fun heq => ⟨heq, ?_⟩, fun h => h.1⟩
      rwa [heq, Bool.not_eq_true] at hkind

theorem kind_ne_expression (kinds : FaultKind → Bool) (hx : OfKinds kinds x) (h : x = .error f)
    (hkinds : kinds .expression = false) : f.kind ≠ .expression := by
  intro heq
  exact ne_error hx (by rw [heq, hkinds]) h

end Kinds

/-- Where iteration is offered it is only the types of collections that do not support it. -/
theorem items_eq_error_iff {v : Value} (hoffers : offersItems v = true) {f : Fault} :
    v.items = .error f ↔ ∃ b, isCollectionType b = true ∧ v = .builtin b ∧ f = .notIterable v := by
  cases v with
  | builtin b =>
    have htype : isCollectionType b = true := by cases b <;> first | rfl | cases hoffers
    constructor
    · intro h
      cases h
      exact ⟨b, htype, rfl, rfl⟩
    · rintro ⟨-, -, -, rfl⟩
      rfl
  | str | bytes | list | tuple | set | dict | generic => simp [items]
  | null | bool | int | float | complex | ellipsis | union | context => cases hoffers

theorem offersItems_of_isCollectionType {b : Builtin} (h : isCollectionType b = true) :
    offersItems (.builtin b) = true := by
  cases b <;> first | rfl | cases h

theorem listed_eq_error_iff {v : Value} {f : Fault} :
    listed v = .error f ↔ ∃ b, isCollectionType b = true ∧ v = .builtin b ∧ f = .notIterable v := by
  have hlisted : listed v = .error f ↔ offersItems v = true ∧ v.items = .error f := by
    cases v with
    | builtin b =>
      simp only [listed]
      split <;> simp_all [items, Except.map]
    | generic => simp [listed, items, Except.map, offersItems]
    | _ => simp [listed, items, offersItems]
  rw [hlisted]
  constructor
  · rintro ⟨hoffers, h⟩
    exact (items_eq_error_iff hoffers).mp h
  · rintro ⟨b, htype, rfl, rfl⟩
    exact ⟨offersItems_of_isCollectionType htype, rfl⟩

theorem sourceItems_eq_error_iff {v : Value} {f : Fault} (hf : f.kind ≠ .expression) :
    sourceItems v = .error f ↔ ∃ b, isCollectionType b = true ∧ v = .builtin b ∧
      f = .notIterable v := by
  unfold sourceItems
  split
  · exact items_eq_error_iff ‹_›
  · rename_i hoffers
    constructor
    · intro h
      cases h
      exact absurd rfl hf
    · rintro ⟨b, htype, rfl, rfl⟩
      exact absurd (offersItems_of_isCollectionType htype) hoffers

/-- A slice fails by a value of the wrong type or by a step of zero. -/
theorem sliceOf_eq_error_iff {target lower upper step : Value} {f : Fault}
    (hf : f.kind ≠ .mismatch) :
    sliceOf target lower upper step = .error f ↔
      isSliced target = true ∧ step.integer? = some 0 ∧
        f = .invalid "slice step cannot be zero" := by
  have hkind : FaultKind.isMismatch f.kind = false := by simpa [FaultKind.isMismatch] using hf
  have hbound (v : Value) : sliceBound v ≠ .error f := ne_error (sliceBound_ofKinds v) hkind
  have hbounds : sliceOf.bounds lower upper step = .error f ↔
      step.integer? = some 0 ∧ f = .invalid "slice step cannot be zero" := by
    have hzero : step.sliceBound = .ok (some 0) ↔ step.integer? = some 0 := by
      cases step <;> simp [sliceBound, integer?]
    rw [← hzero]
    simp only [sliceOf.bounds, Except.bind_eq_error, hbound, false_or]
    constructor
    · rintro ⟨k, hk, h⟩
      by_cases hstep : k.getD 1 = 0
      · obtain rfl : k = some 0 := by cases k <;> simp_all
        cases h
        exact ⟨hk, rfl⟩
      · simp only [hstep, if_false] at h
        exact absurd h (ne_error (by simp) hkind)
    · rintro ⟨hk, rfl⟩
      exact ⟨some 0, hk, rfl⟩
  cases target with
  | str | bytes | list | tuple =>
    simp only [sliceOf, Except.bind_eq_error, hbounds]
    simp [isSliced, pure, Except.pure]
  | _ =>
    exact ⟨fun h => absurd h (ne_error (by simp [sliceOf]) hkind),
      fun h => absurd h.1 Bool.false_ne_true⟩

theorem finishCall_eq_error_iff {r : Except Fault Value} {f : Fault} (hf : f.kind ≠ .expression) :
    finishCall r = .error f ↔ (r = .error f ∧ isCallFault f.kind = false) ∨
      ∃ b, isCollectionType b = true ∧ r = .ok (.builtin b) ∧ f = .notIterable (.builtin b) := by
  rw [finishCall, Except.bind_eq_error, reporting_eq_error_iff hf]
  refine or_congr .rfl ⟨?_, ?_⟩
  · rintro ⟨v, hv, hlisted⟩
    obtain ⟨b, htype, rfl, rfl⟩ := listed_eq_error_iff.mp hlisted
    have hr : r = .ok (.builtin b) := by cases r <;> simp_all [reporting]
    exact ⟨b, htype, hr, rfl⟩
  · rintro ⟨b, htype, rfl, rfl⟩
    exact ⟨.builtin b, rfl, listed_eq_error_iff.mpr ⟨b, htype, rfl, rfl⟩⟩

theorem isCallFault_of_isOfCalls {k : FaultKind} (h : k.isOfCalls = true) (hk : k ≠ .expression) :
    isCallFault k = true := by
  cases k <;> simp_all [FaultKind.isOfCalls, isCallFault, FaultKind.isMismatch, FaultKind.isInvalid,
    FaultKind.isArithmetic]

theorem applyBuiltin_eq_error {function : Builtin} {args : Arguments} {f : Fault}
    (h : applyBuiltin function args = .error f) (hf : f.kind ≠ .expression)
    (hkind : isCallFault f.kind = false) :
    function = .str ∧ f.kind = .lookup := by
  have hcalls : f.kind.isOfCalls = false := by
    rw [← Bool.not_eq_true]
    intro hcalls
    simp [isCallFault_of_isOfCalls hcalls hf] at hkind
  constructor
  · by_contra hfunction
    exact ne_error (applyBuiltin_ofCalls hfunction args) hcalls h
  · have hreading : f.kind.isOfReading = true := (applyBuiltin_ofReading function args).of_error h
    simpa [FaultKind.isOfReading, hcalls] using hreading

/-- Calls let through what is unknown to a text read in an encoding, and the types of
collections. -/
theorem call_letsThrough_iff (function : Builtin) (args : Arguments) {f : Fault}
    (hf : f.kind ≠ .expression) :
    finishCall (applyBuiltin function args) = .error f ↔
      Operation.LetsThrough (.call function args) f := by
  rw [finishCall_eq_error_iff hf]
  constructor
  · rintro (⟨h, hkind⟩ | ⟨b, htype, h, rfl⟩)
    · obtain ⟨rfl, hlookup⟩ := applyBuiltin_eq_error h hf hkind
      exact .encoding h hlookup
    · exact .called h htype
  · intro h
    cases h with
    | encoding h hkind => exact .inl ⟨h, by rw [hkind]; rfl⟩
    | called h htype => exact .inr ⟨_, htype, h, rfl⟩

theorem method_letsThrough_iff (target : Value) (name : String) (args : Arguments) {f : Fault}
    (hf : f.kind ≠ .expression) :
    callMethod target name args = .error f ↔
      Operation.LetsThrough (.method target name args) f := by
  unfold callMethod
  split
  · rename_i apply hmethod
    rw [finishCall_eq_error_iff hf]
    constructor
    · rintro (⟨h, hkind⟩ | ⟨b, htype, h, rfl⟩)
      · have hcalls : f.kind.isOfCalls = true := (method?_ofCalls hmethod args).of_error h
        simp [isCallFault_of_isOfCalls hcalls hf] at hkind
      · exact .method hmethod h htype
    · rintro (_ | _)
      simp_all
  · rename_i hmethod
    constructor
    · intro h
      cases h
      exact absurd rfl hf
    · intro h
      cases h with
      | method hsome => simp [hmethod] at hsome

theorem binary_letsThrough_iff (op : BinaryOp) (a b : Value) {f : Fault}
    (hf : f.kind ≠ .expression) :
    reporting FaultKind.isOfOperands (binaryOp op a b) = .error f ↔
      Operation.LetsThrough (.binary op a b) f := by
  rw [reporting_eq_error_iff hf]
  constructor
  · rintro ⟨h, hkind⟩
    by_cases hop : op = .mod
    · subst hop
      exact .fill h hkind
    · have hoperators : f.kind.isOfOperators = true := (binaryOp_ofOperators hop a b).of_error h
      simp [FaultKind.isOfOperators, hkind, hf] at hoperators
  · intro h
    cases h with
    | fill h hkind => exact ⟨h, hkind⟩

theorem slice_letsThrough_iff (target lower upper step : Value) {f : Fault}
    (hf : f.kind ≠ .expression) :
    reporting FaultKind.isMismatch (sliceOf target lower upper step) = .error f ↔
      Operation.LetsThrough (.slice target lower upper step) f := by
  rw [reporting_eq_error_iff hf]
  constructor
  · rintro ⟨h, hkind⟩
    obtain ⟨htarget, hstep, rfl⟩ :=
      (sliceOf_eq_error_iff (by simpa [FaultKind.isMismatch] using hkind)).mp h
    exact .slice htarget hstep
  · intro h
    cases h with
    | slice htarget hstep =>
      exact ⟨(sliceOf_eq_error_iff (by decide)).mpr ⟨htarget, hstep, rfl⟩, rfl⟩

theorem bind_letsThrough_iff (target : Expr) (v : Value) (frame : Frame) {f : Fault}
    (hf : f.kind ≠ .expression) :
    (Operation.bound target v frame).1 = .error f ↔ Operation.LetsThrough (.bind target v) f := by
  have hbound : (Operation.bound target v frame).1 = .error f ↔ bindTarget target v = .error f := by
    unfold Operation.bound
    split <;> simp_all
  rw [hbound]
  constructor
  · intro h
    have hkind : f.kind.isOfTargets = true := (bindTarget_ofTargets target v).of_error h
    exact .bind h (by simpa [FaultKind.isOfTargets, FaultKind.isMismatch, hf] using hkind)
  · intro h
    cases h with
    | bind h => exact h

theorem refuseCall_letsThrough_iff (function : Expr) {f : Fault} (hf : f.kind ≠ .expression) :
    notCallable function = f ↔ Operation.LetsThrough (.refuseCall function) f := by
  unfold notCallable
  constructor
  · intro h
    split at h
    · exact absurd (h ▸ rfl) hf
    · subst h
      exact .refuseCall ‹_›
  · intro h
    cases h with
    | refuseCall h => simp [h]

theorem Operation.LetsThrough.kind_ne {o : Operation} {f : Fault} (h : o.LetsThrough f) :
    f.kind ≠ .expression := by
  cases h with
  | unary h => exact kind_ne_expression FaultKind.isOfOperands (unaryOp_ofKinds _ _) h rfl
  | compare h => exact kind_ne_expression FaultKind.isOfFormats (compareOp_ofKinds _ _ _) h rfl
  | hash h => exact kind_ne_expression FaultKind.isMismatch (requireHashable_ofKinds _) h rfl
  | fill h => exact kind_ne_expression FaultKind.isOfFilling (mod_ofKinds _ _) h rfl
  | format h => exact kind_ne_expression FaultKind.isOfFormats (formatted_ofKinds _ _) h rfl
  | bind h hkind => simp [hkind]
  | encoding h hkind => simp [hkind]
  | slice | iterate | called | method | refuseCall => exact nofun

/-- An operation ends in a fault that is none of the expression exactly if it lets it through. -/
theorem Operation.letsThrough_iff (o : Operation) (frame : Frame) (f : Fault) :
    (o.run frame).1 = .error f ∧ f.kind ≠ .expression ↔ o.LetsThrough f := by
  by_cases hf : f.kind = .expression
  · exact ⟨fun h => absurd hf h.2, fun h => absurd hf h.kind_ne⟩
  rw [and_iff_left hf]
  cases o with
  | visit => exact ⟨fun h => absurd h (ne_error_of_reported (visited_reported frame) hf), nofun⟩
  | track | join => exact ⟨nofun, nofun⟩
  | lookup name =>
    exact ⟨fun h => absurd h (ne_error_of_reported (lookup_reported name _) hf), nofun⟩
  | binary op a b => exact binary_letsThrough_iff op a b hf
  | unary op v =>
    refine ⟨.unary, fun h => ?_⟩
    cases h with
    | unary h => exact h
  | compare op a b =>
    refine ⟨.compare, fun h => ?_⟩
    cases h with
    | compare h => exact h
  | item target key =>
    exact ⟨fun h => absurd h (ne_error_of_reported (itemOf_reported target key) hf), nofun⟩
  | slice target lower upper step => exact slice_letsThrough_iff target lower upper step hf
  | field target name =>
    exact ⟨fun h => absurd h (ne_error_of_reported (fieldOf_reported target name) hf), nofun⟩
  | call function args => exact call_letsThrough_iff function args hf
  | method target name args => exact method_letsThrough_iff target name args hf
  | hash v =>
    refine ⟨.hash, fun h => ?_⟩
    cases h with
    | hash h => exact h
  | format v conversion spec =>
    refine ⟨.format, fun h => ?_⟩
    cases h with
    | format h => exact h
  | iterate v =>
    refine (sourceItems_eq_error_iff hf).trans ⟨?_, fun h => ?_⟩
    · rintro ⟨b, htype, rfl, rfl⟩
      exact .iterate htype
    · cases h with
      | iterate htype => exact ⟨_, htype, rfl, rfl⟩
  | bind target v => exact bind_letsThrough_iff target v frame hf
  | collect c v => exact ⟨fun h => absurd h (ne_error_of_reported (c.add_reported v) hf), nofun⟩
  | refuse text =>
    refine ⟨fun h => ?_, nofun⟩
    cases h
    exact absurd rfl hf
  | refuseCall function =>
    rw [← refuseCall_letsThrough_iff function hf]
    change (Except.error (notCallable function) : Except Fault Empty) = .error f ↔ _
    rw [Except.error.injEq]

/-- The text that is read as the body of a source. -/
def bodyText (source : String) : String := Text.strip (respell (splitArrow source).body)

/-- Compiling fails with a fault of the expression, unless the body cannot be encoded. -/
theorem compile_eq_error_iff (source : String) (f : Fault) :
    compile source = .error f ∧ f.kind ≠ .expression ↔
      (splitArrow source).body.isEmpty = false ∧
        ∃ problem, Text.unencodable? (bodyText source) = some problem ∧
          f = .unencodable problem := by
  unfold compile bodyText
  dsimp only
  split
  · rename_i hempty
    refine ⟨fun ⟨h, hf⟩ => ?_, fun ⟨h, _⟩ => by simp [hempty] at h⟩
    cases h
    exact absurd rfl hf
  · rename_i hbody
    rw [Bool.not_eq_true] at hbody
    simp only [hbody, true_and]
    cases hencoding : Text.unencodable? (Text.strip (respell (splitArrow source).body)) with
    | some problem =>
      refine ⟨fun ⟨h, _⟩ => ⟨problem, rfl, (Except.error.inj h).symm⟩, ?_⟩
      rintro ⟨_, hproblem, rfl⟩
      cases hproblem
      exact ⟨rfl, nofun⟩
    | none =>
      refine ⟨fun ⟨h, hf⟩ => ?_, fun ⟨_, hproblem, _⟩ => nomatch hproblem⟩
      dsimp only at h
      (repeat' split at h) <;> cases h <;> exact absurd rfl hf

/-- Compiling and evaluating end in a fault that is none of the expression exactly if the body
cannot be encoded, or an operation is performed that lets the fault through. -/
theorem unreported_iff (source : String) (e : Expr) (bindings : Table Value) (f : Fault) :
    (compile source = .error f ∧ f.kind ≠ .expression ↔
      (splitArrow source).body.isEmpty = false ∧
        ∃ problem, Text.unencodable? (bodyText source) = some problem ∧ f = .unencodable problem) ∧
    (evaluate e bindings = .error f ∧ f.kind ≠ .expression ↔
      ∃ step ∈ performed e bindings, step.1.LetsThrough f) := by
  refine ⟨compile_eq_error_iff source f, ?_⟩
  rw [evaluate_eq_error_iff]
  constructor
  · rintro ⟨⟨step, hstep, hfault⟩, hf⟩
    exact ⟨step, hstep, (step.1.letsThrough_iff step.2 f).mp
      ⟨Step.fault?_eq_some_iff.mp hfault, hf⟩⟩
  · rintro ⟨step, hstep, hthrough⟩
    obtain ⟨hfault, hf⟩ := (step.1.letsThrough_iff step.2 f).mpr hthrough
    exact ⟨⟨step, hstep, Step.fault?_eq_some_iff.mpr hfault⟩, hf⟩

/-- A sign before a text is compiled and lets its fault through, and half of a pair of surrogates
keeps a source from being compiled. -/
theorem sign_of_text_unreported :
    (∃ c, compile "-'a'" = .ok c ∧
      c.call [] = .error (.mismatch "bad operand type for unary -: 'str'")) ∧
      ∃ problem, compile (String.ofList ['\'', Text.charOf 0xD800, '\'']) =
        .error (.unencodable problem) :=
  ⟨⟨_, rfl, rfl⟩, _, rfl⟩

end EffectTree.Expression
