import EffectTree.Proofs.CharacterTables
import EffectTree.Proofs.GrowingResolution
import EffectTree.Proofs.IntegerTexts
import EffectTree.Proofs.PlainData

/-!
# Parts of tuples

A field of a tuple is its length, the item at a position or nothing. A position is an integer or a
text that spells one and counts from the end if it is negative. Texts that look like integers and
spell none are faults: those with more than one minus sign and those with a digit that has no
decimal value.
-/
namespace EffectTree.Resolution

open Number Text

/-- Decimal digits, after a minus sign or without one, spell an integer. -/
inductive Spells (s : String) : Int → Prop
  | positive {digits : List Char} (hne : digits ≠ [])
      (hdigits : ∀ c ∈ digits, (decimalDigit? c).isSome = true)
      (htext : s.toList = digits) : Spells s (decimalValue digits)
  | negative {digits : List Char} (hne : digits ≠ [])
      (hdigits : ∀ c ∈ digits, (decimalDigit? c).isSome = true)
      (htext : s.toList = '-' :: digits) : Spells s (-decimalValue digits)

/-- Minus signs and digits that spell no integer: the signs are too many, or a digit has no decimal
value. -/
def Misspelled (s : String) : Prop :=
  ∃ signs digits, s.toList = signs ++ digits ∧ (∀ c ∈ signs, c = '-') ∧ digits ≠ [] ∧
    (∀ c ∈ digits, isDigit c = true) ∧ (2 ≤ signs.length ∨ ∃ c ∈ digits, decimalDigit? c = none)

variable {s : String} {i : Int}

theorem dropWhile_signs {signs digits : List Char} (hsigns : ∀ c ∈ signs, c = '-')
    (hdigits : ∀ c ∈ digits, isDigit c = true) :
    (signs ++ digits).dropWhile (· = '-') = digits := by
  rw [List.dropWhile_append_of_pos (by simpa using hsigns)]
  cases digits with
  | nil => rfl
  | cons c digits =>
    have hc : c ≠ '-' := by
      rintro rfl
      exact absurd (hdigits '-' (by simp)) (by decide)
    exact List.dropWhile_cons_of_neg (by simpa using hc)

theorem spellsIndex_iff : spellsIndex s = true ↔
    ∃ signs digits, s.toList = signs ++ digits ∧ (∀ c ∈ signs, c = '-') ∧ digits ≠ [] ∧
      ∀ c ∈ digits, isDigit c = true := by
  constructor
  · intro h
    refine ⟨s.toList.takeWhile (· = '-'), s.toList.dropWhile (· = '-'),
      List.takeWhile_append_dropWhile.symm,
      fun c hc => by simpa using List.mem_takeWhile_imp hc, ?_⟩
    simpa [spellsIndex] using h
  · rintro ⟨signs, digits, htext, hsigns, hne, hdigits⟩
    rw [spellsIndex, htext, dropWhile_signs hsigns hdigits]
    simpa [hne] using hdigits

theorem Spells.spellsIndex (h : Spells s i) : spellsIndex s = true := by
  cases h with
  | positive hne hdigits htext =>
    exact spellsIndex_iff.mpr ⟨[], _, htext, by simp, hne,
      fun c hc => isDigit_of_decimalDigit? (hdigits c hc)⟩
  | negative hne hdigits htext =>
    exact spellsIndex_iff.mpr ⟨['-'], _, htext, by simp, hne,
      fun c hc => isDigit_of_decimalDigit? (hdigits c hc)⟩

theorem Misspelled.spellsIndex : Misspelled s → spellsIndex s = true := by
  rintro ⟨signs, digits, htext, hsigns, hne, hdigits, -⟩
  exact spellsIndex_iff.mpr ⟨signs, digits, htext, hsigns, hne, hdigits⟩

theorem isPadding_of_isDigit {c : Char} (h : isDigit c = true) : isPadding c = false := by
  rw [isPadding, isBlank_of_isDigit h, Bool.false_and]

theorem dropWhile_isPadding_eq_self {cs : List Char} (h : ∀ c ∈ cs, isPadding c = false) :
    cs.dropWhile isPadding = cs := by
  cases cs with
  | nil => rfl
  | cons c cs => exact List.dropWhile_cons_of_neg (by simp [h c (by simp)])

theorem trimPadding_eq_self {cs : List Char} (h : ∀ c ∈ cs, isPadding c = false) :
    trimPadding cs = cs := by
  have hreverse : ∀ c ∈ cs.reverse, isPadding c = false := fun c hc => h c (List.mem_reverse.mp hc)
  rw [trimPadding, dropWhile_isPadding_eq_self h, dropWhile_isPadding_eq_self hreverse,
    List.reverse_reverse]

theorem trimPadding_signs (signs digits : List Char) (hsigns : ∀ c ∈ signs, c = '-')
    (hdigits : ∀ c ∈ digits, isDigit c = true) :
    trimPadding (signs ++ digits) = signs ++ digits := by
  refine trimPadding_eq_self fun c hc => ?_
  rcases List.mem_append.mp hc with hc | hc
  · rw [hsigns c hc]
    rfl
  · exact isPadding_of_isDigit (hdigits c hc)

theorem Spells.readInt? (h : Spells s i) : readInt? 10 s = some i := by
  cases h with
  | @positive digits hne hdigits htext =>
    refine readInt?_digits hdigits hne ?_
    rw [htext]
    exact trimPadding_signs [] digits (by simp) fun c hc => isDigit_of_decimalDigit? (hdigits c hc)
  | @negative digits hne hdigits htext =>
    refine readInt?_minus hdigits hne ?_
    rw [htext]
    exact trimPadding_signs ['-'] digits (by simp) fun c hc =>
      isDigit_of_decimalDigit? (hdigits c hc)

theorem Misspelled.readInt? : Misspelled s → readInt? 10 s = none := by
  rintro ⟨signs, digits, htext, hsigns, -, hdigits, hwrong⟩
  have htrim : trimPadding s.toList = signs ++ digits := by
    rw [htext, trimPadding_signs signs digits hsigns hdigits]
  rcases hwrong with hmany | ⟨c, hc, hvalue⟩
  · match signs, hmany with
    | a :: b :: rest, _ =>
      obtain ⟨rfl, rfl, -⟩ : a = '-' ∧ b = '-' ∧ ∀ c ∈ rest, c = '-' := by simpa using hsigns
      exact readInt?_two_signs htrim
  · refine Option.eq_none_iff_forall_ne_some.mpr fun i hi => ?_
    have hmem : c ∈ trimPadding s.toList := htrim ▸ List.mem_append_right _ hc
    rcases mem_of_readInt? hi hmem with hsign | hsome
    · have hdigit := hdigits c hc
      simp only [List.mem_cons, List.not_mem_nil, or_false] at hsign
      rcases hsign with rfl | rfl | rfl <;> cases hdigit
    · rw [hvalue] at hsome
      cases hsome

theorem spells_or_misspelled (h : spellsIndex s = true) : (∃ i, Spells s i) ∨ Misspelled s := by
  obtain ⟨signs, digits, htext, hsigns, hne, hdigits⟩ := spellsIndex_iff.mp h
  by_cases hvalues : ∃ c ∈ digits, decimalDigit? c = none
  · exact .inr ⟨signs, digits, htext, hsigns, hne, hdigits, .inr hvalues⟩
  · have hdecimal : ∀ c ∈ digits, (decimalDigit? c).isSome = true := by
      simpa [Option.ne_none_iff_isSome] using hvalues
    match signs, htext, hsigns with
    | [], htext, _ => exact .inl ⟨_, .positive hne hdecimal htext⟩
    | [a], htext, hsigns =>
      obtain rfl : a = '-' := hsigns a (by simp)
      exact .inl ⟨_, .negative hne hdecimal htext⟩
    | a :: b :: rest, htext, hsigns =>
      exact .inr ⟨a :: b :: rest, digits, htext, hsigns, hne, hdigits, .inl (by simp)⟩

/-- The integer that a field is, truth values counted as one and zero, or that it spells. -/
inductive AsksFor : Value → Int → Prop
  | integer {field : Value} {i : Int} (h : field.integer? = some i) : AsksFor field i
  | text {s : String} {mark : Mark} {i : Int} (h : Spells s i) : AsksFor (.str s mark) i

variable {field : Value} {mark : Mark}

theorem Spells.tupleIndex (h : Spells s i) (mark : Mark) :
    tupleIndex (.str s mark) = .ok (some i) := by
  simp [Resolution.tupleIndex, h.spellsIndex, h.readInt?]

theorem Misspelled.tupleIndex (h : Misspelled s) (mark : Mark) :
    tupleIndex (.str s mark) = .error (.notInteger 10 (quoted s)) := by
  simp [Resolution.tupleIndex, h.spellsIndex, h.readInt?]

theorem AsksFor.tupleIndex (h : AsksFor field i) : tupleIndex field = .ok (some i) := by
  cases h with
  | text h => exact h.tupleIndex _
  | integer h =>
    cases field with
    | str => cases h
    | _ => exact congrArg Except.ok h

/-- Every field asks for a position, asks for none or is a misspelled one. -/
theorem tupleIndex_cases (field : Value) :
    (∃ i, AsksFor field i) ∨ (∃ s mark, field = .str s mark ∧ Misspelled s) ∨
    tupleIndex field = .ok none := by
  cases field with
  | str s mark =>
    cases h : spellsIndex s with
    | true =>
      refine (spells_or_misspelled h).imp (fun ⟨i, hspells⟩ => ⟨i, .text hspells⟩)
        fun hmisspelled => ?_
      exact .inl ⟨s, mark, rfl, hmisspelled⟩
    | false => exact .inr (.inr (by simp [Resolution.tupleIndex, h]))
  | bool b => exact .inl ⟨_, .integer rfl⟩
  | int i mark => exact .inl ⟨i, .integer rfl⟩
  | _ => exact .inr (.inr rfl)

/-- The position of an index among `n` items; a negative one counts from the end. -/
def position (n : Nat) (i : Int) : Int := if i < 0 then i + n else i

/-- What a field of a tuple stands for: the number of items, an item or nothing. -/
inductive PartOf (items : List Descriptor) (field : Value) : Option Descriptor → Prop
  | length {mark : Mark} (h : field = .str "length" mark) :
      PartOf items field (some (.literal (.ofInt items.length)))
  | item {i : Int} {part : Descriptor} (h : AsksFor field i) (hlow : -items.length ≤ i)
      (hhigh : i < items.length)
      (hpart : items[(position items.length i).toNat]? = some part) : PartOf items field (some part)
  | nothing (hlength : ∀ mark, field ≠ .str "length" mark)
      (hrange : ∀ i, AsksFor field i → ¬ (-items.length ≤ i ∧ i < items.length))
      (hspelling : ∀ s mark, field = .str s mark → ¬ Misspelled s) : PartOf items field none

variable {items : List Descriptor} {part? : Option Descriptor}

theorem eqv_length_iff : field.eqv (.ofStr "length") = true ↔
    ∃ mark, field = .str "length" mark := by
  cases field with
  | str s mark => simp [Value.eqv, Value.ofStr]
  | _ => simp [Value.eqv, Value.ofStr, Value.numbersEqv, Value.parts?, Value.real?]

theorem spellsIndex_length : spellsIndex "length" = false := by decide

theorem AsksFor.ne_length (h : AsksFor field i) : field ≠ .str "length" mark := by
  rintro rfl
  cases h with
  | integer h => cases h
  | text h => exact absurd h.spellsIndex (by simp [spellsIndex_length])

theorem Misspelled.ne_length (h : Misspelled s) : s ≠ "length" := by
  rintro rfl
  exact absurd h.spellsIndex (by simp [spellsIndex_length])

theorem project_tuple_of_length :
    project (.tuple items) (.str "length" mark) = .ok (some (.literal (.ofInt items.length))) := by
  simp [project, eqv_length_iff]

theorem project_tuple_of_ne_length (h : ∀ mark, field ≠ .str "length" mark) :
    project (.tuple items) field = (tupleIndex field).map fun index? => index?.bind fun i =>
      if 0 ≤ position items.length i then items[(position items.length i).toNat]? else none := by
  have hlength : ¬ field.eqv (.ofStr "length") = true := by simpa [eqv_length_iff] using h
  simp only [project, hlength]
  cases tupleIndex field with
  | error e => rfl
  | ok index? =>
    cases index? with
    | none => rfl
    | some i =>
      change (if 0 ≤ position items.length i then Except.ok items[(position items.length i).toNat]?
        else .ok none) =
        .ok (if 0 ≤ position items.length i then items[(position items.length i).toNat]? else none)
      by_cases hposition : 0 ≤ position items.length i
      · rw [if_pos hposition, if_pos hposition]
      · rw [if_neg hposition, if_neg hposition]

theorem Misspelled.project (h : Misspelled s) (items : List Descriptor) (mark : Mark) :
    project (.tuple items) (.str s mark) = .error (.notInteger 10 (quoted s)) := by
  have hlength : ∀ mark', Value.str s mark ≠ .str "length" mark' := by
    rintro mark' heq
    cases heq
    exact h.ne_length rfl
  rw [project_tuple_of_ne_length hlength, h.tupleIndex]
  rfl

theorem PartOf.project (h : PartOf items field part?) :
    project (.tuple items) field = .ok part? := by
  cases h with
  | length h =>
    subst h
    exact project_tuple_of_length
  | @item i part h hlow hhigh hpart =>
    have hposition : 0 ≤ position items.length i := by
      unfold position
      split <;> omega
    rw [project_tuple_of_ne_length fun _ => h.ne_length, h.tupleIndex]
    simp [Except.map, hposition, hpart]
  | nothing hlength hrange hspelling =>
    rw [project_tuple_of_ne_length hlength]
    rcases tupleIndex_cases field with ⟨i, h⟩ | ⟨s, mark, rfl, h⟩ | h
    · have hout := hrange i h
      have hnone : 0 ≤ position items.length i →
          items.length ≤ (position items.length i).toNat := by
        unfold position
        split <;> omega
      rw [h.tupleIndex]
      simpa [Except.map] using hnone
    · exact absurd h (hspelling s mark rfl)
    · rw [h]
      rfl

theorem partOf_or_misspelled (items : List Descriptor) (field : Value) :
    (∃ part?, PartOf items field part?) ∨ ∃ s mark, field = .str s mark ∧ Misspelled s := by
  by_cases hspelling : ∃ s mark, field = .str s mark ∧ Misspelled s
  · exact .inr hspelling
  refine .inl ?_
  by_cases hlength : ∃ mark, field = .str "length" mark
  · obtain ⟨mark, h⟩ := hlength
    exact ⟨_, .length h⟩
  by_cases hrange : ∃ i, AsksFor field i ∧ -items.length ≤ i ∧ i < items.length
  · obtain ⟨i, h, hlow, hhigh⟩ := hrange
    have hposition : (position items.length i).toNat < items.length := by
      unfold position
      split <;> omega
    exact ⟨_, .item h hlow hhigh (List.getElem?_eq_getElem hposition)⟩
  · refine ⟨none, .nothing (by simpa using hlength) (fun i h hin => hrange ⟨i, h, hin⟩) ?_⟩
    rintro s mark rfl h
    exact hspelling ⟨s, mark, rfl, h⟩

variable {r : Resolver} {n : Nat} {target : Descriptor}

/-- A search that is given one step less finds the same or needs that step. -/
theorem iterate_one_less (limit : Int) (step : Descriptor → Except Fault Step) (k : Nat)
    (d : Descriptor) :
    iterate limit step k d = iterate limit step (k + 1) d ∨
      iterate limit step k d = .error (.unresolved limit) := by
  have hkept : Kept (· = .unresolved limit) (iterate limit step k d)
      (iterate limit step (k + 1) d) := by
    refine iterate_kept (fun _ => .same _) (Nat.le_succ k) ?_ d
    exact .inr rfl
  generalize iterate limit step k d = fewer at hkept
  cases hkept with
  | same => exact .inl rfl
  | lost _ hlost => exact .inr (congrArg Except.error hlost)

/-- What a projection finds is searched on in its place, with a step less. A part that is the
projection itself has its own head. -/
theorem head_index_of_project (hn : r.nesting = n + 1)
    (htarget : headAt r n target = .ok (.tuple items))
    (hproject : project (.tuple items) field = .ok part?) :
    r.head (.index target field mark) = r.head (part?.getD .unknown) ∨
      r.head (.index target field mark) = .error (.unresolved r.maxSteps) := by
  have hstep : step r (headAt r n) (.index target field mark) =
      .ok (partStep (.index target field mark) part?) := by
    simp only [step, htarget]
    exact congrArg (Except.map _) hproject
  simp only [Resolver.head, hn, headAt]
  cases hk : r.maxSteps.toNat with
  | zero => exact .inr rfl
  | succ k =>
    cases part? with
    | none =>
      rw [partStep] at hstep
      rw [iterate_next hstep]
      exact iterate_one_less _ _ _ _
    | some part =>
      rw [partStep] at hstep
      split at hstep
      · rename_i hitself
        obtain ⟨-, rfl⟩ : mark ≠ .fresh ∧ part = .index target field mark := by
          simpa [isItself, Descriptor.same_iff] using hitself
        exact .inl rfl
      · rw [iterate_next hstep]
        exact iterate_one_less _ _ _ _

theorem head_index_of_fault {e : Fault} (hn : r.nesting = n + 1)
    (htarget : headAt r n target = .ok (.tuple items))
    (hproject : project (.tuple items) field = .error e) :
    r.head (.index target field mark) = .error e := by
  have hstep : step r (headAt r n) (.index target field mark) = .error e := by
    simp only [step, htarget]
    exact congrArg (Except.map _) hproject
  obtain ⟨k, hk⟩ : ∃ k, r.maxSteps.toNat = k + 1 := by
    cases hk : r.maxSteps.toNat with
    | succ k => exact ⟨k, rfl⟩
    | zero =>
      cases n with
      | zero => cases htarget
      | succ n =>
        rw [headAt, hk] at htarget
        cases htarget
  rw [Resolver.head, hn, headAt, hk, iterate_error hstep]

/-- A field of a tuple is what it stands for, and the head of its projection is the head of that. A
misspelled position is a fault, for the head too. -/
structure Projects (items : List Descriptor) (field : Value) : Prop where
  part_iff : ∀ part?, project (.tuple items) field = .ok part? ↔ PartOf items field part?
  fault_iff : ∀ e, project (.tuple items) field = .error e ↔
    ∃ s mark, field = .str s mark ∧ Misspelled s ∧ e = .notInteger 10 (quoted s)
  head_part : ∀ r n target mark part?, r.nesting = n + 1 → headAt r n target = .ok (.tuple items) →
    PartOf items field part? → r.head (.index target field mark) = r.head (part?.getD .unknown) ∨
      r.head (.index target field mark) = .error (.unresolved r.maxSteps)
  head_fault : ∀ r n target mark s mark', r.nesting = n + 1 →
    headAt r n target = .ok (.tuple items) →
    field = .str s mark' → Misspelled s →
      r.head (.index target field mark) = .error (.notInteger 10 (quoted s))

theorem projects_unless_misspelled (items : List Descriptor) (field : Value) :
    Projects items field where
  part_iff part? := by
    refine ⟨fun h => ?_, PartOf.project⟩
    rcases partOf_or_misspelled items field with ⟨part?', hpart⟩ | ⟨s, mark, rfl, hmisspelled⟩
    · rw [hpart.project] at h
      cases h
      exact hpart
    · rw [hmisspelled.project] at h
      cases h
  fault_iff e := by
    constructor
    · intro h
      rcases partOf_or_misspelled items field with ⟨part?, hpart⟩ | ⟨s, mark, rfl, hmisspelled⟩
      · rw [hpart.project] at h
        cases h
      · rw [hmisspelled.project] at h
        cases h
        exact ⟨s, mark, rfl, hmisspelled, rfl⟩
    · rintro ⟨s, mark, rfl, hmisspelled, rfl⟩
      exact hmisspelled.project items mark
  head_part _ _ _ _ _ hn htarget hpart := head_index_of_project hn htarget hpart.project
  head_fault r n target mark s mark' hn htarget hfield hmisspelled := by
    subst hfield
    exact head_index_of_fault hn htarget (hmisspelled.project items mark')

def triple : List Descriptor := [.literal (.ofInt 1), .literal (.ofInt 2), .literal (.ofInt 3)]

example : project (.tuple triple) (.ofStr "-1") = .ok (some (.literal (.ofInt 3))) := by
  cbv

theorem misspelled_two_signs : Misspelled "--1" :=
  ⟨['-', '-'], ['1'], rfl, by simp, by simp, List.forall_mem_singleton.mpr rfl, .inl (by simp)⟩

/-- A text with two minus signs is taken for a position, and it is a fault, of the head of a
projection too. -/
theorem project_two_signs : (Value.ofStr "--1").isScalar = true ∧
    project (.tuple triple) (.ofStr "--1") = .error (.notInteger 10 (quoted "--1")) ∧
    Resolver.head {} (.index (.tuple triple) (.ofStr "--1") .fresh) =
      .error (.notInteger 10 (quoted "--1")) := by
  have hproject : project (.tuple triple) (.ofStr "--1") = .error (.notInteger 10 (quoted "--1")) :=
    misspelled_two_signs.project triple _
  exact ⟨rfl, hproject, head_index_of_fault (n := 1999) rfl (headAt_of_stable (by decide) rfl)
    hproject⟩

end EffectTree.Resolution
