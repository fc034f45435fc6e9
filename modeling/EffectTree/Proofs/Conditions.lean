import EffectTree.Expression.Compile

/-!
# Conditions

Conditions in the notation of JavaScript: names, `true` and `false`, with `!`, `===`, `!==`, `&&`,
`||` and parentheses. There is a type for each level of precedence, so a condition is the tree that
its text stands for there. Its signs in order are what is written; blanks may stand between them.
What a condition means depends on how the operands of a comparison are put together, which is where
this notation and the expressions that conditions are read as differ.
-/
namespace EffectTree.Condition

open Expression

/-- An identifier in ASCII. -/
structure Word where
  text : String
  isIdentifier : Text.isIdentifier text = true
  isAscii : ∀ c ∈ text.toList, c.toNat < 128

/-- A word that is no keyword of expressions. -/
structure FreeWord extends Word where
  notReserved : text ∉ Parser.reserved

/-- A free word that names something: no private name and no constant. -/
structure Name extends FreeWord where
  notPrivate : text.startsWith "__" = false
  notConstant : text ≠ "true" ∧ text ≠ "false"

inductive Sign where
  | word (w : FreeWord)
  | bang
  | equal
  | unequal
  | both
  | either
  | opening
  | closing

def constantWord (b : Bool) : FreeWord :=
  if b then ⟨⟨"true", by decide, by simp⟩, by decide⟩
    else ⟨⟨"false", by decide, by simp⟩, by decide⟩

def notWord : Word := ⟨"not", by decide, by simp⟩

def andWord : Word := ⟨"and", by decide, by simp⟩

def orWord : Word := ⟨"or", by decide, by simp⟩

/-- How signs are written, and which characters may come right after them. -/
structure Spelling where
  chars : Sign → List Char
  parts : Sign → Char → Bool

/-- The spelling of conditions: a word ends where no character of a word follows, and `!` where no
`=` does. -/
def scripted : Spelling where
  chars
    | .word w => w.text.toList
    | .bang => ['!']
    | .equal => ['=', '=', '=']
    | .unequal => ['!', '=', '=']
    | .both => ['&', '&']
    | .either => ['|', '|']
    | .opening => ['(']
    | .closing => [')']
  parts
    | .word _, c => !isWordPart c
    | .bang, c => c ≠ '='
    | _, _ => true

def isGap (c : Char) : Bool := c = ' ' || c = '\t'

/-- A text of signs, with any blanks before, between and after them. -/
inductive Spells (spelling : Spelling) : List Sign → List Char → Prop
  | done {blanks : List Char} (hblanks : blanks.all isGap = true) : Spells spelling [] blanks
  | sign {blanks : List Char} {s : Sign} {signs : List Sign} {cs : List Char}
      (hblanks : blanks.all isGap = true)
      (hparts : cs.head?.all (spelling.parts s) = true) (hrest : Spells spelling signs cs) :
      Spells spelling (s :: signs) (blanks ++ (spelling.chars s ++ cs))

mutual

/-- What `!` may stand before. -/
inductive Operand where
  | constant (b : Bool)
  | name (n : Name)
  | negation (o : Operand)
  | group (d : Disjunction)

/-- Operands with `===` or, where the sign says so, `!==` between them. -/
inductive Comparison where
  | mk (first : Operand) (rest : List (Bool × Operand))

/-- Comparisons with `&&` between them. -/
inductive Conjunction where
  | mk (first : Comparison) (rest : List Comparison)

/-- Conjunctions with `||` between them: any condition. -/
inductive Disjunction where
  | mk (first : Conjunction) (rest : List Conjunction)

end

mutual

@[simp] def Operand.signs : Operand → List Sign
  | .constant b => [.word (constantWord b)]
  | .name n => [.word n.toFreeWord]
  | .negation o => .bang :: o.signs
  | .group d => .opening :: (d.signs ++ [.closing])

@[simp] def Comparison.signs : Comparison → List Sign
  | .mk first rest => first.signs ++ comparedSigns rest

/-- Operands after the first one, each with the sign before it. -/
@[simp] def comparedSigns : List (Bool × Operand) → List Sign
  | [] => []
  | (isEqual, o) :: rest =>
    (if isEqual then .equal else .unequal) :: (o.signs ++ comparedSigns rest)

@[simp] def Conjunction.signs : Conjunction → List Sign
  | .mk first rest => first.signs ++ conjoinedSigns rest

@[simp] def conjoinedSigns : List Comparison → List Sign
  | [] => []
  | c :: rest => .both :: (c.signs ++ conjoinedSigns rest)

@[simp] def Disjunction.signs : Disjunction → List Sign
  | .mk first rest => first.signs ++ disjoinedSigns rest

@[simp] def disjoinedSigns : List Conjunction → List Sign
  | [] => []
  | c :: rest => .either :: (c.signs ++ disjoinedSigns rest)

end

mutual

/-- How deeply parentheses nest. -/
@[simp] def Operand.nesting : Operand → Nat
  | .constant _ => 0
  | .name _ => 0
  | .negation o => o.nesting
  | .group d => d.nesting + 1

@[simp] def Comparison.nesting : Comparison → Nat
  | .mk first rest => max first.nesting (comparedNesting rest)

@[simp] def comparedNesting : List (Bool × Operand) → Nat
  | [] => 0
  | (_, o) :: rest => max o.nesting (comparedNesting rest)

@[simp] def Conjunction.nesting : Conjunction → Nat
  | .mk first rest => max first.nesting (conjoinedNesting rest)

@[simp] def conjoinedNesting : List Comparison → Nat
  | [] => 0
  | c :: rest => max c.nesting (conjoinedNesting rest)

@[simp] def Disjunction.nesting : Disjunction → Nat
  | .mk first rest => max first.nesting (disjoinedNesting rest)

@[simp] def disjoinedNesting : List Conjunction → Nat
  | [] => 0
  | c :: rest => max c.nesting (disjoinedNesting rest)

end

/-- How a comparison gets its value: from whether the first operand is negated, the value of the
first operand without its negations, and the values of the others, each with whether it is to be
equal. -/
abbrev Comparing := Bool → Bool → List (Bool × Bool) → Bool

/-- The outcome of a comparison is the left operand of the next one. -/
def leftToRight : Comparing := fun isNegated first rest =>
  rest.foldl (fun left (isEqual, right) => (left == right) == isEqual) (isNegated != first)

/-- Neighbours are compared, and all have to compare so. -/
def neighbours : Bool → List (Bool × Bool) → Bool
  | _, [] => true
  | left, (isEqual, right) :: rest => (left == right) == isEqual && neighbours right rest

/-- Neighbours are compared, and what negates the first operand negates the outcome. -/
def chained : Comparing := fun isNegated first rest =>
  isNegated != (if rest.isEmpty then first else neighbours first rest)

section Value

variable (compare : Comparing) (env : String → Bool)

mutual

/-- Whether an operand is negated, and its value without its negations. -/
def Operand.parts : Operand → Bool × Bool
  | .constant b => (false, b)
  | .name n => (false, env n.text)
  | .negation o => (!o.parts.1, o.parts.2)
  | .group d => (false, d.value)

def Comparison.value : Comparison → Bool
  | .mk first rest => compare first.parts.1 first.parts.2 (comparedValues rest)

def comparedValues : List (Bool × Operand) → List (Bool × Bool)
  | [] => []
  | (isEqual, o) :: rest => (isEqual, o.parts.1 != o.parts.2) :: comparedValues rest

def Conjunction.value : Conjunction → Bool
  | .mk first rest => first.value && allValues rest

def allValues : List Comparison → Bool
  | [] => true
  | c :: rest => c.value && allValues rest

def Disjunction.value : Disjunction → Bool
  | .mk first rest => first.value || anyValue rest

def anyValue : List Conjunction → Bool
  | [] => false
  | c :: rest => c.value || anyValue rest

end

end Value

section Every

variable (p : List (Bool × Operand) → Bool)

mutual

/-- Whether something holds of the operands after the first in each comparison. -/
def Operand.every : Operand → Bool
  | .constant _ => true
  | .name _ => true
  | .negation o => o.every
  | .group d => d.every

def Comparison.every : Comparison → Bool
  | .mk first rest => p rest && (first.every && comparedEvery rest)

def comparedEvery : List (Bool × Operand) → Bool
  | [] => true
  | (_, o) :: rest => o.every && comparedEvery rest

def Conjunction.every : Conjunction → Bool
  | .mk first rest => first.every && conjoinedEvery rest

def conjoinedEvery : List Comparison → Bool
  | [] => true
  | c :: rest => c.every && conjoinedEvery rest

def Disjunction.every : Disjunction → Bool
  | .mk first rest => first.every && disjoinedEvery rest

def disjoinedEvery : List Conjunction → Bool
  | [] => true
  | c :: rest => c.every && disjoinedEvery rest

end

end Every

def Operand.isNegation : Operand → Bool
  | .negation _ => true
  | _ => false

def areBare (rest : List (Bool × Operand)) : Bool := rest.all fun compared => !compared.2.isNegation

def isSingle (rest : List (Bool × Operand)) : Bool := rest.length ≤ 1

/-- No operand but the first of a comparison is negated without parentheses around it. -/
def Disjunction.isReadable (d : Disjunction) : Bool := d.every areBare

/-- No comparison goes on after its second operand. -/
def Disjunction.isUnchained (d : Disjunction) : Bool := d.every isSingle

theorem chained_eq_leftToRight (isNegated first : Bool) {rest : List (Bool × Bool)}
    (h : rest.length ≤ 1) :
    chained isNegated first rest = leftToRight isNegated first rest := by
  match rest with
  | [] => cases isNegated <;> cases first <;> rfl
  | [(isEqual, right)] => revert isNegated first isEqual right; decide
  | _ :: _ :: rest => simp at h

@[simp] theorem length_comparedValues (compare : Comparing) (env : String → Bool)
    (rest : List (Bool × Operand)) :
    (comparedValues compare env rest).length = rest.length := by
  induction rest with
  | nil => rfl
  | cons compared rest ih => simp [comparedValues, ih]

section Unchained

variable (env : String → Bool)

mutual

theorem Operand.parts_of_unchained (o : Operand) (h : o.every isSingle = true) :
    o.parts chained env = o.parts leftToRight env := by
  cases o with
  | constant b => rfl
  | name n => rfl
  | negation o => simp only [Operand.parts, Operand.parts_of_unchained o h]
  | group d => simp only [Operand.parts, Disjunction.value_of_unchained d h]

theorem Comparison.value_of_unchained (c : Comparison) (h : c.every isSingle = true) :
    c.value chained env = c.value leftToRight env := by
  obtain ⟨first, rest⟩ := c
  simp only [Comparison.every, isSingle, Bool.and_eq_true, decide_eq_true_eq] at h
  simp only [Comparison.value, Operand.parts_of_unchained first h.2.1,
    comparedValues_of_unchained rest h.2.2]
  exact chained_eq_leftToRight _ _ (by simpa using h.1)

theorem comparedValues_of_unchained (rest : List (Bool × Operand))
    (h : comparedEvery isSingle rest = true) :
    comparedValues chained env rest = comparedValues leftToRight env rest := by
  match rest with
  | [] => rfl
  | (isEqual, o) :: rest =>
    simp only [comparedEvery, Bool.and_eq_true] at h
    simp only [comparedValues, Operand.parts_of_unchained o h.1,
      comparedValues_of_unchained rest h.2]

theorem Conjunction.value_of_unchained (c : Conjunction) (h : c.every isSingle = true) :
    c.value chained env = c.value leftToRight env := by
  obtain ⟨first, rest⟩ := c
  simp only [Conjunction.every, Bool.and_eq_true] at h
  simp only [Conjunction.value, Comparison.value_of_unchained first h.1,
    allValues_of_unchained rest h.2]

theorem allValues_of_unchained (rest : List Comparison)
    (h : conjoinedEvery isSingle rest = true) :
    allValues chained env rest = allValues leftToRight env rest := by
  match rest with
  | [] => rfl
  | c :: rest =>
    simp only [conjoinedEvery, Bool.and_eq_true] at h
    simp only [allValues, Comparison.value_of_unchained c h.1, allValues_of_unchained rest h.2]

theorem Disjunction.value_of_unchained (d : Disjunction) (h : d.every isSingle = true) :
    d.value chained env = d.value leftToRight env := by
  obtain ⟨first, rest⟩ := d
  simp only [Disjunction.every, Bool.and_eq_true] at h
  simp only [Disjunction.value, Conjunction.value_of_unchained first h.1,
    anyValue_of_unchained rest h.2]

theorem anyValue_of_unchained (rest : List Conjunction)
    (h : disjoinedEvery isSingle rest = true) :
    anyValue chained env rest = anyValue leftToRight env rest := by
  match rest with
  | [] => rfl
  | c :: rest =>
    simp only [disjoinedEvery, Bool.and_eq_true] at h
    simp only [anyValue, Conjunction.value_of_unchained c h.1, anyValue_of_unchained rest h.2]

end

end Unchained

end EffectTree.Condition
