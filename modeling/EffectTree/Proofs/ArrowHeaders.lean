import Mathlib.Data.List.Basic
import Mathlib.Data.List.Induction
import Mathlib.Data.List.TakeWhile
import EffectTree.Expression.Compile
import EffectTree.Proofs.CharacterTables

/-!
# Arrows and their headers

A list of parameters ends at the first closing parenthesis and a single name at the first character
that is no part of a word, and then the arrow has to come. So there is at most one way to read a
source as a header, an arrow and a body, whatever arrows, commas and parentheses the body has, and
what is called is the body with its parameters bound.
-/
namespace EffectTree

namespace Text

def IsBlanks (cs : List Char) : Prop := ∀ c ∈ cs, isBlank c = true

variable {bs cs : List Char}

theorem IsBlanks.nil : IsBlanks [] := fun _ hc => absurd hc List.not_mem_nil

theorem IsBlanks.append {bs cs : List Char} (hbs : IsBlanks bs) (hcs : IsBlanks cs) :
    IsBlanks (bs ++ cs) :=
  List.forall_mem_append.mpr ⟨hbs, hcs⟩

theorem isBlanks_takeWhile (cs : List Char) : IsBlanks (cs.takeWhile isBlank) :=
  fun _ hc => List.mem_takeWhile_imp hc

theorem dropWhile_blanks_append (hbs : IsBlanks bs) (hcs : cs.head?.all (!isBlank ·) = true) :
    (bs ++ cs).dropWhile isBlank = cs := by
  rw [List.dropWhile_append_of_pos hbs]
  cases cs with
  | nil => rfl
  | cons c cs => exact List.dropWhile_cons_of_neg (by simpa using hcs)

theorem takeWhile_append_stop {p : Char → Bool} (hbs : ∀ c ∈ bs, p c = true)
    (hcs : cs.head?.all (!p ·) = true) :
    (bs ++ cs).takeWhile p = bs := by
  rw [List.takeWhile_append_of_pos hbs]
  cases cs with
  | nil => exact List.append_nil _
  | cons c cs => rw [List.takeWhile_cons_of_neg (by simpa using hcs), List.append_nil]

theorem drop_length_takeWhile (p : Char → Bool) (cs : List Char) :
    cs.drop (cs.takeWhile p).length = cs.dropWhile p := by
  have hdrop : (cs.takeWhile p ++ cs.dropWhile p).drop (cs.takeWhile p).length = cs.dropWhile p :=
    List.drop_left
  rwa [List.takeWhile_append_dropWhile] at hdrop

theorem strip_blanks_append (hbs : IsBlanks bs) (cs : List Char) :
    strip (String.ofList (bs ++ cs)) = strip (String.ofList cs) := by
  rw [strip, strip, String.toList_ofList, String.toList_ofList, List.dropWhile_append_of_pos hbs]

theorem strip_append_blanks (hbs : IsBlanks bs) (cs : List Char) :
    strip (String.ofList (cs ++ bs)) = strip (String.ofList cs) := by
  rw [strip, strip, String.toList_ofList, String.toList_ofList, List.dropWhile_append]
  split
  · rename_i hempty
    rw [List.isEmpty_iff.mp hempty, List.dropWhile_eq_nil_iff.mpr hbs]
  · have hreverse : ∀ c ∈ bs.reverse, isBlank c = true := fun c hc => hbs c (List.mem_reverse.mp hc)
    rw [dropEnd, dropEnd, List.reverse_append, List.dropWhile_append_of_pos hreverse]

theorem strip_of_solid (hcs : ∀ c ∈ cs, isBlank c = false) :
    strip (String.ofList cs) = String.ofList cs := by
  have hstay {ds : List Char} (hds : ∀ c ∈ ds, isBlank c = false) : ds.dropWhile isBlank = ds := by
    cases ds with
    | nil => rfl
    | cons d ds => exact List.dropWhile_cons_of_neg (by simp [hds d])
  rw [strip, String.toList_ofList, hstay hcs, dropEnd, hstay fun c hc =>
    hcs c (List.mem_reverse.mp hc),
    List.reverse_reverse]

variable {sep : Char}

theorem findIn_of_notMem (h : sep ∉ cs) (offset : Nat) : findIn [sep] offset cs = none := by
  induction cs generalizing offset with
  | nil => rfl
  | cons c cs ih =>
    obtain ⟨hc, hcs⟩ := List.ne_and_not_mem_of_not_mem_cons h
    simp [findIn, hc, ih hcs]

theorem findIn_append_cons (h : sep ∉ cs) (offset : Nat) (rest : List Char) :
    findIn [sep] offset (cs ++ sep :: rest) = some (offset + cs.length) := by
  induction cs generalizing offset with
  | nil => simp [findIn]
  | cons c cs ih =>
    obtain ⟨hc, hcs⟩ := List.ne_and_not_mem_of_not_mem_cons h
    simp [findIn, hc, ih hcs]
    omega

theorem splitOn_of_notMem (h : sep ∉ cs) : cs.splitOn sep = [cs] :=
  List.splitOnP_eq_singleton fun _ hc => beq_eq_false_iff_ne.mpr fun heq => h (heq ▸ hc)

theorem splitOn_append_cons (cs rest : List Char) :
    (cs ++ sep :: rest).splitOn sep = cs.splitOn sep ++ rest.splitOn sep :=
  List.splitOnP_append_cons cs rest (beq_self_eq_true sep)

/-- With enough cuts allowed a text is split at all its separators. -/
theorem splitIn_eq_splitOn {limit : Nat} (h : cs.count sep ≤ limit) :
    splitIn [sep] limit cs = cs.splitOn sep := by
  induction limit generalizing cs with
  | zero => rw [splitIn, splitOn_of_notMem (List.count_eq_zero.mp (Nat.le_zero.mp h))]
  | succ limit ih =>
    by_cases hmem : sep ∈ cs
    · obtain ⟨first, rest, rfl, hfirst⟩ := List.eq_append_cons_of_mem hmem
      have hcount : rest.count sep ≤ limit := by
        rw [List.count_append, List.count_cons_self] at h
        omega
      rw [splitIn, findIn_append_cons hfirst, splitOn_append_cons, splitOn_of_notMem hfirst,
        ← ih hcount]
      simp
    · rw [splitIn, findIn_of_notMem hmem, splitOn_of_notMem hmem]

theorem splitAt_none (sep : Char) (cs : List Char) : splitAt [sep] none cs = cs.splitOn sep := by
  rw [splitAt, cuts, Option.getD_none, Nat.min_self,
    splitIn_eq_splitOn (Nat.le_succ_of_le List.count_le_length)]

end Text

namespace Expression

open Text

variable {cs : List Char}

theorem paramsOf_eq (cs : List Char) :
    paramsOf cs =
      ((cs.splitOn ',').map fun piece => strip (String.ofList piece)).filter (!·.isEmpty) := by
  rw [paramsOf, splitAt_none]

theorem paramsOf_append_comma (cs rest : List Char) :
    paramsOf (cs ++ ',' :: rest) = paramsOf cs ++ paramsOf rest := by
  rw [paramsOf_eq, paramsOf_eq, paramsOf_eq, splitOn_append_cons, List.map_append,
    List.filter_append]

theorem paramsOf_of_notMem (h : ',' ∉ cs) :
    paramsOf cs = [strip (String.ofList cs)].filter (!·.isEmpty) := by
  rw [paramsOf_eq, splitOn_of_notMem h, List.map_singleton]

theorem paramsOf_append_blanks {trail : List Char} (htrail : IsBlanks trail) (cs : List Char) :
    paramsOf (cs ++ trail) = paramsOf cs := by
  induction hlength : cs.length using Nat.strong_induction_on generalizing cs with
  | _ n ih =>
    by_cases hmem : ',' ∈ cs
    · obtain ⟨first, rest, rfl⟩ := List.append_of_mem hmem
      rw [List.append_assoc, List.cons_append, paramsOf_append_comma, paramsOf_append_comma,
        ih rest.length (by simp [← hlength]; omega) rest rfl]
    · have hblank : ',' ∉ trail := fun h => absurd (htrail ',' h) (by decide)
      have hboth : ',' ∉ cs ++ trail := fun h => (List.mem_append.mp h).elim hmem hblank
      rw [paramsOf_of_notMem hboth, paramsOf_of_notMem hmem, strip_append_blanks htrail]

/-- A text that may stand between the parentheses of a header, from its first name on. -/
def IsParamList (cs : List Char) : Prop :=
  (∀ c ∈ cs, isParamListChar c = true) ∧ cs.head?.all isParamStart = true

/-- The ways to read a text as a header with its parameters, an arrow and a body. -/
inductive Headed : List Char → List String → List Char → Prop
  | parenthesized (body : List Char) {lead inside params trail gap : List Char} :
      IsBlanks lead → IsBlanks inside → IsParamList params → IsBlanks trail → IsBlanks gap →
        Headed (lead ++ '(' ::
          (inside ++ (params ++ (trail ++ ')' :: (gap ++ '=' :: '>' :: body)))))
          (paramsOf params) body
  | single (body : List Char) {lead name gap : List Char} :
      IsBlanks lead → (∀ c ∈ name, isWordChar c = true) → name.head?.any isParamStart = true →
        IsBlanks gap →
        Headed (lead ++ (name ++ (gap ++ '=' :: '>' :: body))) [String.ofList name] body

variable {body : List Char} {names : List String}

theorem afterArrow?_eq_some_iff :
    afterArrow? cs = some body ↔ ∃ gap, IsBlanks gap ∧ cs = gap ++ '=' :: '>' :: body := by
  constructor
  · intro h
    unfold afterArrow? at h
    split at h
    · rename_i rest hrest
      cases h
      exact ⟨cs.takeWhile isBlank, isBlanks_takeWhile cs,
        by rw [← hrest, List.takeWhile_append_dropWhile]⟩
    · cases h
  · rintro ⟨gap, hgap, rfl⟩
    have hskip : (gap ++ '=' :: '>' :: body).dropWhile isBlank = '=' :: '>' :: body :=
      dropWhile_blanks_append hgap rfl
    simp only [afterArrow?, hskip]

theorem isAsciiWord_of_isParamStart {c : Char} (h : isParamStart c = true) : isAsciiWord c = true :=
  Bool.or_eq_true_iff.mpr ((Bool.or_eq_true_iff.mp h).imp_left fun halpha =>
    Bool.or_eq_true_iff.mpr (.inl halpha))

theorem isParamListChar_of_isBlank {c : Char} (h : isBlank c = true) :
    isParamListChar c = true := by
  rw [isParamListChar, h, Bool.or_true, Bool.true_or]

theorem IsParamList.append_blanks {params trail : List Char} (hparams : IsParamList params)
    (htrail : IsBlanks trail) (hne : params ≠ []) : IsParamList (params ++ trail) := by
  refine ⟨List.forall_mem_append.mpr
    ⟨hparams.1, fun c hc => isParamListChar_of_isBlank (htrail c hc)⟩, ?_⟩
  rw [List.head?_append_of_ne_nil _ hne]
  exact hparams.2

theorem IsParamList.all_not_isBlank_head? (h : IsParamList cs) :
    cs.head?.all (!isBlank ·) = true := by
  cases cs with
  | nil => rfl
  | cons c cs =>
    simpa using isBlank_of_isWordChar (isWordChar_of_isAsciiWord (isAsciiWord_of_isParamStart h.2))

theorem parenthesized?_of_dropWhile {list gap : List Char} (hlist : IsParamList list)
    (hgap : IsBlanks gap) (h : cs.dropWhile isBlank = list ++ ')' :: (gap ++ '=' :: '>' :: body)) :
    parenthesized? cs = some (paramsOf list, body) := by
  have hread : (cs.dropWhile isBlank).takeWhile isParamListChar = list := by
    rw [h, takeWhile_append_stop hlist.1 rfl]
  have hstart : (list.isEmpty || list.head?.any isParamStart) = true := by
    cases list with
    | nil => rfl
    | cons c cs => exact hlist.2
  have hrest : (cs.dropWhile isBlank).drop list.length = ')' :: (gap ++ '=' :: '>' :: body) := by
    rw [h, List.drop_left]
  have harrow : afterArrow? (gap ++ '=' :: '>' :: body) = some body :=
    afterArrow?_eq_some_iff.mpr ⟨gap, hgap, rfl⟩
  simp only [parenthesized?, hread, hrest, hstart, if_true, harrow, Option.map_some]

theorem parenthesized?_eq_some_iff :
    parenthesized? cs = some (names, body) ↔
      ∃ inside params trail gap, IsBlanks inside ∧ IsParamList params ∧ IsBlanks trail ∧
        IsBlanks gap ∧
        names = paramsOf params ∧
          cs = inside ++ (params ++ (trail ++ ')' :: (gap ++ '=' :: '>' :: body))) := by
  constructor
  · intro h
    simp only [parenthesized?] at h
    split at h
    · rename_i after hafter
      split at h
      · rename_i hstart
        obtain ⟨rest, hrest, heq⟩ := Option.map_eq_some_iff.mp h
        obtain ⟨gap, hgap, rfl⟩ := afterArrow?_eq_some_iff.mp hrest
        cases heq
        have hparams : IsParamList ((cs.dropWhile isBlank).takeWhile isParamListChar) := by
          refine ⟨fun _ hc => List.mem_takeWhile_imp hc, ?_⟩
          cases hlist : (cs.dropWhile isBlank).takeWhile isParamListChar with
          | nil => rfl
          | cons c list => simpa [hlist] using hstart
        refine ⟨cs.takeWhile isBlank, _, [], gap, isBlanks_takeWhile cs, hparams, IsBlanks.nil,
          hgap, rfl, ?_⟩
        rw [List.nil_append, ← hafter, drop_length_takeWhile, List.takeWhile_append_dropWhile,
          List.takeWhile_append_dropWhile]
      · cases h
    · cases h
  · rintro ⟨inside, params, trail, gap, hinside, hparams, htrail, hgap, rfl, rfl⟩
    by_cases hne : params = []
    · subst hne
      rw [List.nil_append, ← List.append_assoc]
      exact parenthesized?_of_dropWhile hparams hgap
        (dropWhile_blanks_append (hinside.append htrail) rfl)
    · have hlist := hparams.append_blanks htrail hne
      rw [← paramsOf_append_blanks htrail, ← List.append_assoc params]
      refine parenthesized?_of_dropWhile hlist hgap (dropWhile_blanks_append hinside ?_)
      rw [List.head?_append_of_ne_nil _ (List.append_ne_nil_of_left_ne_nil hne _)]
      exact hlist.all_not_isBlank_head?

theorem single?_eq_some_iff :
    single? cs = some (names, body) ↔
      ∃ name gap, (∀ c ∈ name, isWordChar c = true) ∧ name.head?.any isParamStart = true ∧
        IsBlanks gap ∧
        names = [String.ofList name] ∧ cs = name ++ (gap ++ '=' :: '>' :: body) := by
  constructor
  · intro h
    simp only [single?] at h
    split at h
    · rename_i hstart
      obtain ⟨rest, hrest, heq⟩ := Option.map_eq_some_iff.mp h
      obtain ⟨gap, hgap, hdrop⟩ := afterArrow?_eq_some_iff.mp hrest
      cases heq
      refine ⟨cs.takeWhile isWordChar, gap, fun _ hc => List.mem_takeWhile_imp hc, hstart,
        hgap, rfl, ?_⟩
      rw [← hdrop, drop_length_takeWhile, List.takeWhile_append_dropWhile]
    · cases h
  · rintro ⟨name, gap, hname, hstart, hgap, rfl, rfl⟩
    have hstop : (gap ++ '=' :: '>' :: body).head?.all (!isWordChar ·) = true := by
      cases gap with
      | nil => rfl
      | cons c gap =>
        have hblank : isBlank c = true := hgap c List.mem_cons_self
        have hword : isWordChar c ≠ true := fun h => by simp [isBlank_of_isWordChar h] at hblank
        simpa using hword
    have hread : (name ++ (gap ++ '=' :: '>' :: body)).takeWhile isWordChar = name :=
      takeWhile_append_stop hname hstop
    have harrow : afterArrow? (gap ++ '=' :: '>' :: body) = some body :=
      afterArrow?_eq_some_iff.mpr ⟨gap, hgap, rfl⟩
    simp only [single?, hread, hstart, if_true, List.drop_left, harrow, Option.map_some]

/-- A text is split in the one way in which it can be read. -/
theorem header?_eq_some_iff : header? cs = some (names, body) ↔ Headed cs names body := by
  constructor
  · intro h
    have hlead : IsBlanks (cs.takeWhile isBlank) := isBlanks_takeWhile cs
    rw [← List.takeWhile_append_dropWhile (p := isBlank) (l := cs)]
    unfold header? at h
    split at h
    · rename_i rest hrest
      obtain ⟨inside, params, trail, gap, hinside, hparams, htrail, hgap, rfl, rfl⟩ :=
        parenthesized?_eq_some_iff.mp h
      rw [hrest]
      exact .parenthesized body hlead hinside hparams htrail hgap
    · obtain ⟨name, gap, hname, hstart, hgap, rfl, hrest⟩ := single?_eq_some_iff.mp h
      rw [hrest]
      exact .single body hlead hname hstart hgap
  · intro h
    cases h with
    | @parenthesized _ lead inside params trail gap hlead hinside hparams htrail hgap =>
      rw [header?, dropWhile_blanks_append hlead rfl]
      exact parenthesized?_eq_some_iff.mpr
        ⟨inside, params, trail, gap, hinside, hparams, htrail, hgap, rfl, rfl⟩
    | @single _ lead name gap hlead hname hstart hgap =>
      have hsingle : single? (name ++ (gap ++ '=' :: '>' :: body)) =
          some ([String.ofList name], body) :=
        single?_eq_some_iff.mpr ⟨name, gap, hname, hstart, hgap, rfl, rfl⟩
      cases name with
      | nil => cases hstart
      | cons c name =>
        have hskip : (lead ++ (c :: name ++ (gap ++ '=' :: '>' :: body))).dropWhile isBlank =
            c :: name ++ (gap ++ '=' :: '>' :: body) :=
          dropWhile_blanks_append hlead
            (by simpa using isBlank_of_isWordChar (hname c List.mem_cons_self))
        rw [header?, hskip]
        split
        · rename_i hopen
          cases hopen
          cases hstart
        · exact hsingle

instance : DecidablePred IsBlanks :=
  fun cs => decidable_of_iff (cs.all isBlank = true) List.all_eq_true

/-- A text of blanks, with line ends and blanks beyond ASCII among them. -/
abbrev Blanks := { cs : List Char // IsBlanks cs }

def isAsciiName (name : String) : Bool :=
  name.toList.head?.any isParamStart && name.toList.all isAsciiWord

/-- A name as it is written in a header, with the blanks around it. -/
structure Parameter where
  before : Blanks
  name : String
  after : Blanks
  isAsciiName_name : isAsciiName name = true

def Parameter.chars (p : Parameter) : List Char := p.before.1 ++ (p.name.toList ++ p.after.1)

def parameterList (ps : List Parameter) : List Char := [','].intercalate (ps.map Parameter.chars)

/-- A header as it is written: any number of parameters in parentheses, or a single one without
them. -/
inductive Header
  | list (lead inside : Blanks) (parameters : List Parameter) (gap : Blanks)
  | single (param : Parameter)

def Header.params : Header → List String
  | list _ _ parameters _ => parameters.map Parameter.name
  | single param => [param.name]

def Header.chars : Header → List Char
  | list lead inside parameters gap =>
      lead.1 ++ '(' :: (inside.1 ++ (parameterList parameters ++ ')' :: (gap.1 ++ ['=', '>'])))
  | single param => param.chars ++ ['=', '>']

theorem parameterList_cons_cons (p q : Parameter) (ps : List Parameter) :
    parameterList (p :: q :: ps) = p.chars ++ ',' :: parameterList (q :: ps) := by
  rw [parameterList, List.map_cons, List.map_cons, List.intercalate_cons_cons, List.append_assoc]
  rfl

theorem parameterList_singleton (p : Parameter) : parameterList [p] = p.chars :=
  List.intercalate_singleton ..

theorem parameterList_cons (p : Parameter) (ps : List Parameter) :
    parameterList (p :: ps) =
      p.before.1 ++ parameterList ({ p with before := ⟨[], IsBlanks.nil⟩ } :: ps) := by
  cases ps with
  | nil =>
    rw [parameterList_singleton, parameterList_singleton, Parameter.chars, Parameter.chars,
      List.nil_append]
  | cons q ps =>
    rw [parameterList_cons_cons, parameterList_cons_cons, Parameter.chars, Parameter.chars,
      List.append_assoc]
    rfl

theorem Parameter.isAsciiWord_of_mem (p : Parameter) : ∀ c ∈ p.name.toList, isAsciiWord c = true :=
  List.all_eq_true.mp (Bool.and_eq_true_iff.mp p.isAsciiName_name).2

theorem Parameter.head?_name (p : Parameter) : p.name.toList.head?.any isParamStart = true :=
  (Bool.and_eq_true_iff.mp p.isAsciiName_name).1

theorem Parameter.name_ne_nil (p : Parameter) : p.name.toList ≠ [] := by
  intro h
  have hstart := p.head?_name
  rw [h] at hstart
  cases hstart

theorem Parameter.isAsciiWord_or_isBlank_of_mem (p : Parameter) {c : Char} (h : c ∈ p.chars) :
    isAsciiWord c = true ∨ isBlank c = true := by
  rcases List.mem_append.mp h with hbefore | h
  · exact .inr (p.before.2 c hbefore)
  · exact (List.mem_append.mp h).imp (p.isAsciiWord_of_mem c) (p.after.2 c)

theorem Parameter.paramsOf_chars (p : Parameter) : paramsOf p.chars = [p.name] := by
  have hcomma : ',' ∉ p.chars := fun h => absurd (p.isAsciiWord_or_isBlank_of_mem h) (by decide)
  have hsolid : ∀ c ∈ p.name.toList, isBlank c = false :=
    fun c hc => isBlank_of_isWordChar (isWordChar_of_isAsciiWord (p.isAsciiWord_of_mem c hc))
  have hfull : p.name.isEmpty = false := by simpa using p.name_ne_nil
  rw [paramsOf_of_notMem hcomma, Parameter.chars, strip_blanks_append p.before.2,
    strip_append_blanks p.after.2,
    strip_of_solid hsolid, String.ofList_toList]
  simp [hfull]

/-- The parameters that are read are the names that are written. -/
theorem paramsOf_parameterList (ps : List Parameter) :
    paramsOf (parameterList ps) = ps.map Parameter.name := by
  induction ps with
  | nil => rfl
  | cons p ps ih =>
    cases ps with
    | nil => rw [parameterList_singleton, p.paramsOf_chars, List.map_singleton]
    | cons q ps =>
      rw [parameterList_cons_cons, paramsOf_append_comma, p.paramsOf_chars, ih,
        List.singleton_append, ← List.map_cons]

theorem isParamListChar_of_mem_parameterList (ps : List Parameter) :
    ∀ c ∈ parameterList ps, isParamListChar c = true := by
  have hone (p : Parameter) (c : Char) (hc : c ∈ p.chars) : isParamListChar c = true := by
    rcases p.isAsciiWord_or_isBlank_of_mem hc with hword | hblank
    · rw [isParamListChar, isWordChar_of_isAsciiWord hword, Bool.true_or, Bool.true_or]
    · exact isParamListChar_of_isBlank hblank
  induction ps with
  | nil => exact fun _ hc => absurd hc List.not_mem_nil
  | cons p ps ih =>
    cases ps with
    | nil => exact parameterList_singleton p ▸ hone p
    | cons q ps =>
      rw [parameterList_cons_cons]
      exact List.forall_mem_append.mpr ⟨hone p, List.forall_mem_cons.mpr ⟨rfl, ih⟩⟩

theorem head?_parameterList {p : Parameter} (hp : p.before.1 = []) (ps : List Parameter) :
    (parameterList (p :: ps)).head? = p.name.toList.head? := by
  have hchars : p.chars.head? = p.name.toList.head? := by
    rw [Parameter.chars, hp, List.nil_append, List.head?_append_of_ne_nil _ p.name_ne_nil]
  have hne : p.chars ≠ [] := by simp [Parameter.chars, p.name_ne_nil]
  cases ps with
  | nil => rw [parameterList_singleton, hchars]
  | cons q ps => rw [parameterList_cons_cons, List.head?_append_of_ne_nil _ hne, hchars]

theorem isParamList_parameterList {p : Parameter} (hp : p.before.1 = []) (ps : List Parameter) :
    IsParamList (parameterList (p :: ps)) := by
  refine ⟨isParamListChar_of_mem_parameterList _, ?_⟩
  rw [head?_parameterList hp]
  cases hname : p.name.toList.head? with
  | none => rfl
  | some c => simpa [hname] using p.head?_name

/-- A written header can be read as it is meant. -/
theorem Header.headed (h : Header) (body : List Char) : Headed (h.chars ++ body) h.params body := by
  cases h with
  | list lead inside parameters gap =>
    cases parameters with
    | nil =>
      have hnone : IsParamList [] := ⟨fun _ hc => absurd hc List.not_mem_nil, rfl⟩
      have hheaded := Headed.parenthesized body lead.2 inside.2 hnone IsBlanks.nil gap.2
      have hempty : paramsOf [] = [] := paramsOf_parameterList []
      rw [hempty] at hheaded
      simpa [Header.chars, Header.params, parameterList] using hheaded
    | cons p ps =>
      have hlist := isParamList_parameterList (p := { p with before := ⟨[], IsBlanks.nil⟩ }) rfl ps
      have hheaded := Headed.parenthesized body lead.2 (inside.2.append p.before.2) hlist
        IsBlanks.nil gap.2
      rw [paramsOf_parameterList] at hheaded
      simpa [Header.chars, Header.params, parameterList_cons p] using hheaded
  | single param =>
    have hword : ∀ c ∈ param.name.toList, isWordChar c = true :=
      fun c hc => isWordChar_of_isAsciiWord (param.isAsciiWord_of_mem c hc)
    have hheaded := Headed.single body param.before.2 hword param.head?_name param.after.2
    rw [String.ofList_toList] at hheaded
    simpa [Header.chars, Header.params, Parameter.chars] using hheaded

/-- The expression that a body is the text of, once it has passed the check. -/
def readBody (body : String) : Except Fault Expr :=
  let text := strip (respell body)
  match unencodable? text with
  | some problem => .error (.unencodable problem)
  | none => match parse? text with
      | none => .error (.expression ("Invalid expression " ++ quoted body ++ ": invalid syntax"))
      | some e => match violation? e with
          | some v => .error (.expression v.message)
          | none => .ok e

/-- What is compiled is the body, and the parameters are those of the header. -/
theorem compile_eq_map_readBody {source : String} (h : (splitArrow source).body.isEmpty = false) :
    compile source = (readBody (splitArrow source).body).map (⟨(splitArrow source).params, ·⟩) := by
  simp only [compile, readBody, h, Bool.false_eq_true, if_false]
  cases unencodable? (strip (respell (splitArrow source).body)) with
  | some problem => rfl
  | none =>
    cases parse? (strip (respell (splitArrow source).body)) with
    | none => rfl
    | some e =>
      dsimp only
      cases violation? e <;> rfl

theorem unblocked_of_not_startsWith {body : String} (h : body.startsWith "\x7b" = false) :
    unblocked body = body := by
  rw [unblocked, h]
  rfl

theorem splitArrow_header (h : Header) {body : String}
    (hblock : (strip body).startsWith "\x7b" = false) :
    splitArrow (String.ofList h.chars ++ body) = ⟨h.params, strip body⟩ := by
  have hheader : header? (String.ofList h.chars ++ body).toList = some (h.params, body.toList) := by
    rw [String.toList_append, String.toList_ofList]
    exact header?_eq_some_iff.mpr (h.headed body.toList)
  simp only [splitArrow, hheader, String.ofList_toList, unblocked_of_not_startsWith hblock]

theorem bindParams_append_singleton (names : List String) (name : String) (args : List Value) :
    bindParams (names ++ [name]) args =
      (bindParams names args).put name (args.getD names.length .null) := by
  simp [bindParams, List.zipIdx_append]

/-- Distinct names are bound in order, and names without an argument to null. -/
theorem bindParams_of_nodup {names : List String} (h : names.Nodup) (args : List Value) :
    bindParams names args = names.mapIdx fun i name => (name, args.getD i .null) := by
  induction names using List.reverseRecOn with
  | nil => rfl
  | append_singleton names name ih =>
    obtain ⟨hnames, -, hapart⟩ := List.nodup_append.mp h
    have hkeys : Table.keys (bindParams names args) = names := by
      rw [ih hnames, Table.keys, List.mapIdx_eq_zipIdx_map, List.map_map]
      exact List.zipIdx_map_fst 0 names
    have hnew : name ∉ (bindParams names args).keys := fun hmem =>
      hapart name (hkeys ▸ hmem) name List.mem_cons_self rfl
    rw [bindParams_append_singleton, Table.put_of_notMem _ hnew, ih hnames, List.mapIdx_concat]

/-- However a header is laid out, the text after it is the body: it is split off as it is, compiled
as it would be on its own, and evaluated with the parameters bound to the arguments by position. -/
theorem compile_after_header (h : Header) (body : String) (hfull : (strip body).isEmpty = false)
    (hblock : (strip body).startsWith "\x7b" = false) :
    splitArrow (String.ofList h.chars ++ body) = ⟨h.params, strip body⟩ ∧
      compile (String.ofList h.chars ++ body) = (readBody (strip body)).map (⟨h.params, ·⟩) ∧
      (header? body.toList = none →
        compile body = (readBody (strip body)).map (⟨defaultParams, ·⟩)) ∧
      (h.params.Nodup → ∀ e, readBody (strip body) = .ok e →
        ∃ c, compile (String.ofList h.chars ++ body) = .ok c ∧
          ∀ args, c.call args =
            evaluate e (h.params.mapIdx fun i name => (name, args.getD i .null))) := by
  have hsplit := splitArrow_header h hblock
  have hcompile : compile (String.ofList h.chars ++ body) =
      (readBody (strip body)).map (⟨h.params, ·⟩) := by
    rw [compile_eq_map_readBody (by rw [hsplit]; exact hfull), hsplit]
  refine ⟨hsplit, hcompile, fun hnone => ?_, fun hnodup e he => ?_⟩
  · have hbare : splitArrow body = ⟨defaultParams, strip body⟩ := by rw [splitArrow, hnone]
    rw [compile_eq_map_readBody (by rw [hbare]; exact hfull), hbare]
  · refine ⟨⟨h.params, e⟩, by rw [hcompile, he]; rfl, fun args => ?_⟩
    rw [Compiled.call, bindParams_of_nodup hnodup]

/-- Two parameters on two lines, and a line end before the arrow. -/
def spreadHeader : Header :=
  .list ⟨[' '], by decide⟩ ⟨[' '], by decide⟩
    [⟨⟨[], by decide⟩, "a", ⟨[' '], by decide⟩, by decide⟩,
      ⟨⟨['\n', ' '], by decide⟩, "_b", ⟨['\t'], by decide⟩, by decide⟩]
    ⟨['\n'], by decide⟩

/-- An arrow, a comma and a parenthesis in the body are the body's. -/
theorem compile_after_spreadHeader :
    splitArrow " ( a ,\n _b\t)\n=> '=> (a,' + _b\n" = ⟨["a", "_b"], "'=> (a,' + _b"⟩ ∧
      ∃ e, readBody "'=> (a,' + _b" = .ok e ∧
        ∃ c, compile " ( a ,\n _b\t)\n=> '=> (a,' + _b\n" = .ok c ∧
        ∀ args, c.call args = evaluate e [("a", args.getD 0 .null), ("_b", args.getD 1 .null)] := by
  have htext : " ( a ,\n _b\t)\n=> '=> (a,' + _b\n" =
      String.ofList spreadHeader.chars ++ " '=> (a,' + _b\n" := by
    decide
  have hstrip : strip " '=> (a,' + _b\n" = "'=> (a,' + _b" := by decide
  have hread : (readBody "'=> (a,' + _b").toOption.isSome = true := by decide +kernel
  obtain ⟨hsplit, -, -, hcall⟩ := compile_after_header spreadHeader " '=> (a,' + _b\n"
    (by decide) (by rw [hstrip]; simp)
  rw [hstrip, ← htext] at hsplit hcall
  cases he : readBody "'=> (a,' + _b" with
  | error f =>
    rw [he] at hread
    cases hread
  | ok e => exact ⟨hsplit, e, rfl, hcall (by decide) e he⟩

end Expression

end EffectTree
