import Mathlib.Data.Bool.Basic
import Mathlib.Data.List.TakeWhile
import EffectTree.Proofs.Conditions

/-!
# Tokens of conditions

Replacing the spellings of the operators turns a text of signs into a text of the same signs in
their other spelling, and trimming keeps it one. So the tokens of the source are those of the signs,
as long as parentheses do not nest more deeply than brackets may.
-/
namespace EffectTree.Condition

open Expression

theorem forall_ascii {p : Char → Prop} (h : ∀ n < 128, p (Char.ofNat n)) {c : Char}
    (hc : c.toNat < 128) : p c := by
  have := h c.toNat hc
  rwa [Char.ofNat_toNat] at this

/-- The characters of operators that are respelled. -/
def operators : List Char := ['=', '!', '&', '|']

/-- The characters that are never part of a sign, but have a meaning of their own. -/
def foreign : List Char := ['>', '#', '\\', '\r', Char.ofNat 0]

/-- A character that belongs to no header, quoted text, comment or other line, and is no half of a
pair. -/
def isSafe (c : Char) : Bool := !foreign.contains c && !isQuote c && !Text.isHalf c

theorem isSafe_ne {c d : Char} (hd : d ∈ foreign) (hc : isSafe c = true) : c ≠ d := by
  rintro rfl
  simp [isSafe, hd] at hc

theorem not_mem_of_isSafe {cs : List Char} (h : cs.all isSafe = true) {d : Char}
    (hd : d ∈ foreign) : d ∉ cs :=
  fun hmem => isSafe_ne hd (List.all_eq_true.mp h d hmem) rfl

/-- A character that is not respelled. -/
def isPlain (c : Char) : Bool := !operators.contains c && isSafe c

def isWordly (c : Char) : Bool := isPlain c && isWordPart c && !Text.isBlank c

theorem isWordly_of_isNamePart {c : Char} (hc : c.toNat < 128) :
    Text.isNamePart c = true → isWordly c = true :=
  forall_ascii (p := fun c => Text.isNamePart c = true → isWordly c = true) (by decide) hc

theorem isNamePart_of_isNameStart {c : Char} (hc : c.toNat < 128) :
    Text.isNameStart c = true → Text.isNamePart c = true ∧ c.isDigit = false ∧ c ≠ '.' :=
  forall_ascii (p := fun c => Text.isNameStart c = true → Text.isNamePart c = true ∧
    c.isDigit = false ∧ c ≠ '.')
    (by decide) hc

namespace Word

theorem exists_cons (w : Word) :
    ∃ c rest, w.text.toList = c :: rest ∧ c.isDigit = false ∧ c ≠ '.' ∧
      (c :: rest).all isWordly = true := by
  obtain ⟨text, hidentifier, hascii⟩ := w
  simp only [Text.isIdentifier] at hidentifier
  cases hchars : text.toList with
  | nil => simp [hchars] at hidentifier
  | cons c rest =>
    simp only [hchars, Bool.and_eq_true, List.all_eq_true] at hidentifier hascii
    obtain ⟨hpart, hdigit, hpoint⟩ :=
      isNamePart_of_isNameStart (hascii c List.mem_cons_self) hidentifier.1
    refine ⟨c, rest, rfl, hdigit, hpoint, List.all_eq_true.mpr fun d hd =>
      isWordly_of_isNamePart (hascii d hd) ?_⟩
    rcases List.mem_cons.mp hd with rfl | hd
    · exact hpart
    · exact hidentifier.2 d hd

theorem all_isWordly (w : Word) : w.text.toList.all isWordly = true := by
  obtain ⟨c, rest, hchars, -, -, hall⟩ := w.exists_cons
  rwa [hchars]

end Word

/-- The spelling of expressions. -/
def respelled : Spelling where
  chars
    | .word w => w.text.toList
    | .bang => ['n', 'o', 't']
    | .equal => ['=', '=']
    | .unequal => ['!', '=']
    | .both => ['a', 'n', 'd']
    | .either => ['o', 'r']
    | .opening => ['(']
    | .closing => [')']
  parts
    | .word _, c => !isWordPart c
    | .bang, c => !isWordPart c
    | .both, c => !isWordPart c
    | .either, c => !isWordPart c
    | _, _ => true

theorem isPlain_of_isGap {c : Char} (h : isGap c = true) : isPlain c = true := by
  simp only [isGap, Bool.or_eq_true, decide_eq_true_eq] at h
  rcases h with rfl | rfl <;> decide

theorem respellChars_cons {c : Char} (hc : isPlain c = true) (cs : List Char) :
    respellChars none (c :: cs) = c :: respellChars none cs := by
  simp only [isPlain, isSafe, operators, Bool.and_eq_true, Bool.not_eq_true', List.contains_eq_mem,
    decide_eq_false_iff_not, List.mem_cons, not_or] at hc
  obtain ⟨⟨hequals, hbang, hand, hbar, -⟩, ⟨-, hquote⟩, -⟩ := hc
  rw [respellChars]
  · simp [hquote]
  all_goals simp_all

theorem respellChars_append {ds : List Char} (hds : ds.all isPlain = true) (cs : List Char) :
    respellChars none (ds ++ cs) = ds ++ respellChars none cs := by
  induction ds with
  | nil => rfl
  | cons d ds ih =>
    simp only [List.all_cons, Bool.and_eq_true] at hds
    rw [List.cons_append, respellChars_cons hds.1, ih hds.2, List.cons_append]

/-- A sign that respelling changes begins with a blank, any other with the character that it began
with. -/
theorem head?_respellChars {p : Char → Bool} (hp : p ' ' = true) {cs : List Char}
    (h : cs.head?.all p = true) :
    (respellChars none cs).head?.all p = true := by
  unfold respellChars
  split <;> simp_all

theorem respellChars_bang {cs : List Char} (h : cs.head?.all (scripted.parts .bang) = true) :
    respellChars none ('!' :: cs) = ' ' :: 'n' :: 'o' :: 't' :: ' ' :: respellChars none cs := by
  cases cs with
  | nil => rfl
  | cons c cs =>
    have hne : c ≠ '=' := by simpa [scripted] using h
    rw [respellChars]
    all_goals simp_all

theorem Spells.gap {spelling : Spelling} {signs : List Sign} {cs : List Char}
    (h : Spells spelling signs cs) :
    Spells spelling signs (' ' :: cs) := by
  cases h with
  | done hblanks => exact .done (by simpa [isGap] using hblanks)
  | @sign blanks s signs cs hblanks hparts hrest =>
    have hgaps : (' ' :: blanks).all isGap = true := by simpa [isGap] using hblanks
    exact .sign hgaps hparts hrest

/-- A sign that is respelled as a word gets blanks around it. -/
theorem Spells.spaced {blanks : List Char} (hblanks : blanks.all isGap = true) {s : Sign}
    {signs : List Sign} {cs : List Char} (hs : respelled.parts s ' ' = true)
    (h : Spells respelled signs cs) :
    Spells respelled (s :: signs) (blanks ++ ' ' :: (respelled.chars s ++ ' ' :: cs)) := by
  have hgaps : (blanks ++ [' ']).all isGap = true := by simpa [isGap] using hblanks
  simpa using Spells.sign hgaps (by simpa using hs) h.gap

theorem all_isPlain_of_isGap {blanks : List Char} (h : blanks.all isGap = true) :
    blanks.all isPlain = true :=
  List.all_eq_true.mpr fun c hc => isPlain_of_isGap (List.all_eq_true.mp h c hc)

theorem all_isPlain_of_isWordly {cs : List Char} (h : cs.all isWordly = true) :
    cs.all isPlain = true := by
  simp only [isWordly, List.all_eq_true, Bool.and_eq_true] at h ⊢
  exact fun c hc => (h c hc).1.1

/-- Respelling a text of signs gives a text of the same signs. -/
theorem Spells.respell {signs : List Sign} {cs : List Char} (h : Spells scripted signs cs) :
    Spells respelled signs (respellChars none cs) := by
  induction h with
  | @done blanks hblanks =>
    have hsame := respellChars_append (all_isPlain_of_isGap hblanks) []
    rw [List.append_nil] at hsame
    rw [hsame, respellChars, List.append_nil]
    exact .done hblanks
  | @sign blanks s signs cs hblanks hparts hrest ih =>
    rw [respellChars_append (all_isPlain_of_isGap hblanks)]
    cases s with
    | word w =>
      have hplain : (scripted.chars (.word w)).all isPlain = true :=
        all_isPlain_of_isWordly w.all_isWordly
      rw [respellChars_append hplain]
      exact .sign hblanks (head?_respellChars rfl hparts) ih
    | bang =>
      have hbang : respellChars none (scripted.chars .bang ++ cs) = _ := respellChars_bang hparts
      rw [hbang]
      exact Spells.spaced hblanks rfl ih
    | both => exact Spells.spaced hblanks rfl ih
    | either => exact Spells.spaced hblanks rfl ih
    | equal | unequal | opening | closing => exact .sign hblanks (by simp [respelled]) ih

section Trim

variable {p : Char → Bool}

theorem initial_dropEnd (cs : List Char) : Text.dropEnd p cs <+: cs := by
  have hsuffix := List.reverse_prefix.mpr (List.dropWhile_suffix p (l := cs.reverse))
  rwa [List.reverse_reverse] at hsuffix

theorem dropEnd_append_of_ne_nil (ds : List Char) {cs : List Char} (h : Text.dropEnd p cs ≠ []) :
    Text.dropEnd p (ds ++ cs) = ds ++ Text.dropEnd p cs := by
  have hne : (cs.reverse.dropWhile p).isEmpty = false := by
    rw [Text.dropEnd, ne_eq, List.reverse_eq_nil_iff] at h
    simpa using h
  rw [Text.dropEnd, List.reverse_append, List.dropWhile_append, hne, Text.dropEnd]
  simp

theorem dropEnd_append {ds : List Char} (hne : ds ≠ []) (hds : ds.all (!p ·) = true)
    (cs : List Char) :
    Text.dropEnd p (ds ++ cs) = ds ++ Text.dropEnd p cs := by
  have hstay : ds.reverse.dropWhile p = ds.reverse := by
    cases hlast : ds.reverse with
    | nil => exact absurd (List.reverse_eq_nil_iff.mp hlast) hne
    | cons d rest =>
      have hd : d ∈ ds := List.mem_reverse.mp (hlast ▸ List.mem_cons_self)
      have hkept := List.all_eq_true.mp hds d hd
      exact List.dropWhile_cons_of_neg (by simpa using hkept)
  rw [Text.dropEnd, List.reverse_append, List.dropWhile_append, hstay, Text.dropEnd]
  split
  · rename_i hempty
    rw [List.isEmpty_iff.mp hempty, List.reverse_reverse, List.reverse_nil, List.append_nil]
  · rw [List.reverse_append, List.reverse_reverse]

theorem head?_all_initial {q : Char → Bool} {ds cs : List Char} (h : ds <+: cs)
    (hcs : cs.head?.all q = true) :
    ds.head?.all q = true := by
  obtain ⟨rest, rfl⟩ := h
  cases ds with
  | nil => rfl
  | cons d ds => simpa using hcs

end Trim

/-- All signs are written with characters that are not blank, and with at least one. -/
def Spelling.IsSolid (spelling : Spelling) : Prop :=
  ∀ s, spelling.chars s ≠ [] ∧ (spelling.chars s).all (!Text.isBlank ·) = true

theorem isBlank_of_isGap {c : Char} (h : isGap c = true) : Text.isBlank c = true := by
  simp only [isGap, Bool.or_eq_true, decide_eq_true_eq] at h
  rcases h with rfl | rfl <;> decide

section Solid

variable {spelling : Spelling} (hsolid : spelling.IsSolid) {signs : List Sign} {cs : List Char}
include hsolid

theorem Spells.trimLeft (h : Spells spelling signs cs) :
    Spells spelling signs (cs.dropWhile Text.isBlank) := by
  cases h with
  | done hblanks =>
    have hnil : cs.dropWhile Text.isBlank = [] :=
      List.dropWhile_eq_nil_iff.mpr fun c hc => isBlank_of_isGap (List.all_eq_true.mp hblanks c hc)
    rw [hnil]
    exact .done rfl
  | @sign blanks s signs cs hblanks hparts hrest =>
    obtain ⟨hne, hsign⟩ := hsolid s
    have hall : ∀ c ∈ blanks, Text.isBlank c = true :=
      fun c hc => isBlank_of_isGap (List.all_eq_true.mp hblanks c hc)
    have hstay : (spelling.chars s ++ cs).dropWhile Text.isBlank = spelling.chars s ++ cs := by
      obtain ⟨c, rest, hsign'⟩ := List.exists_cons_of_ne_nil hne
      rw [hsign', List.all_cons, Bool.and_eq_true] at hsign
      rw [hsign', List.cons_append, List.dropWhile_cons_of_neg (by simpa using hsign.1)]
    rw [List.dropWhile_append_of_pos hall, hstay]
    have hnone : ([] : List Char).all isGap = true := rfl
    exact .sign hnone hparts hrest

theorem Spells.trimRight (h : Spells spelling signs cs) :
    Spells spelling signs (Text.dropEnd Text.isBlank cs) := by
  induction h with
  | @done blanks hblanks =>
    have hnil : Text.dropEnd Text.isBlank blanks = [] := by
      have hall : ∀ c ∈ blanks.reverse, Text.isBlank c = true := fun c hc =>
        isBlank_of_isGap (List.all_eq_true.mp hblanks c (List.mem_reverse.mp hc))
      rw [Text.dropEnd, List.dropWhile_eq_nil_iff.mpr hall, List.reverse_nil]
    rw [hnil]
    exact .done rfl
  | @sign blanks s signs cs hblanks hparts hrest ih =>
    obtain ⟨hne, hsign⟩ := hsolid s
    have hkept := dropEnd_append hne hsign cs
    have hlong : Text.dropEnd Text.isBlank (spelling.chars s ++ cs) ≠ [] := by simp [hkept, hne]
    rw [dropEnd_append_of_ne_nil blanks hlong, hkept]
    exact .sign hblanks (head?_all_initial (initial_dropEnd cs) hparts) ih

/-- A trimmed text of signs is one of the same signs, and has no blank at its start. -/
theorem Spells.strip (h : Spells spelling signs cs) :
    Spells spelling signs (Text.strip (String.ofList cs)).toList ∧
      (Text.strip (String.ofList cs)).toList.head?.all (!isGap ·) = true := by
  have hstart : (cs.dropWhile Text.isBlank).head?.all (!isGap ·) = true := by
    cases hrest : cs.dropWhile Text.isBlank with
    | nil => rfl
    | cons c rest =>
      have hc : Text.isBlank c = false := by
        have hne : cs.dropWhile Text.isBlank ≠ [] := by simp [hrest]
        have hhead := List.head_dropWhile_not Text.isBlank hne
        simpa [hrest] using hhead
      cases hgap : isGap c with
      | false => simp [hgap]
      | true => simp [isBlank_of_isGap hgap] at hc
  simp only [Text.strip, String.toList_ofList]
  exact ⟨(h.trimLeft hsolid).trimRight hsolid, head?_all_initial (initial_dropEnd _) hstart⟩

end Solid

theorem Word.isSolid (w : Word) :
    w.text.toList ≠ [] ∧ w.text.toList.all (!Text.isBlank ·) = true := by
  obtain ⟨c, rest, hchars, -, -, hall⟩ := w.exists_cons
  refine ⟨by simp [hchars], ?_⟩
  rw [hchars]
  simp only [isWordly, List.all_eq_true, Bool.and_eq_true] at hall ⊢
  exact fun d hd => (hall d hd).2

theorem scripted_isSolid : scripted.IsSolid
  | .word w => w.isSolid
  | .bang | .equal | .unequal | .both | .either | .opening | .closing => by decide

theorem respelled_isSolid : respelled.IsSolid
  | .word w => w.isSolid
  | .bang | .equal | .unequal | .both | .either | .opening | .closing => by decide

namespace Sign

def token : Sign → Token
  | word w => .word w.text
  | bang => .word "not"
  | equal => .symbol "=="
  | unequal => .symbol "!="
  | both => .word "and"
  | either => .word "or"
  | opening => .symbol "("
  | closing => .symbol ")"

/-- The word that a sign is respelled as. -/
def keyword? : Sign → Option Word
  | word w => some w.toWord
  | bang => some notWord
  | both => some andWord
  | either => some orWord
  | _ => none

end Sign

theorem token?_word (w : Word) {cs : List Char} (hpart : cs.head?.all (!isWordPart ·) = true)
    (hquote : cs.head?.any isQuote = false) :
    token? (w.text.toList ++ cs) = some (.word w.text, cs) := by
  obtain ⟨c, rest, hchars, hdigit, hpoint, hall⟩ := w.exists_cons
  simp only [isWordly, isPlain, isSafe, List.all_eq_true, Bool.and_eq_true,
    Bool.not_eq_true'] at hall
  have hword : (c :: (rest ++ cs)).takeWhile isWordPart = c :: rest := by
    have hnone : cs.takeWhile isWordPart = [] := by
      cases cs with
      | nil => rfl
      | cons d cs => exact List.takeWhile_cons_of_neg (by simpa using hpart)
    rw [← List.cons_append, List.takeWhile_append_of_pos fun d hd => (hall d hd).1.2, hnone,
      List.append_nil]
  have htext : String.ofList (c :: rest) = w.text := by rw [← hchars, String.ofList_toList]
  obtain ⟨⟨⟨-, ⟨-, hnoQuote⟩, -⟩, hwordPart⟩, -⟩ := hall c List.mem_cons_self
  rw [hchars, List.cons_append, token?]
  simp [hnoQuote, hdigit, hpoint, hwordPart, hword, hquote, htext, w.isIdentifier]

theorem keyword?_parts {s : Sign} {w : Word} (h : s.keyword? = some w) :
    s.token = .word w.text ∧ respelled.chars s = w.text.toList ∧
      respelled.parts s = (!isWordPart ·) := by
  cases s <;> cases h <;> exact ⟨rfl, rfl, rfl⟩

/-- The first token of a text of signs is that of the first sign. -/
theorem token?_sign {s : Sign} {cs : List Char} (hparts : cs.head?.all (respelled.parts s) = true)
    (hquote : cs.head?.any isQuote = false) :
    token? (respelled.chars s ++ cs) = some (s.token, cs) := by
  cases hkeyword : s.keyword? with
  | some w =>
    obtain ⟨htoken, hchars, hpart⟩ := keyword?_parts hkeyword
    rw [htoken, hchars]
    rw [hpart] at hparts
    exact token?_word w hparts hquote
  | none =>
    cases s with
    | word | bang | both | either => cases hkeyword
    | equal | unequal | opening | closing => rfl

/-- What holds of blanks and of the characters of signs holds of all characters of a text. -/
theorem Spells.all {spelling : Spelling} {p : Char → Bool} (hgap : ∀ c, isGap c = true → p c = true)
    (hsigns : ∀ s, (spelling.chars s).all p = true) {signs : List Sign} {cs : List Char}
    (h : Spells spelling signs cs) : cs.all p = true := by
  have hblanks {blanks : List Char} (h : blanks.all isGap = true) : blanks.all p = true :=
    List.all_eq_true.mpr fun c hc => hgap c (List.all_eq_true.mp h c hc)
  induction h with
  | done h => exact hblanks h
  | sign h _ _ ih => simp [hblanks h, hsigns, ih]

theorem isSafe_of_isPlain {c : Char} (h : isPlain c = true) : isSafe c = true :=
  (Bool.and_eq_true_iff.mp h).2

theorem Word.all_isSafe (w : Word) : w.text.toList.all isSafe = true := by
  have hplain := all_isPlain_of_isWordly w.all_isWordly
  exact List.all_eq_true.mpr fun c hc => isSafe_of_isPlain (List.all_eq_true.mp hplain c hc)

theorem all_isSafe_scripted (s : Sign) : (scripted.chars s).all isSafe = true := by
  cases s with
  | word w => exact w.all_isSafe
  | bang | equal | unequal | both | either | opening | closing => decide

theorem all_isSafe_respelled (s : Sign) : (respelled.chars s).all isSafe = true := by
  cases s with
  | word w => exact w.all_isSafe
  | bang | equal | unequal | both | either | opening | closing => decide

theorem isSafe_of_isGap (c : Char) (hc : isGap c = true) : isSafe c = true :=
  isSafe_of_isPlain (isPlain_of_isGap hc)

theorem respelled_exists_cons (s : Sign) :
    ∃ c rest, respelled.chars s = c :: rest ∧ isGap c = false ∧
    c.toNat ≠ 12 ∧ c ≠ '#' ∧ c ≠ '\n' ∧ c ≠ '\\' := by
  obtain ⟨hne, hsolid⟩ := respelled_isSolid s
  have hsafe := all_isSafe_respelled s
  obtain ⟨c, rest, hchars⟩ := List.exists_cons_of_ne_nil hne
  simp only [hchars, List.all_cons, Bool.and_eq_true, Bool.not_eq_true'] at hsolid hsafe
  have hblank (d : Char) (hd : Text.isBlank d = true) : c ≠ d := by
    rintro rfl
    simp [hsolid.1] at hd
  have hfeed : c.toNat ≠ 12 :=
    fun h => hblank (Char.ofNat 12) (by decide) (by rw [← h, Char.ofNat_toNat])
  have hgap : isGap c = false :=
    Bool.eq_false_of_not_eq_true fun h => hblank c (isBlank_of_isGap h) rfl
  exact ⟨c, rest, hchars, hgap, hfeed, isSafe_ne (by simp [foreign]) hsafe.1,
    hblank '\n' (by decide),
    isSafe_ne (by simp [foreign]) hsafe.1⟩

/-- The depth of brackets after some signs. -/
def depthThrough (depth : Nat) (signs : List Sign) : Option Nat :=
  signs.foldlM (fun d s => depthAfter d s.token) depth

theorem depthThrough_step (depth : Nat) (s : Sign) (signs : List Sign) :
    depthThrough depth (s :: signs) = (depthAfter depth s.token).bind fun d =>
      depthThrough d signs := by
  rw [depthThrough, List.foldlM_cons]
  rfl

theorem scan_gaps {blanks : List Char} (hblanks : blanks.all isGap = true) (fuel depth : Nat)
    {line : Line} (hstarted : line.started = true ∨ blanks = []) (cs : List Char) :
    scan (fuel + blanks.length) depth line (blanks ++ cs) = scan fuel depth line cs := by
  induction blanks with
  | nil => rfl
  | cons c blanks ih =>
    simp only [List.all_cons, Bool.and_eq_true] at hblanks
    have hline : line.started = true := hstarted.resolve_right (List.cons_ne_nil _ _)
    have hsame : { line with indented := line.indented || !line.started } = line := by
      obtain ⟨started, indented⟩ := line
      simp_all
    have hgap : (decide (c = ' ') || decide (c = '\t')) = true := hblanks.1
    have hstep : scan (fuel + blanks.length + 1) depth line (c :: (blanks ++ cs)) =
        scan (fuel + blanks.length) depth { line with indented := line.indented || !line.started }
          (blanks ++ cs) :=
      if_pos hgap
    rw [List.length_cons, ← Nat.add_assoc, List.cons_append, hstep, hsame,
      ih hblanks.2 (.inl hline)]

theorem scan_sign {s : Sign} {cs : List Char} (hparts : cs.head?.all (respelled.parts s) = true)
    (hquote : cs.head?.any isQuote = false) (fuel depth : Nat) {line : Line}
    (hindented : (line.indented && !line.started) = false) :
    scan (fuel + 1) depth line (respelled.chars s ++ cs) =
      (depthAfter depth s.token).bind fun depth' =>
      (scan fuel depth' { started := true } cs).map (s.token :: ·) := by
  have htoken := token?_sign hparts hquote
  obtain ⟨c, rest, hchars, hgap, hfeed, hcomment, hnewline, hjoin⟩ := respelled_exists_cons s
  have hblank : ¬ (c = ' ' ∨ c = '\t') := by simpa [isGap] using hgap
  rw [hchars, List.cons_append] at htoken ⊢
  rw [scan.eq_def (fuel + 1)]
  simp only [hblank, hfeed, hcomment, hnewline, hjoin, hindented, htoken, Bool.or_eq_true,
    decide_eq_true_eq, if_false,
    Bool.false_eq_true]
  cases depthAfter depth s.token <;> rfl

theorem started_or_nil {blanks cs : List Char} {line : Line} (hblanks : blanks.all isGap = true)
    (hline : line.started = true ∨ line.indented = false ∧
      (blanks ++ cs).head?.all (!isGap ·) = true) :
    line.started = true ∨ blanks = [] := by
  refine hline.imp_right fun ⟨_, hhead⟩ => ?_
  cases blanks with
  | nil => rfl
  | cons c blanks => simp_all

theorem Spells.head?_isQuote {signs : List Sign} {cs : List Char} (h : Spells respelled signs cs) :
    cs.head?.any isQuote = false := by
  have hsafe := h.all isSafe_of_isGap all_isSafe_respelled
  cases cs with
  | nil => rfl
  | cons c cs => simp_all [isSafe]

/-- The tokens of a text of signs are those of the signs, if brackets are closed in the end and
never nest too deeply. -/
theorem scan_signs {signs : List Sign} {cs : List Char} (h : Spells respelled signs cs)
    {fuel depth : Nat} {line : Line} (hfuel : cs.length < fuel)
    (hline : line.started = true ∨ line.indented = false ∧ cs.head?.all (!isGap ·) = true) :
    scan fuel depth line cs =
      (depthThrough depth signs).bind fun d => if d = 0 then some (signs.map Sign.token)
        else none := by
  induction h generalizing fuel depth line with
  | @done blanks hblanks =>
    obtain ⟨k, rfl⟩ : ∃ k, fuel = k + 1 + blanks.length := ⟨fuel - blanks.length - 1, by omega⟩
    rw [← List.append_nil blanks] at hline
    have hstarted := started_or_nil hblanks hline
    have hscan := scan_gaps hblanks (k + 1) depth hstarted []
    rw [List.append_nil] at hscan
    rw [hscan]
    rfl
  | @sign blanks s signs cs hblanks hparts hrest ih =>
    simp only [List.length_append] at hfuel
    obtain ⟨k, rfl⟩ : ∃ k, fuel = k + 1 + blanks.length := ⟨fuel - blanks.length - 1, by omega⟩
    have hshort : cs.length < k := by
      have := List.length_pos_iff.mpr (respelled_isSolid s).1
      omega
    have hindented : (line.indented && !line.started) = false := by
      rcases hline with hline | hline <;> simp [hline]
    rw [scan_gaps hblanks _ _ (started_or_nil hblanks hline),
      scan_sign hparts hrest.head?_isQuote k depth hindented,
      depthThrough_step, Option.bind_assoc]
    refine congrArg (Option.bind _) (funext fun depth' => ?_)
    rw [ih hshort (.inl rfl)]
    cases depthThrough depth' signs with
    | none => rfl
    | some d => by_cases hd : d = 0 <;> simp [hd]

def within (depth nesting : Nat) : Option Nat :=
  if depth + nesting ≤ maxBrackets then some depth else none

theorem within_zero {depth : Nat} (h : depth ≤ maxBrackets) : within depth 0 = some depth :=
  if_pos h

theorem depthThrough_append (depth : Nat) (signs rest : List Sign) :
    depthThrough depth (signs ++ rest) = (depthThrough depth signs).bind fun d =>
      depthThrough d rest :=
  List.foldlM_append

/-- Signs that come one after another nest as deeply as those that nest more deeply. -/
theorem depthThrough_both {depth a b : Nat} {signs rest : List Sign}
    (hsigns : depthThrough depth signs = within depth a)
    (hrest : depthThrough depth rest = within depth b) :
    depthThrough depth (signs ++ rest) = within depth (max a b) := by
  rw [depthThrough_append, hsigns]
  simp only [within] at hrest ⊢
  by_cases ha : depth + a ≤ maxBrackets
  · rw [if_pos ha, Option.bind_some, hrest]
    split <;> split <;> first | rfl | omega
  · rw [if_neg ha, if_neg (by omega)]
    rfl

theorem depthThrough_nil (depth : Nat) : depthThrough depth [] = some depth := rfl

theorem depthThrough_cons {s : Sign} (hs : s ≠ .opening ∧ s ≠ .closing) (depth : Nat)
    (signs : List Sign) :
    depthThrough depth (s :: signs) = depthThrough depth signs := by
  cases s with
  | word | bang | equal | unequal | both | either => rfl
  | opening | closing => simp at hs

theorem depthThrough_group (depth : Nat) (signs : List Sign) :
    depthThrough depth (.opening :: (signs ++ [.closing])) =
      if depth < maxBrackets then (depthThrough (depth + 1) signs).bind fun d => if d = 0 then none
        else some (d - 1)
      else none := by
  have hopen : depthThrough depth (.opening :: (signs ++ [.closing])) =
      (if depth < maxBrackets then some (depth + 1) else none).bind fun d =>
        depthThrough d (signs ++ [.closing]) := rfl
  rw [hopen]
  split
  · rw [Option.bind_some, depthThrough_append]
    congr 1
    funext d
    cases d <;> rfl
  · rfl

mutual

theorem Operand.depthThrough_signs (o : Operand) {depth : Nat} (h : depth ≤ maxBrackets) :
    depthThrough depth o.signs = within depth o.nesting := by
  cases o with
  | constant b =>
    rw [Operand.signs, depthThrough_cons (by simp), Operand.nesting, within_zero h,
      depthThrough_nil]
  | name n =>
    rw [Operand.signs, depthThrough_cons (by simp), Operand.nesting, within_zero h,
      depthThrough_nil]
  | negation o =>
    rw [Operand.signs, depthThrough_cons (by simp), Operand.nesting, Operand.depthThrough_signs o h]
  | group d =>
    rw [Operand.signs, depthThrough_group]
    by_cases hdepth : depth < maxBrackets
    · rw [if_pos hdepth, Disjunction.depthThrough_signs d hdepth, Operand.nesting, within, within]
      by_cases hnesting : depth + (d.nesting + 1) ≤ maxBrackets
      · rw [if_pos (by omega), if_pos hnesting]
        rfl
      · rw [if_neg (by omega), if_neg hnesting]
        rfl
    · rw [if_neg hdepth, Operand.nesting, within, if_neg (by omega)]

theorem Comparison.depthThrough_signs (c : Comparison) {depth : Nat} (h : depth ≤ maxBrackets) :
    depthThrough depth c.signs = within depth c.nesting := by
  obtain ⟨first, rest⟩ := c
  rw [Comparison.signs, Comparison.nesting]
  exact depthThrough_both (Operand.depthThrough_signs first h) (depthThrough_comparedSigns rest h)

theorem depthThrough_comparedSigns (rest : List (Bool × Operand)) {depth : Nat}
    (h : depth ≤ maxBrackets) :
    depthThrough depth (comparedSigns rest) = within depth (comparedNesting rest) := by
  match rest with
  | [] => rw [comparedSigns, comparedNesting, within_zero h, depthThrough_nil]
  | (isEqual, o) :: rest =>
    rw [comparedSigns, depthThrough_cons (by cases isEqual <;> simp), comparedNesting]
    exact depthThrough_both (Operand.depthThrough_signs o h) (depthThrough_comparedSigns rest h)

theorem Conjunction.depthThrough_signs (c : Conjunction) {depth : Nat} (h : depth ≤ maxBrackets) :
    depthThrough depth c.signs = within depth c.nesting := by
  obtain ⟨first, rest⟩ := c
  rw [Conjunction.signs, Conjunction.nesting]
  exact depthThrough_both (Comparison.depthThrough_signs first h)
    (depthThrough_conjoinedSigns rest h)

theorem depthThrough_conjoinedSigns (rest : List Comparison) {depth : Nat}
    (h : depth ≤ maxBrackets) :
    depthThrough depth (conjoinedSigns rest) = within depth (conjoinedNesting rest) := by
  match rest with
  | [] => rw [conjoinedSigns, conjoinedNesting, within_zero h, depthThrough_nil]
  | c :: rest =>
    rw [conjoinedSigns, depthThrough_cons (by simp), conjoinedNesting]
    exact depthThrough_both (Comparison.depthThrough_signs c h) (depthThrough_conjoinedSigns rest h)

theorem Disjunction.depthThrough_signs (d : Disjunction) {depth : Nat} (h : depth ≤ maxBrackets) :
    depthThrough depth d.signs = within depth d.nesting := by
  obtain ⟨first, rest⟩ := d
  rw [Disjunction.signs, Disjunction.nesting]
  exact depthThrough_both (Conjunction.depthThrough_signs first h)
    (depthThrough_disjoinedSigns rest h)

theorem depthThrough_disjoinedSigns (rest : List Conjunction) {depth : Nat}
    (h : depth ≤ maxBrackets) :
    depthThrough depth (disjoinedSigns rest) = within depth (disjoinedNesting rest) := by
  match rest with
  | [] => rw [disjoinedSigns, disjoinedNesting, within_zero h, depthThrough_nil]
  | c :: rest =>
    rw [disjoinedSigns, depthThrough_cons (by simp), disjoinedNesting]
    exact depthThrough_both (Conjunction.depthThrough_signs c h)
      (depthThrough_disjoinedSigns rest h)

end

theorem unifyLines_of_isSafe {cs : List Char} (h : cs.all isSafe = true) : unifyLines cs = cs := by
  induction cs with
  | nil => rfl
  | cons c cs ih =>
    simp only [List.all_cons, Bool.and_eq_true] at h
    have hreturn : c ≠ '\r' := isSafe_ne (by simp [foreign]) h.1
    rw [unifyLines, ih h.2]
    all_goals simp_all

theorem tokens?_of_spells {signs : List Sign} {cs : List Char} (h : Spells respelled signs cs)
    (hstart : cs.head?.all (!isGap ·) = true) :
    tokens? cs = (depthThrough 0 signs).bind fun d => if d = 0 then some (signs.map Sign.token)
      else none := by
  have hsafe := h.all isSafe_of_isGap all_isSafe_respelled
  have hnull : Char.ofNat 0 ∉ cs := not_mem_of_isSafe hsafe (by simp [foreign])
  rw [tokens?, if_neg (by simpa using hnull), unifyLines_of_isSafe hsafe]
  exact scan_signs h (Nat.lt_succ_self _) (.inr ⟨rfl, hstart⟩)

/-- The tokens of a condition are those of its signs, unless its parentheses nest too deeply. -/
theorem Disjunction.tokens?_of_spells (d : Disjunction) {cs : List Char}
    (h : Spells respelled d.signs cs) (hstart : cs.head?.all (!isGap ·) = true) :
    tokens? cs = if d.nesting ≤ maxBrackets then some (d.signs.map Sign.token) else none := by
  rw [Condition.tokens?_of_spells h hstart, d.depthThrough_signs (Nat.zero_le _), within,
    Nat.zero_add]
  split <;> rfl

theorem mem_of_afterArrow? {cs rest : List Char} (h : afterArrow? cs = some rest) : '>' ∈ cs := by
  unfold afterArrow? at h
  split at h
  · rename_i hdrop
    have hblanks : cs.dropWhile Text.isBlank ⊆ cs := (List.dropWhile_sublist _).subset
    rw [hdrop] at hblanks
    exact hblanks (by simp)
  · cases h

theorem mem_of_header? {cs : List Char} {found : List String × List Char}
    (h : header? cs = some found) :
    '>' ∈ cs := by
  have hblanks : cs.dropWhile Text.isBlank ⊆ cs := (List.dropWhile_sublist _).subset
  unfold header? at h
  split at h
  · rename_i rest hrest
    rw [hrest] at hblanks
    simp only [parenthesized?] at h
    split at h
    · rename_i after hafter
      split at h
      · obtain ⟨body, hbody, -⟩ := Option.map_eq_some_iff.mp h
        have hinner : '>' ∈ rest.dropWhile Text.isBlank :=
          List.mem_of_mem_drop (hafter ▸ List.mem_cons_of_mem _ (mem_of_afterArrow? hbody))
        exact hblanks (List.mem_cons_of_mem _ ((List.dropWhile_sublist _).subset hinner))
      · cases h
    · cases h
  · simp only [single?] at h
    split at h
    · obtain ⟨body, hbody, -⟩ := Option.map_eq_some_iff.mp h
      exact hblanks (List.mem_of_mem_drop (mem_of_afterArrow? hbody))
    · cases h

theorem splitArrow_of_isSafe {source : String} (h : source.toList.all isSafe = true) :
    splitArrow source = ⟨defaultParams, Text.strip source⟩ := by
  have hnone : header? source.toList = none := by
    cases hheader : header? source.toList with
    | none => rfl
    | some found => exact absurd (mem_of_header? hheader) (not_mem_of_isSafe h (by simp [foreign]))
  rw [splitArrow, hnone]

theorem unencodable?_of_isSafe {s : String} (h : s.toList.all isSafe = true) :
    Text.unencodable? s = none := by
  have hnil : s.toList.dropWhile (fun c => !Text.isHalf c || false) = [] := by
    refine List.dropWhile_eq_nil_iff.mpr fun c hc => ?_
    have hsafe := List.all_eq_true.mp h c hc
    simp only [isSafe, Bool.and_eq_true] at hsafe
    simpa using hsafe.2
  simp only [Text.unencodable?, Text.unencodableChars?, hnil]

theorem Spells.ne_nil {spelling : Spelling} (hsolid : spelling.IsSolid) {signs : List Sign}
    {cs : List Char} (hne : signs ≠ []) (h : Spells spelling signs cs) : cs ≠ [] := by
  cases h with
  | done => exact absurd rfl hne
  | sign => simp [(hsolid _).1]

/-- A text of signs is compiled from a text of the same signs in their other spelling. -/
theorem compile_of_spells {signs : List Sign} (hne : signs ≠ []) {source : String}
    (h : Spells scripted signs source.toList) :
    ∃ text : String, Spells respelled signs text.toList ∧ text.toList.head?.all (!isGap ·) = true ∧
      (parse? text = none → compile source =
        .error (.expression ("Invalid expression " ++ Text.quoted (Text.strip source) ++
          ": invalid syntax"))) ∧
      ∀ e, parse? text = some e → violation? e = none →
        compile source = .ok ⟨defaultParams, e⟩ := by
  obtain ⟨hbody, -⟩ := h.strip scripted_isSolid
  rw [String.ofList_toList] at hbody
  obtain ⟨htext, hstart⟩ := hbody.respell.strip respelled_isSolid
  have hfull : (Text.strip source).isEmpty = false := by
    have hchars := hbody.ne_nil scripted_isSolid hne
    simpa using hchars
  have hencoded := unencodable?_of_isSafe (htext.all isSafe_of_isGap all_isSafe_respelled)
  have hsplit := splitArrow_of_isSafe (h.all isSafe_of_isGap all_isSafe_scripted)
  refine ⟨_, htext, hstart, fun hparse => ?_, fun e hparse hclean => ?_⟩
  · simp only [compile, hsplit, hfull, respell, hencoded, hparse, Bool.false_eq_true, if_false]
  · simp only [compile, hsplit, hfull, respell, hencoded, hparse, hclean, Bool.false_eq_true,
      if_false]

end EffectTree.Condition
