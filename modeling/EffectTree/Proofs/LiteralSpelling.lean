import Mathlib.Data.List.Infix
import EffectTree.Expression.Spelling

/-!
# Literals among operators

A source is code with literals in between. Respelling follows single quotes and takes no notice of
how many of them open a literal: three open, close and open again. That does no harm as long as no
quote of the same kind stands bare in the literal. Where one does, respelling takes what follows for
code.
-/
namespace EffectTree.Expression

/-- What stands for one character in a literal. -/
inductive Glyph where
  | plain (c : Char) (h : c ≠ '\\')
  | escaped (c : Char)
deriving DecidableEq

namespace Glyph

def chars : Glyph → List Char
  | plain c _ => [c]
  | escaped c => ['\\', c]

/-- A quote that no backslash takes with it. -/
def isBare (quote : Char) : Glyph → Bool
  | plain c _ => c = quote
  | escaped _ => false

end Glyph

theorem ne_backslash_of_isQuote {c : Char} (h : isQuote c = true) : c ≠ '\\' := by
  rintro rfl
  exact absurd h (by decide)

/-- A literal between single or between triple quotes. Line breaks make no difference to
respelling. -/
structure Literal where
  quote : Char
  isQuote : isQuote quote = true
  tripled : Bool
  glyphs : List Glyph
  /-- The quotes at the end are the first that close the literal. -/
  closed :
    let quotes := List.replicate (if tripled then 3 else 1)
      (Glyph.plain quote (ne_backslash_of_isQuote isQuote))
    ¬ quotes <:+: glyphs ++ quotes.tail

namespace Literal

def quotes (l : Literal) : List Char := List.replicate (if l.tripled then 3 else 1) l.quote

def body (l : Literal) : List Char := l.glyphs.flatMap Glyph.chars

def chars (l : Literal) : List Char := l.quotes ++ l.body ++ l.quotes

end Literal

/-- Code between literals. -/
structure Code where
  chars : List Char
  unquoted : ∀ c ∈ chars, isQuote c = false

/-- Code and literals in turn. -/
structure Source where
  first : Code
  rest : List (Literal × Code)

namespace Source

def chars (s : Source) : List Char :=
  s.first.chars ++ s.rest.flatMap fun (l, code) => l.chars ++ code.chars

def text (s : Source) : String := String.ofList s.chars

/-- The source with its code respelled and its literals as they are. -/
def respelled (s : Source) : String :=
  String.ofList (respellChars none s.first.chars ++
    s.rest.flatMap fun (l, code) => l.chars ++ respellChars none code.chars)

def ofLiteral (l : Literal) (code : Code) : Source := ⟨⟨[], nofun⟩, [(l, code)]⟩

end Source

/-- The quote that is open after a text. -/
def quoteAfter : Option Char → List Char → Option Char
  | quote, [] => quote
  | some quote, '\\' :: _ :: rest => quoteAfter (some quote) rest
  | some quote, c :: rest => quoteAfter (if c = quote then none else some quote) rest
  | none, c :: rest => quoteAfter (if isQuote c then some c else none) rest

theorem quoteAfter_code {cs : List Char} (h : ∀ c ∈ cs, isQuote c = false) :
    quoteAfter none cs = none := by
  induction cs with
  | nil => rfl
  | cons c cs ih => simpa [quoteAfter, h c] using ih fun d hd => h d (List.mem_cons_of_mem c hd)

/-- Nothing that belongs together lies on both sides of the boundary between two texts: the first
ends with a quote, or it is code and the second begins with one. -/
def Apart (quote : Option Char) (cs ds : List Char) : Prop :=
  cs.getLast?.all isQuote = true ∨
    quote = none ∧ (∀ c ∈ cs, isQuote c = false) ∧ ds.head?.all isQuote = true

namespace Apart

variable {quote quote' : Option Char} {cs ds : List Char}

theorem drop (before : List Char) (h : Apart quote (before ++ cs) ds)
    (hquote : quote = none → (∀ c ∈ before, isQuote c = false) → quote' = none) :
    Apart quote' cs ds := by
  rcases h with hlast | ⟨hnone, hcode, hhead⟩
  · rcases List.eq_nil_or_concat cs with rfl | ⟨cs, c, rfl⟩
    · exact .inl rfl
    · exact .inl (by simpa [← List.append_assoc] using hlast)
  · exact .inr ⟨hquote hnone fun c hc => hcode c (List.mem_append_left _ hc),
      fun c hc => hcode c (List.mem_append_right _ hc), hhead⟩

/-- No sign begins in the first text and ends in the second. -/
theorem not_across {c : Char} (h : Apart quote (c :: cs) ds) (d : Char) (sign : List Char)
    (hsign : (d :: sign).any isQuote = false) (hnot : ∀ rest, c = d → cs = sign ++ rest → False)
    (rest : List Char) (hc : c = d) (heq : cs ++ ds = sign ++ rest) : False := by
  have hsigns := List.any_eq_false.mp hsign
  rcases List.append_eq_append_iff.mp heq with ⟨extra, rfl, rfl⟩ | ⟨rest', hrest, -⟩
  · cases extra with
    | nil => exact hnot [] hc (by simp)
    | cons e extra =>
      rcases h with hlast | ⟨-, -, hhead⟩
      · obtain ⟨last, hmem, hlast⟩ : ∃ last ∈ c :: cs, isQuote last = true :=
          ⟨(c :: cs).getLast nofun, List.getLast_mem _,
            by simpa [List.getLast?_eq_some_getLast] using hlast⟩
        have hsame := hsigns last
          (by subst hc; simp only [List.mem_cons, List.mem_append] at hmem ⊢; tauto)
        exact hsame hlast
      · exact hsigns e (by simp) (by simpa using hhead)
  · exact hnot rest' hc hrest

end Apart

theorem respellChars_append_of_apart {quote : Option Char} {cs ds : List Char}
    (h : Apart quote cs ds) :
    respellChars quote (cs ++ ds) =
      respellChars quote cs ++ respellChars (quoteAfter quote cs) ds := by
  -- By the cases of the respelling: what it does at the end of the first text must not see into the
  -- second.
  fun_induction respellChars quote cs with
  | case1 quote => rfl
  | case2 quote c rest ih => exact congrArg ('\\' :: c :: ·) (ih (h.drop ['\\', c] nofun))
  | case3 quote c rest hnot ih =>
    rw [quoteAfter.eq_3 _ _ _ hnot, List.cons_append, List.cons_append, ← ih (h.drop [c] nofun),
      respellChars]
    rintro d ds' rfl hd
    cases rest with
    | nil => rcases h with hlast | ⟨hnone, -⟩ <;> contradiction
    | cons e rest => exact hnot e rest rfl rfl
  | case4 rest ih => exact congrArg ('=' :: '=' :: ·) (ih (h.drop ['=', '=', '='] fun _ _ => rfl))
  | case5 rest ih => exact congrArg ('!' :: '=' :: ·) (ih (h.drop ['!', '=', '='] fun _ _ => rfl))
  | case6 rest hnot ih =>
    rw [List.cons_append, List.cons_append, respellChars]
    · exact congrArg ('!' :: '=' :: ·) (ih (h.drop ['!', '='] fun _ _ => rfl))
    · have hrest : Apart none ('=' :: rest) ds := h.drop ['!'] fun _ _ => rfl
      exact fun rest' => hrest.not_across '=' ['='] rfl (fun rest' _ => hnot rest') rest' rfl
  | case7 rest hnot hnot' ih =>
    rw [List.cons_append, respellChars]
    · exact congrArg (" not ".toList ++ ·) (ih (h.drop ['!'] fun _ _ => rfl))
    · exact fun rest' => h.not_across '!' ['=', '='] rfl (fun rest' _ => hnot rest') rest' rfl
    · exact fun rest' => h.not_across '!' ['='] rfl (fun rest' _ => hnot' rest') rest' rfl
  | case8 rest ih => exact congrArg (" and ".toList ++ ·) (ih (h.drop ['&', '&'] fun _ _ => rfl))
  | case9 rest ih => exact congrArg (" or ".toList ++ ·) (ih (h.drop ['|', '|'] fun _ _ => rfl))
  | case10 c rest hequal hunequal hloose hbang hboth heither ih =>
    rw [quoteAfter, List.cons_append, List.cons_append,
      ← ih (h.drop [c] fun _ hc => if_neg (by simp [hc c])),
      respellChars]
    · exact h.not_across '=' ['=', '='] rfl hequal
    · exact h.not_across '!' ['=', '='] rfl hunequal
    · exact h.not_across '!' ['='] rfl hloose
    · exact hbang
    · exact h.not_across '&' ['&'] rfl hboth
    · exact h.not_across '|' ['|'] rfl heither

section
variable {quote : Char} (hquote : isQuote quote = true) (cs : List Char)
include hquote

theorem respellChars_open :
    respellChars none (quote :: cs) = quote :: respellChars (some quote) cs := by
  simp only [isQuote, Bool.or_eq_true, decide_eq_true_eq] at hquote
  rcases hquote with rfl | rfl <;> rfl

theorem respellChars_close :
    respellChars (some quote) (quote :: cs) = quote :: respellChars none cs := by
  rw [respellChars, if_pos rfl]
  exact fun _ _ h => absurd h (ne_backslash_of_isQuote hquote)

theorem quoteAfter_open : quoteAfter none (quote :: cs) = quoteAfter (some quote) cs := by
  rw [quoteAfter, if_pos hquote]

theorem quoteAfter_close : quoteAfter (some quote) (quote :: cs) = quoteAfter none cs := by
  rw [quoteAfter, if_pos rfl]
  exact fun _ _ h => absurd h (ne_backslash_of_isQuote hquote)

end

/-- Up to its first bare quote a literal stays as it is. -/
theorem respellChars_glyphs {quote : Char} {glyphs : List Glyph}
    (h : ∀ g ∈ glyphs, g.isBare quote = false) (cs : List Char) :
    respellChars (some quote) (glyphs.flatMap Glyph.chars ++ cs) =
      glyphs.flatMap Glyph.chars ++ respellChars (some quote) cs := by
  induction glyphs with
  | nil => rfl
  | cons g glyphs ih =>
    obtain ⟨hg, hglyphs⟩ := List.forall_mem_cons.mp h
    rw [List.flatMap_cons, List.append_assoc, List.append_assoc, ← ih hglyphs]
    cases g with
    | plain c hc =>
      have hne : c ≠ quote := by simpa [Glyph.isBare] using hg
      simp [Glyph.chars, respellChars, hc, hne]
    | escaped c => rfl

theorem quoteAfter_glyphs {quote : Char} {glyphs : List Glyph}
    (h : ∀ g ∈ glyphs, g.isBare quote = false) (cs : List Char) :
    quoteAfter (some quote) (glyphs.flatMap Glyph.chars ++ cs) = quoteAfter (some quote) cs := by
  induction glyphs with
  | nil => rfl
  | cons g glyphs ih =>
    obtain ⟨hg, hglyphs⟩ := List.forall_mem_cons.mp h
    rw [List.flatMap_cons, List.append_assoc, ← ih hglyphs]
    cases g with
    | plain c hc =>
      have hne : c ≠ quote := by simpa [Glyph.isBare] using hg
      simp [Glyph.chars, quoteAfter, hc, hne]
    | escaped c => rfl

namespace Literal

/-- Respelling comes to the end of a literal with the literal as it was. -/
structure IsKept (l : Literal) : Prop where
  unchanged : respellChars none l.chars = l.chars
  closed : quoteAfter none l.chars = none

theorem isBare_eq_false (l : Literal) (h : l.tripled = false) :
    ∀ g ∈ l.glyphs, g.isBare l.quote = false := by
  have hclosed := l.closed
  simp only [h, Bool.false_eq_true, if_false, List.replicate_one, List.tail_cons, List.append_nil,
    List.singleton_infix_iff] at hclosed
  intro g hg
  cases g with
  | plain c hc =>
    have hne : c ≠ l.quote := by
      rintro rfl
      exact hclosed hg
    simpa [Glyph.isBare] using hne
  | escaped c => rfl

/-- A literal in which no quote of its own kind stands bare is kept. -/
theorem isKept_of_not_bare (l : Literal) (h : ∀ g ∈ l.glyphs, g.isBare l.quote = false) :
    l.IsKept := by
  have hopen := respellChars_open l.isQuote
  have hclose := respellChars_close l.isQuote
  have hopenAfter := quoteAfter_open l.isQuote
  have hcloseAfter := quoteAfter_close l.isQuote
  have hbody := respellChars_glyphs h
  have hbodyAfter := quoteAfter_glyphs h
  cases htripled : l.tripled with
  | false =>
    have hquotes : l.quotes = [l.quote] := by simp [quotes, htripled]
    constructor
    · simp [chars, body, hquotes, hopen, hbody, hclose, respellChars]
    · simp [chars, body, hquotes, hopenAfter, hbodyAfter, hcloseAfter, quoteAfter]
  | true =>
    have hquotes : l.quotes = [l.quote, l.quote, l.quote] := by simp [quotes, htripled]
    constructor
    · simp [chars, body, hquotes, hopen, hbody, hclose, respellChars]
    · simp [chars, body, hquotes, hopenAfter, hbodyAfter, hcloseAfter, quoteAfter]

theorem getLast?_chars (l : Literal) : l.chars.getLast? = some l.quote := by
  cases h : l.tripled <;> simp [chars, quotes, h, List.getLast?_cons, List.getLast?_append]

theorem head?_chars (l : Literal) : l.chars.head? = some l.quote := by
  cases h : l.tripled <;> simp [chars, quotes, h, List.replicate_succ]

theorem respellChars_append (l : Literal) (cs : List Char) :
    respellChars none (l.chars ++ cs) =
      respellChars none l.chars ++ respellChars (quoteAfter none l.chars) cs :=
  respellChars_append_of_apart (.inl (by rw [getLast?_chars]; exact l.isQuote))

/-- What follows the first bare quote of a literal between triple quotes is respelled like code. -/
theorem respellChars_of_bare (l : Literal) (htripled : l.tripled = true) {before after : List Glyph}
    {g : Glyph} (hglyphs : l.glyphs = before ++ g :: after)
    (hbefore : ∀ g ∈ before, g.isBare l.quote = false) (hg : g.isBare l.quote = true) :
    respellChars none l.chars = l.quotes ++ before.flatMap Glyph.chars ++
      l.quote :: respellChars none (after.flatMap Glyph.chars ++ l.quotes) := by
  have hquotes : l.quotes = [l.quote, l.quote, l.quote] := by simp [quotes, htripled]
  have hchars : g.chars = [l.quote] := by
    cases g with
    | plain c hc => simpa [Glyph.isBare, Glyph.chars] using hg
    | escaped c => cases hg
  simp [chars, body, hglyphs, hchars, hquotes, respellChars_open l.isQuote,
    respellChars_close l.isQuote,
    respellChars_glyphs hbefore]

end Literal

theorem respell_text (s : Source) (h : ∀ part ∈ s.rest, part.1.IsKept) :
    respell s.text = s.respelled := by
  obtain ⟨first, rest⟩ := s
  rw [respell, Source.text, String.toList_ofList, Source.respelled, Source.chars]
  congr 1
  dsimp only at h ⊢
  induction rest generalizing first with
  | nil => simp
  | cons part rest ih =>
    obtain ⟨l, code⟩ := part
    obtain ⟨hl, hrest⟩ := List.forall_mem_cons.mp h
    have hfirst : Apart none first.chars
        (l.chars ++ (code.chars ++ rest.flatMap fun (l, code) => l.chars ++ code.chars)) :=
      .inr ⟨rfl, first.unquoted, by rw [List.head?_append, l.head?_chars]; exact l.isQuote⟩
    rw [List.flatMap_cons, List.flatMap_cons, List.append_assoc l.chars,
      respellChars_append_of_apart hfirst,
      quoteAfter_code first.unquoted, l.respellChars_append, hl.unchanged, hl.closed, ih code hrest,
      List.append_assoc l.chars]

/-- A literal that spoils no code behind it is kept. -/
theorem Literal.isKept_of_respelled (l : Literal)
    (h : ∀ code, respell (Source.ofLiteral l code).text = (Source.ofLiteral l code).respelled) :
    l.IsKept := by
  have hsource (code : Code) :
      respellChars none l.chars ++ respellChars (quoteAfter none l.chars) code.chars =
        l.chars ++ respellChars none code.chars := by
    have hcode := String.ofList_injective (h code)
    simpa [Source.text, Source.ofLiteral, Source.chars, respellChars,
      l.respellChars_append] using hcode
  have hunchanged : respellChars none l.chars = l.chars := by
    simpa [respellChars] using hsource ⟨[], nofun⟩
  refine ⟨hunchanged, ?_⟩
  have hbang := hsource ⟨['!'], List.forall_mem_singleton.mpr rfl⟩
  rw [hunchanged, List.append_cancel_left_eq] at hbang
  cases hafter : quoteAfter none l.chars with
  | none => rfl
  | some quote =>
    rw [hafter] at hbang
    simp [respellChars] at hbang

/-- The sources with a literal are respelled part by part, whatever other kept literals they have,
exactly if the literal is kept. Literals between single quotes are kept, and so are those between
triple quotes without bare quotes of their own kind. What follows the first bare quote is respelled
like code. -/
theorem literals_respelled (l : Literal) :
    (l.IsKept ↔ ∀ s : Source, (∀ part ∈ s.rest, part.1 = l ∨ part.1.IsKept) →
      respell s.text = s.respelled) ∧
    ((l.tripled = true → ∀ g ∈ l.glyphs, g.isBare l.quote = false) → l.IsKept) ∧
    ∀ (before after : List Glyph) (g : Glyph), l.tripled = true → l.glyphs = before ++ g :: after →
      (∀ g ∈ before, g.isBare l.quote = false) → g.isBare l.quote = true →
        respellChars none l.chars = l.quotes ++ before.flatMap Glyph.chars ++
          l.quote :: respellChars none (after.flatMap Glyph.chars ++ l.quotes) := by
  refine ⟨⟨fun h s hs => respell_text s fun part hpart => ?_,
    fun h => l.isKept_of_respelled fun code => ?_⟩, fun h => ?_,
    fun _ _ _ htripled hglyphs hbefore hg => l.respellChars_of_bare htripled hglyphs hbefore hg⟩
  · exact (hs part hpart).elim (fun heq => heq ▸ h) id
  · exact h (.ofLiteral l code) fun part hpart =>
      .inl (congrArg Prod.fst (List.mem_singleton.mp hpart))
  · cases htripled : l.tripled with
    | false => exact l.isKept_of_not_bare (l.isBare_eq_false htripled)
    | true => exact l.isKept_of_not_bare (h htripled)

/-- A literal between triple quotes in which a quote of their kind stands bare. -/
def contraction : Literal where
  quote := Text.singleQuote
  isQuote := by decide
  tripled := true
  glyphs := [.plain 'a' (by decide), .plain Text.singleQuote (by decide), .plain 'b' (by decide),
    .plain ' ' (by decide), .plain '&' (by decide), .plain '&' (by decide), .plain ' ' (by decide),
    .plain 'c' (by decide)]
  closed := by decide

/-- What stands in a literal is respelled. -/
theorem contraction_respelled :
    let source := Source.ofLiteral contraction ⟨[], nofun⟩
    source.text = "'''a'b && c'''" ∧ respell source.text = "'''a'b  and  c'''" ∧
      respell source.text ≠ source.respelled := by
  decide +kernel

end EffectTree.Expression
