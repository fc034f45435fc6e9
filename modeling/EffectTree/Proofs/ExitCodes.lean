import EffectTree.Proofs.CellKeys
import EffectTree.Proofs.Containment
import EffectTree.Proofs.IntegerTexts

/-!
# Exit codes

Every value has an exit code but some texts. That a text is an integer is found out from what is
left of it without the blanks and minus signs in front, and then all of it is read. Where reading is
stricter the exit is a fault, which programs recover from; every other exit leaves the program.
-/
namespace EffectTree.Evaluation

open Number Text

def margins (s : String) : List Char :=
  s.toList.takeWhile isBlank ++ (s.toList.dropWhile isBlank).reverse.takeWhile isBlank

/-- The minus signs that a text begins with, blanks apart. -/
def signsOf (s : String) : List Char := (strip s).toList.takeWhile (· = '-')

def digitsOf (s : String) : List Char := (strip s).toList.dropWhile (· = '-')

/-- A text that looks whole and cannot be read: with more than one sign, a digit that has no decimal
value, or a blank that may not stand around a number. -/
def Misread (s : String) : Prop :=
  looksWhole s = true ∧ (2 ≤ (signsOf s).length ∨ (∃ c ∈ digitsOf s, decimalDigit? c = none) ∨
    ∃ c ∈ margins s, isSeparator c = true)

/-- The integer that signs and digits spell. -/
def wholeValue (s : String) : Int :=
  if signsOf s = [] then decimalValue (digitsOf s) else -decimalValue (digitsOf s)

variable {s : String}

theorem looksWhole_iff :
    looksWhole s = true ↔ digitsOf s ≠ [] ∧ ∀ c ∈ digitsOf s, isDigit c = true := by
  simp [looksWhole, digitsOf]

theorem toList_strip : (strip s).toList = signsOf s ++ digitsOf s :=
  List.takeWhile_append_dropWhile.symm

theorem eq_minus_of_mem_signsOf {c : Char} (hc : c ∈ signsOf s) : c = '-' := by
  simpa using List.mem_takeWhile_imp hc

theorem dropWhile_isPadding {cs : List Char}
    (h : ∀ c ∈ cs.takeWhile isBlank, isSeparator c = false) :
    cs.dropWhile isPadding = cs.dropWhile isBlank := by
  induction cs with
  | nil => rfl
  | cons c cs ih =>
    cases hc : isBlank c with
    | true =>
      rw [List.takeWhile_cons_of_pos hc, List.forall_mem_cons] at h
      have hpadding : isPadding c = true := by simp [isPadding, hc, h.1]
      rw [List.dropWhile_cons_of_pos hpadding, List.dropWhile_cons_of_pos hc]
      exact ih h.2
    | false =>
      have hpadding : isPadding c = false := by simp [isPadding, hc]
      rw [List.dropWhile_cons_of_neg (by simp [hpadding]),
        List.dropWhile_cons_of_neg (by simp [hc])]

/-- Where all blanks around are padding, the same is cut off for looking and for reading. -/
theorem trimPadding_eq_strip (h : ∀ c ∈ margins s, isSeparator c = false) :
    trimPadding s.toList = (strip s).toList := by
  rw [margins, List.forall_mem_append] at h
  rw [trimPadding, dropWhile_isPadding h.1, dropWhile_isPadding h.2, strip, String.toList_ofList]
  rfl

theorem mem_toList_of_mem_margins {c : Char} (hc : c ∈ margins s) : c ∈ s.toList := by
  rcases List.mem_append.mp hc with hc | hc
  · exact List.takeWhile_subset _ hc
  · exact (List.dropWhile_sublist _).subset (List.mem_reverse.mp (List.takeWhile_subset _ hc))

theorem decimalDigit?_of_isSeparator {c : Char} (h : isSeparator c = true) :
    decimalDigit? c = none := by
  rw [isSeparator, Bool.and_eq_true, decide_eq_true_eq, decide_eq_true_eq] at h
  have hdigit : c.isDigit = false := by
    refine Bool.eq_false_of_not_eq_true fun hdigit => ?_
    have hle := (toNat_of_isDigit hdigit).1
    omega
  rw [decimalDigit?, if_neg (by simp [hdigit]), if_pos (by omega)]

theorem readInt?_of_separator {c : Char} (hc : c ∈ margins s) (h : isSeparator c = true) :
    readInt? 10 s = none := by
  refine Option.eq_none_iff_forall_ne_some.mpr fun i hi => ?_
  have hpadding : isPadding c = false := by simp [isPadding, h]
  rcases mem_of_readInt? hi (mem_trimPadding (mem_toList_of_mem_margins hc) hpadding) with
    hsign | hdigit
  · simp only [List.mem_cons, List.not_mem_nil, or_false] at hsign
    rcases hsign with rfl | rfl | rfl <;> cases h
  · rw [decimalDigit?_of_isSeparator h] at hdigit
    cases hdigit

theorem Misread.readInt? (h : Misread s) : readInt? 10 s = none := by
  by_cases hmargins : ∃ c ∈ margins s, isSeparator c = true
  · obtain ⟨c, hc, hseparator⟩ := hmargins
    exact readInt?_of_separator hc hseparator
  · have htrim : trimPadding s.toList = signsOf s ++ digitsOf s := by
      rw [trimPadding_eq_strip (by simpa using hmargins), toList_strip]
    obtain ⟨hwhole, hsigns | ⟨c, hc, hdigit⟩ | hseparator⟩ := h
    · match hlist : signsOf s, hsigns with
      | a :: b :: rest, _ =>
        have ha : a = '-' := eq_minus_of_mem_signsOf (s := s) (by simp [hlist])
        have hb : b = '-' := eq_minus_of_mem_signsOf (s := s) (by simp [hlist])
        rw [hlist, ha, hb] at htrim
        exact readInt?_two_signs htrim
    · refine Option.eq_none_iff_forall_ne_some.mpr fun i hi => ?_
      have hmem : c ∈ trimPadding s.toList := htrim ▸ List.mem_append_right _ hc
      have hc' := (looksWhole_iff.mp hwhole).2 c hc
      rcases mem_of_readInt? hi hmem with hsign | hsome
      · simp only [List.mem_cons, List.not_mem_nil, or_false] at hsign
        rcases hsign with rfl | rfl | rfl <;> cases hc'
      · rw [hdigit] at hsome
        cases hsome
    · exact absurd hseparator hmargins

theorem readInt?_of_not_misread (hwhole : looksWhole s = true) (h : ¬ Misread s) :
    Number.readInt? 10 s = some (wholeValue s) := by
  obtain ⟨hsigns, hdigits, hmargins⟩ : (signsOf s).length < 2 ∧
    (∀ c ∈ digitsOf s, (decimalDigit? c).isSome = true) ∧
      ∀ c ∈ margins s, isSeparator c = false := by
    simpa [Misread, hwhole, Option.ne_none_iff_isSome] using h
  have hne := (looksWhole_iff.mp hwhole).1
  have htrim : trimPadding s.toList = signsOf s ++ digitsOf s := by
    rw [trimPadding_eq_strip hmargins, toList_strip]
  match hlist : signsOf s, hsigns with
  | [], _ =>
    rw [hlist, List.nil_append] at htrim
    rw [wholeValue, if_pos hlist]
    exact readInt?_digits hdigits hne htrim
  | [a], _ =>
    have ha : a = '-' := eq_minus_of_mem_signsOf (s := s) (by simp [hlist])
    rw [hlist, ha, List.singleton_append] at htrim
    rw [wholeValue, if_neg (by simp [hlist])]
    exact readInt?_minus hdigits hne htrim

theorem exitCode_of_misread (h : Misread s) (mark : Mark) :
    exitCode (.str s mark) = .error (.notInteger 10 (quoted s)) := by
  simp [exitCode, h.1, h.readInt?]

theorem exitCode_of_not_misread (h : ¬ Misread s) (mark : Mark) :
    exitCode (.str s mark) = .ok (if looksWhole s then wholeValue s else 1) := by
  cases hwhole : looksWhole s with
  | false => simp [exitCode, hwhole]
  | true => simp [exitCode, hwhole, readInt?_of_not_misread hwhole h]

theorem exitCode_isOk_iff (v : Value) :
    (∃ code, exitCode v = .ok code) ↔ ∀ text mark, v = .str text mark → ¬ Misread text := by
  cases v with
  | str text mark =>
    constructor
    · rintro ⟨code, hcode⟩ text' mark' heq hmisread
      cases heq
      rw [exitCode_of_misread hmisread] at hcode
      cases hcode
    · intro h
      exact ⟨_, exitCode_of_not_misread (h text mark rfl) mark⟩
  | _ =>
    refine ⟨fun _ text mark heq => ?_, fun _ => ⟨_, rfl⟩⟩
    cases heq

open Machine

def exitStop (v : Value) : Stop :=
  match exitCode v with
  | .ok code => .exit code
  | .error e => .fault e

theorem runLeaf_exit {args : List Descriptor} {w : World} {v : Value}
    (h : literalOf args[0]? w = .ok v w) :
    runLeaf .exit args w = .error (exitStop v) w := by
  simp only [runLeaf]
  rw [bind_of_ok h, exitStop]
  cases exitCode v <;> rfl

variable {node : Descriptor} {w : World} {t : State} {args : List Descriptor} {v : Value}

/-- Performing an exit raises it, or the fault of its argument, and changes nothing else. -/
theorem State.PerformsLeaf.exit_step (h : t.PerformsLeaf .exit args)
    (hv : literalOf args[0]? t.world = .ok v t.world) :
    t.step = some { t with focus := .stop (exitStop v) } := by
  have hstop : finishing (runLeaf .exit args) t.world = .error (exitStop v) t.world :=
    bind_of_error (runLeaf_exit hv)
  rw [h.step, hstop]
  rfl

theorem exitStop_of_ok {code : Int} (h : exitCode v = .ok code) : exitStop v = .exit code := by
  rw [exitStop, h]

theorem exitStop_of_error {e : Fault} (h : exitCode v = .error e) : exitStop v = .fault e := by
  rw [exitStop, h]

/-- What becomes of an exit whose argument has a value. -/
structure Departure (node : Descriptor) (w : World) (s : State) (v : Value) : Prop where
  /-- There is a code unless the value is a text that is misread. -/
  code_iff : (∃ code, exitCode v = .ok code) ↔ ∀ text mark, v = .str text mark → ¬ Misread text
  raises : s.step = some { s with focus := .stop (exitStop v) }
  /-- An exit comes out of every frame, and the run ends with it. -/
  leaves : ∀ code, exitCode v = .ok code → (run node w).1 = .exited code ∧
    ∀ frames, frames <:+ s.frames → ∃ w', s.Reaches ⟨.stop (.exit code), frames, w'⟩
  /-- A text that is misread is an ordinary fault. -/
  faults : ∀ text mark, v = .str text mark → Misread text →
    exitStop v = .fault (.notInteger 10 (quoted text))
  /-- The innermost frame that recovers from faults recovers from this one. -/
  recovered : ∀ e inner continuation? outer, exitCode v = .error e →
    s.frames = inner ++ .rescue continuation? :: outer → (∀ frame ∈ inner, frame.recovers = false) →
      ∃ w', s.Reaches (.after outer (rescued continuation? e w'))

/-- An exit leaves the program unless its argument is a text that is misread. -/
theorem exit_leaves_unless_misread (hs : (State.start node w).Reaches t)
    (hexit : t.PerformsLeaf .exit args) (hv : literalOf args[0]? t.world = .ok v t.world) :
    Departure node w t v := by
  have hstep := hexit.exit_step hv
  refine
    { code_iff := exitCode_isOk_iff v
      raises := hstep
      leaves := fun code hcode => ?_
      faults := fun text mark htext hmisread =>
        exitStop_of_error (htext ▸ exitCode_of_misread hmisread mark)
      recovered := fun e inner continuation? outer he hframes hinner => ?_ }
  · rw [exitStop_of_ok hcode] at hstep
    have hleaving : State.Leaving (.exit code) t.world { t with focus := .stop (.exit code) } :=
      ⟨rfl, rfl⟩
    have hevaluation := hleaving.outcome trivial (State.reaches_ended (hs.tail hstep))
    refine ⟨by rw [run, hevaluation]; rfl, ?_⟩
    rintro frames ⟨inner, hinner⟩
    obtain ⟨w', hout⟩ : ∃ w',
        State.Reaches ⟨.stop (.exit code), inner ++ frames, t.world⟩
          ⟨.stop (.exit code), frames, w'⟩ :=
      exit_reaches frames t.world
    rw [hinner] at hout
    exact ⟨w', .head hstep hout⟩
  · rw [exitStop_of_error he] at hstep
    obtain ⟨w', hout⟩ := fault_recovered (s := { t with focus := .stop (.fault e) })
      rfl hframes hinner
    exact ⟨w', .head hstep hout⟩

/-- An exit with two signs, in a body that is recovered from. -/
def signedTwice : List Descriptor := [.effect (.ofStr "Exit") [.literal (.ofStr "--5")]]

def staying : Descriptor := .effect (.ofStr "Try") signedTwice

def exitAhead : State :=
  ⟨.perform (.effect (.ofStr "Exit") [.literal (.ofStr "--5")]) (.ofStr "Exit")
    [.literal (.ofStr "--5")],
    [.leave, .rescue none, .leave],
    (World.descended {} (.ofStr "Try") signedTwice).descended (.ofStr "Exit")
      [.literal (.ofStr "--5")]⟩

theorem start_reaches_exitAhead : (State.start staying {}).Reaches exitAhead :=
  .head rfl (.head rfl (.single rfl))

theorem exitAhead_departure : Departure staying {} exitAhead (.ofStr "--5") := by
  have hperforms : exitAhead.PerformsLeaf .exit [.literal (.ofStr "--5")] :=
    ⟨by decide, _, _, rfl, rfl⟩
  exact exit_leaves_unless_misread start_reaches_exitAhead hperforms rfl

/-- Not every value has an exit code, and an exit can be recovered from. -/
theorem exit_recovered : exitCode (.ofStr "--5") = .error (.notInteger 10 (quoted "--5")) ∧
    (run staying {}).1 = .finished none :=
  ⟨rfl, rfl⟩

end EffectTree.Evaluation
