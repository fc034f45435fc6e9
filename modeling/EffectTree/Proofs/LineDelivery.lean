import Mathlib
import EffectTree.LineReader.Background

/-!
# Delivery of lines

Whatever a reader of a pipe has taken from it, and whichever calls have given up in between, the
octets that are left begin where the lines that calls have got end. So the calls get the lines of
all that is written, in their order. Only a call that gives up although a line is there loses one:
the line that the thread has come to by then.
-/
namespace EffectTree.Background

open LineReader

/-- The lines of octets with their ends; at the end of a pipe also what comes after the last of
them. -/
def linesOf (octets : List UInt8) (ended : Bool) : List (List UInt8) :=
  let pieces := octets.splitOn lineFeed
  let tail := pieces.getLastD []
  pieces.dropLast.map (· ++ [lineFeed]) ++ if ended = true ∧ tail ≠ [] then [tail] else []

def texts (lines : List (List UInt8)) : List String :=
  lines.map fun line => withoutEnd (Text.utf8DecodeLossy line)

/-- Octets that are nothing but complete lines. -/
def Terminated (octets : List UInt8) : Prop := octets = [] ∨ ∃ init, octets = init ++ [lineFeed]

section Lines

variable {octets line rest init done : List UInt8} {ended : Bool}

theorem linesOf_of_notMem (h : lineFeed ∉ octets) :
    linesOf octets ended = if ended = true ∧ octets ≠ [] then [octets] else [] := by
  simp [linesOf, List.splitOn_eq_singleton h]

@[simp] theorem linesOf_nil : linesOf [] ended = [] := by simp [linesOf_of_notMem]

theorem linesOf_append_terminated (h : Terminated done) :
    linesOf (done ++ rest) ended = linesOf done ended ++ linesOf rest ended := by
  rcases h with rfl | ⟨init, rfl⟩
  · simp
  · have hne := List.splitOn_ne_nil lineFeed rest
    have hsplit : (init ++ [lineFeed] ++ rest).splitOn lineFeed =
        init.splitOn lineFeed ++ rest.splitOn lineFeed := by
      rw [List.append_assoc, List.singleton_append, List.splitOn_append_cons_self]
    have hdone : (init ++ [lineFeed]).splitOn lineFeed = init.splitOn lineFeed ++ [[]] := by
      rw [List.splitOn_append_cons_self, List.splitOn_nil]
    have hlast : (init.splitOn lineFeed ++ rest.splitOn lineFeed).getLastD [] =
        (rest.splitOn lineFeed).getLastD [] := by
      rw [List.getLastD_eq_getLast?, List.getLastD_eq_getLast?,
        List.getLast?_append_of_ne_nil _ hne]
    simp only [linesOf]
    rw [hsplit, hdone, hlast, List.dropLast_append_of_ne_nil hne]
    simp

theorem linesOf_terminated (h : Terminated done) : linesOf done true = linesOf done false := by
  rcases h with rfl | ⟨init, rfl⟩
  · simp
  · simp [linesOf, List.splitOn_append_cons_self]

theorem linesOf_complete (h : lineFeed ∉ init) :
    linesOf (init ++ [lineFeed]) ended = [init ++ [lineFeed]] := by
  simp [linesOf, List.splitOn_append_cons_self, List.splitOn_eq_singleton h]

theorem splitLine?_complete (h : lineFeed ∉ init) :
    splitLine? (init ++ lineFeed :: rest) = some (init ++ [lineFeed], rest) := by
  induction init with
  | nil => simp [splitLine?]
  | cons b init ih =>
    simp only [List.mem_cons, not_or] at h
    simp [splitLine?, Ne.symm h.1, ih h.2]

theorem splitLine?_eq_none : splitLine? octets = none ↔ lineFeed ∉ octets := by
  induction octets with
  | nil => simp [splitLine?]
  | cons b octets ih =>
    rw [splitLine?, List.mem_cons, not_or, ← ih]
    split
    · simp_all
    · simp_all [eq_comm]

theorem splitLine?_eq_some (h : splitLine? octets = some (line, rest)) :
    ∃ init, lineFeed ∉ init ∧ line = init ++ [lineFeed] ∧ octets = line ++ rest := by
  induction octets generalizing line with
  | nil => cases h
  | cons b octets ih =>
    rw [splitLine?] at h
    split at h
    · next hb =>
      cases h
      exact ⟨[], by simp, by simp [hb], rfl⟩
    · next hb =>
      obtain ⟨⟨line', rest'⟩, hsplit, heq⟩ := Option.map_eq_some_iff.mp h
      cases heq
      obtain ⟨init, hinit, rfl, rfl⟩ := ih hsplit
      exact ⟨b :: init, by simp [hinit, Ne.symm hb], rfl, rfl⟩

/-- A line is the first of what is left: a complete one, or all of it at the end of the pipe. -/
inductive IsNext (line rest : List UInt8) (ended : Bool) : Prop
  | complete {init : List UInt8} (h : lineFeed ∉ init) (hline : line = init ++ [lineFeed])
  | tail (hended : ended = true) (hrest : rest = []) (h : lineFeed ∉ line)

theorem IsNext.linesOf_eq (h : IsNext line rest ended) (hline : line ≠ []) :
    linesOf line ended = [line] := by
  cases h with
  | complete h hline =>
    subst hline
    exact linesOf_complete h
  | tail hended _ h => simp [linesOf_of_notMem h, hended, hline]

theorem IsNext.linesOf_append (h : IsNext line rest ended) (hline : line ≠ []) :
    linesOf (line ++ rest) ended = line :: linesOf rest ended := by
  have hsingle := h.linesOf_eq hline
  cases h with
  | complete h hline =>
    rw [linesOf_append_terminated (.inr ⟨_, hline⟩), hsingle, List.singleton_append]
  | tail _ hrest _ => rw [hrest, List.append_nil, hsingle, linesOf_nil]

theorem IsNext.append (h : IsNext line rest false) (more : List UInt8) :
    IsNext line (rest ++ more) false := by
  cases h with
  | complete h hline => exact .complete h hline
  | tail hended _ _ => cases hended

theorem IsNext.finish (h : IsNext line rest false) : IsNext line rest true := by
  cases h with
  | complete h hline => exact .complete h hline
  | tail hended _ _ => cases hended

theorem IsNext.ended_of_nil (h : IsNext [] rest ended) : ended = true ∧ rest = [] := by
  cases h with
  | complete _ hline => simp at hline
  | tail hended hrest _ => exact ⟨hended, hrest⟩

end Lines

@[simp] def Event.octets : Event → List UInt8
  | received octets => octets
  | _ => []

@[simp] def Event.line? : Event → Option String
  | answered _ (.ok line) => some line
  | _ => none

@[simp] def Event.isFinished : Event → Bool
  | finished => true
  | _ => false

@[simp] def Event.isClosed : Event → Bool
  | closed => true
  | _ => false

abbrev Trace := List Event

namespace Trace

variable (t u : Trace) (e : Event)

def written : List UInt8 := t.flatMap Event.octets

def ended : Bool := t.any Event.isFinished

def closed : Bool := t.any Event.isClosed

def delivered : List String := t.filterMap Event.line?

def lines : List String := texts (linesOf t.written t.ended)

@[simp] theorem written_append : written (t ++ u) = t.written ++ u.written := by simp [written]

@[simp] theorem ended_append : ended (t ++ u) = (t.ended || u.ended) := by simp [ended]

@[simp] theorem closed_append : closed (t ++ u) = (t.closed || u.closed) := by simp [closed]

@[simp] theorem delivered_append : delivered (t ++ u) = t.delivered ++ u.delivered := by
  simp [delivered]

@[simp] theorem written_singleton : written [e] = e.octets := by simp [written]

@[simp] theorem ended_singleton : ended [e] = e.isFinished := by simp [ended]

@[simp] theorem closed_singleton : closed [e] = e.isClosed := by simp [closed]

@[simp] theorem delivered_singleton : delivered [e] = e.line?.toList := by
  rw [delivered, List.filterMap_cons, List.filterMap_nil]
  cases e.line? <;> rfl

end Trace

/-- A call does not time out while there is a line for it or the pipe has ended. -/
def Timely (t : Trace) : Event → Prop
  | .answered _ (.error (.inputTimeout _)) => t.ended = false ∧ t.delivered = t.lines
  | _ => True

def TimelyFrom (t : Trace) : Trace → Prop
  | [] => True
  | e :: rest => Timely t e ∧ TimelyFrom (t ++ [e]) rest

def AllTimely (t : Trace) : Prop := TimelyFrom [] t

theorem timelyFrom_append {t u v : Trace} :
    TimelyFrom t (u ++ v) ↔ TimelyFrom t u ∧ TimelyFrom (t ++ u) v := by
  induction u generalizing t with
  | nil => simp [TimelyFrom]
  | cons e u ih => simp [TimelyFrom, ih, and_assoc]

theorem allTimely_concat {t : Trace} {e : Event} :
    AllTimely (t ++ [e]) ↔ AllTimely t ∧ Timely t e := by
  simp [AllTimely, timelyFrom_append, TimelyFrom]

theorem AllTimely.of_concat {t : Trace} {e : Event} (h : AllTimely (t ++ [e])) : AllTimely t :=
  (allTimely_concat.mp h).1

inductive Step : Background → Action → Option Event → Background → Prop
  | write {s : Background} {octets : List UInt8} (h : s.ended = false) :
      Step s (.write octets) (some (.received octets)) { s with pipe := s.pipe ++ octets }
  | finish {s : Background} (h : s.ended = false) :
      Step s .finish (some .finished) { s with ended := true }
  | refuse {s : Background} {timeout : Value} (hcaller : s.caller? = none) (h : s.closed = true) :
      Step s (.call timeout) (some (.answered timeout (.error .endOfInput))) s
  | call {s : Background} {timeout : Value} (hcaller : s.caller? = none) (h : s.closed = false) :
      Step s (.call timeout) none
        { s with caller? := some (.waiting timeout), fetch? := some (s.fetch?.getD .reading) }
  | take {s : Background} {count : Nat} (hfetch : s.fetch? = some .reading)
      (hbuffer : lineFeed ∉ s.buffer)
      (hpos : 0 < count) (hchunk : count ≤ chunk) (hcount : count ≤ s.pipe.length) :
      Step s (.take count) none
        { s with buffer := s.buffer ++ s.pipe.take count, pipe := s.pipe.drop count }
  | settleLine {s : Background} {line rest : List UInt8} (hfetch : s.fetch? = some .reading)
      (hline : splitLine? s.buffer = some (line, rest)) :
      Step s .settle none { s with fetch? := some (.settled line), buffer := rest }
  | settleEnd {s : Background} (hfetch : s.fetch? = some .reading)
      (hline : splitLine? s.buffer = none)
      (hended : s.ended = true) (hpipe : s.pipe = []) :
      Step s .settle none { s with fetch? := some (.settled s.buffer), buffer := [] }
  | deliver {s : Background} {timeout : Value} {line : List UInt8}
      (hcaller : s.caller? = some (.waiting timeout))
      (hfetch : s.fetch? = some (.settled line)) :
      Step s .deliver (some (.answered timeout (answerOf line)))
        { s with caller? := none, fetch? := none }
  | expire {s : Background} {timeout : Value} (hcaller : s.caller? = some (.waiting timeout))
      (htimeout : timeout ≠ .null) :
        Step s .expire none { s with caller? := some (.leaving timeout) }
  | leave {s : Background} {timeout : Value} (hcaller : s.caller? = some (.leaving timeout)) :
      Step s .leave (some (.answered timeout (.error (.inputTimeout timeout))))
        { s with caller? := none, fetch? := s.fetch?.bind kept }
  | close {s : Background} (hcaller : s.caller? = none) :
      Step s .close (some .closed) { s with closed := true }

variable {s next last : Background} {a : Action} {event? : Option Event}

theorem Step.act_eq (h : Step s a event? next) : s.act a = some (event?, next) := by
  cases h with
  | @expire timeout hcaller htimeout => cases timeout <;> simp_all [act]
  | take hfetch hbuffer hpos hchunk hcount =>
    simp only [act, hfetch]
    rw [if_neg]
    simp only [List.contains_iff_mem, Bool.or_eq_true, decide_eq_true_eq, not_or]
    exact ⟨⟨⟨hbuffer, by omega⟩, by omega⟩, by omega⟩
  | _ => simp_all [act]

theorem step_of_act_eq (h : s.act a = some (event?, next)) : Step s a event? next := by
  cases a with
  | write octets =>
    simp only [act] at h
    split at h
    · cases h
    · cases h
      exact .write (by simpa using ‹¬ s.ended = true›)
  | finish =>
    simp only [act] at h
    split at h
    · cases h
    · cases h
      exact .finish (by simpa using ‹¬ s.ended = true›)
  | call timeout =>
    simp only [act] at h
    split at h
    · cases h
    · split at h
      · cases h
        exact .refuse ‹_› ‹_›
      · cases h
        exact .call ‹_› (by simpa using ‹¬ s.closed = true›)
  | take count =>
    simp only [act] at h
    split at h
    · split at h
      · cases h
      · next hfetch hguard =>
        cases h
        simp only [List.contains_iff_mem, Bool.or_eq_true, decide_eq_true_eq, not_or] at hguard
        exact .take hfetch hguard.1.1.1 (by omega) (by omega) (by omega)
    · cases h
  | settle =>
    simp only [act] at h
    split at h
    · split at h
      · cases h
        exact .settleLine ‹_› ‹_›
      · split at h
        · next hfetch _ hline hguard =>
          cases h
          simp only [Bool.and_eq_true, List.isEmpty_iff] at hguard
          exact .settleEnd hfetch hline hguard.1 hguard.2
        · cases h
    · cases h
  | deliver =>
    simp only [act] at h
    split at h
    · cases h
      exact .deliver ‹_› ‹_›
    · cases h
  | expire =>
    simp only [act] at h
    split at h
    · cases h
    · next hnull hcaller =>
      cases h
      exact .expire hcaller fun heq => hnull (heq ▸ rfl)
    · cases h
  | leave =>
    simp only [act] at h
    split at h
    · cases h
      exact .leave ‹_›
    · cases h
  | close =>
    simp only [act] at h
    split at h
    · cases h
    · cases h
      exact .close ‹_›

/-- The octets in a line that a thread has read. -/
def held : Option Fetch → List UInt8
  | some (.settled line) => line
  | _ => []

/-- The octets that are written and have not gone into an answer, wherever they are. -/
def undelivered (s : Background) : List UInt8 := held s.fetch? ++ (s.buffer ++ s.pipe)

/-- Only a call with a time limit has its time up. -/
def Caller.Limited : Caller → Prop
  | .waiting _ => True
  | .leaving timeout => timeout ≠ .null

/-- What holds of a reader at which something has happened. -/
structure Keeps (t : Trace) (s : Background) : Prop where
  ended : s.ended = t.ended
  closed : s.closed = t.closed
  /-- What is left begins where the delivered lines end, and those that have been dropped. -/
  delivered : ∃ done, t.written = done ++ s.undelivered ∧
    t.delivered.Sublist (texts (linesOf done s.ended)) ∧
    (AllTimely t → t.delivered = texts (linesOf done s.ended)) ∧
    (Terminated done ∨ s.ended = true ∧ s.undelivered = [])
  /-- What a thread has read is the first line of what is left. -/
  next : ∀ line, s.fetch? = some (.settled line) → IsNext line (s.buffer ++ s.pipe) s.ended
  waiting : ∀ caller, s.caller? = some caller → s.fetch?.isSome = true ∧ s.closed = false ∧
    caller.Limited

variable {t : Trace}

theorem Keeps.start : Keeps [] {} where
  ended := rfl
  closed := rfl
  delivered := ⟨[], rfl, by simp [Trace.delivered], by simp [Trace.delivered, texts],
    .inl (.inl rfl)⟩
  next _ h := by cases h
  waiting _ h := by cases h

theorem Keeps.left (h : Keeps t s) :
    ∃ earlier, t.delivered.Sublist earlier ∧ (AllTimely t → t.delivered = earlier) ∧
    t.lines = earlier ++ texts (linesOf s.undelivered s.ended) := by
  obtain ⟨done, hwritten, hsublist, hdelivered, hdone⟩ := h.delivered
  refine ⟨_, hsublist, hdelivered, ?_⟩
  rcases hdone with hdone | ⟨-, hnone⟩
  · rw [Trace.lines, ← h.ended, hwritten, linesOf_append_terminated hdone, texts, List.map_append]
    rfl
  · rw [Trace.lines, ← h.ended, hwritten, hnone]
    simp [texts]

theorem Keeps.lines (h : Keeps t s) (htimely : AllTimely t) :
    t.lines = t.delivered ++ texts (linesOf s.undelivered s.ended) := by
  obtain ⟨earlier, -, hdelivered, hlines⟩ := h.left
  rwa [hdelivered htimely]

theorem IsNext.of_splitLine {buffer line rest pipe : List UInt8} {ended : Bool}
    (h : splitLine? buffer = some (line, rest)) : IsNext line (rest ++ pipe) ended := by
  obtain ⟨init, hinit, hline, -⟩ := splitLine?_eq_some h
  exact .complete hinit hline

/-- What neither writes nor delivers keeps what it leaves in its place. -/
theorem Keeps.moved {u : Trace} (h : Keeps t s) (hwritten : u.written = t.written)
    (hdelivered : u.delivered = t.delivered) (htimely : AllTimely u → AllTimely t)
    (hended : u.ended = t.ended) (hended' : next.ended = s.ended) (hclosed : next.closed = u.closed)
    (hleft : next.undelivered = s.undelivered)
    (hnext : ∀ line, next.fetch? = some (.settled line) →
      IsNext line (next.buffer ++ next.pipe) next.ended)
    (hwaiting : ∀ caller, next.caller? = some caller →
      next.fetch?.isSome = true ∧ next.closed = false ∧ caller.Limited) :
    Keeps u next where
  ended := by rw [hended', h.ended, hended]
  closed := hclosed
  delivered := by
    obtain ⟨done, hdone, hsublist, hall, hterminated⟩ := h.delivered
    rw [hwritten, hdelivered, hended', hleft]
    exact ⟨done, hdone, hsublist, hall ∘ htimely, hterminated⟩
  next := hnext
  waiting := hwaiting

theorem Keeps.write (h : Keeps t s) (hended : s.ended = false) (octets : List UInt8) :
    Keeps (t ++ [.received octets]) { s with pipe := s.pipe ++ octets } where
  ended := by simp [h.ended]
  closed := by simp [h.closed]
  delivered := by
    obtain ⟨done, hwritten, hsublist, hdelivered, hdone⟩ := h.delivered
    exact ⟨done, by simp [hwritten, undelivered], by simpa using hsublist,
      fun htimely => by simpa using hdelivered htimely.of_concat,
        .inl (by simpa [hended] using hdone)⟩
  next line hline := by
    have hnext := h.next line hline
    rw [hended] at hnext ⊢
    rw [← List.append_assoc]
    exact hnext.append octets
  waiting := h.waiting

theorem Keeps.finish (h : Keeps t s) (hended : s.ended = false) :
    Keeps (t ++ [.finished]) { s with ended := true } where
  ended := by simp
  closed := by simp [h.closed]
  delivered := by
    obtain ⟨done, hwritten, hsublist, hdelivered, hdone⟩ := h.delivered
    have hterminated : Terminated done := by simpa [hended] using hdone
    rw [hended, ← linesOf_terminated hterminated] at hsublist hdelivered
    exact ⟨done, by simp [hwritten, undelivered], by simpa using hsublist,
      fun htimely => by simpa using hdelivered htimely.of_concat, .inl hterminated⟩
  next line hline := by
    have hnext := h.next line hline
    rw [hended] at hnext
    exact hnext.finish
  waiting := h.waiting

/-- A line that goes out of the reader ends what has gone out before. -/
theorem Keeps.settled {line : List UInt8} (h : Keeps t s) (hfetch : s.fetch? = some (.settled line))
    (hline : line ≠ []) :
    ∃ done, t.written = done ++ line ++ (s.buffer ++ s.pipe) ∧
      t.delivered.Sublist (texts (linesOf done s.ended)) ∧
      (AllTimely t → t.delivered = texts (linesOf done s.ended)) ∧
      linesOf (done ++ line) s.ended = linesOf done s.ended ++ [line] ∧
      (Terminated (done ++ line) ∨ s.ended = true ∧ s.buffer ++ s.pipe = []) := by
  have hnext := h.next line hfetch
  have hleft : s.undelivered = line ++ (s.buffer ++ s.pipe) := by rw [undelivered, hfetch, held]
  obtain ⟨done, hwritten, hsublist, hdelivered, hdone⟩ := h.delivered
  have hterminated : Terminated done := by
    rcases hdone with hdone | ⟨-, hnone⟩
    · exact hdone
    · simp [hleft, hline] at hnone
  refine ⟨done, by rw [hwritten, hleft, List.append_assoc], hsublist, hdelivered, ?_, ?_⟩
  · rw [linesOf_append_terminated hterminated, hnext.linesOf_eq hline]
  · cases hnext with
    | @complete init _ hinit => exact .inl (.inr ⟨done ++ init, by rw [hinit, List.append_assoc]⟩)
    | tail hended hrest _ => exact .inr ⟨hended, hrest⟩

/-- The end of the pipe, which takes nothing away. -/
theorem Keeps.pastEnd {timeout : Value} {cause : Fault} (h : Keeps t s)
    (hfetch : s.fetch? = some (.settled [])) :
    Keeps (t ++ [.answered timeout (.error cause)]) { s with caller? := none, fetch? := none } :=
  h.moved (by simp) (by simp) (fun htimely => htimely.of_concat) (by simp) rfl (by simp [h.closed])
    (by simp [undelivered, hfetch, held]) (by simp) (by simp)

/-- A call that times out although the thread has come to a line is late. -/
theorem Keeps.not_timely {line : List UInt8} (h : Keeps t s)
    (hfetch : s.fetch? = some (.settled line)) {timeout seconds : Value} :
    ¬ AllTimely (t ++ [.answered timeout (.error (.inputTimeout seconds))]) := by
  intro htimely
  obtain ⟨hbefore, hended, hdelivered⟩ := allTimely_concat.mp htimely
  have hnext := h.next line hfetch
  by_cases hline : line = []
  · have := (hline ▸ hnext).ended_of_nil.1
    rw [h.ended, hended] at this
    cases this
  · have hlines := h.lines hbefore
    rw [undelivered, hfetch, held, hnext.linesOf_append hline, hdelivered] at hlines
    simp [texts] at hlines

theorem Keeps.reading_of_timely {timeout seconds : Value} {caller : Caller} (h : Keeps t s)
    (hcaller : s.caller? = some caller)
    (htimely : AllTimely (t ++ [.answered timeout (.error (.inputTimeout seconds))])) :
    s.fetch? = some .reading := by
  obtain ⟨fetch, hfetch⟩ := Option.isSome_iff_exists.mp (h.waiting _ hcaller).1
  cases fetch with
  | reading => exact hfetch
  | settled line => exact absurd htimely (h.not_timely hfetch)

theorem Keeps.deliver {line : List UInt8} (h : Keeps t s) (hfetch : s.fetch? = some (.settled line))
    (timeout : Value) :
    Keeps (t ++ [.answered timeout (answerOf line)])
      { s with caller? := none, fetch? := none } := by
  by_cases hline : line = []
  · subst hline
    exact h.pastEnd hfetch
  · obtain ⟨done, hwritten, hsublist, hdelivered, hlines, hdone⟩ := h.settled hfetch hline
    refine ⟨by simp [h.ended], by simp [h.closed],
      ⟨done ++ line, by simpa [undelivered, held] using hwritten, ?_, ?_, hdone⟩, by simp, by simp⟩
    · rw [hlines, texts, List.map_append, ← texts]
      simpa [answerOf, hline] using hsublist
    · intro htimely
      rw [hlines, texts, List.map_append, ← texts, ← hdelivered htimely.of_concat]
      simp [answerOf, hline]

theorem Keeps.drop {line : List UInt8} (h : Keeps t s) (hfetch : s.fetch? = some (.settled line))
    (timeout : Value) :
    Keeps (t ++ [.answered timeout (.error (.inputTimeout timeout))])
      { s with caller? := none, fetch? := none } := by
  by_cases hline : line = []
  · subst hline
    exact h.pastEnd hfetch
  · obtain ⟨done, hwritten, hsublist, -, hlines, hdone⟩ := h.settled hfetch hline
    refine ⟨by simp [h.ended], by simp [h.closed],
      ⟨done ++ line, by simpa [undelivered, held] using hwritten, ?_, ?_, hdone⟩, by simp, by simp⟩
    · rw [hlines, texts, List.map_append, ← texts]
      simpa using hsublist.trans (List.sublist_append_left _ _)
    · intro htimely
      exact absurd htimely (h.not_timely hfetch)

theorem Keeps.take {count : Nat} (h : Keeps t s) (hfetch : s.fetch? = some .reading) :
    Keeps t { s with buffer := s.buffer ++ s.pipe.take count, pipe := s.pipe.drop count } :=
  h.moved rfl rfl id rfl rfl h.closed (by simp [undelivered])
    (fun line hline => by simp [hfetch] at hline) h.waiting

theorem Keeps.step (h : Keeps t s) (hstep : Step s a event? next) :
    Keeps (t ++ event?.toList) next := by
  cases hstep with
  | write hended => exact h.write hended _
  | finish hended => exact h.finish hended
  | refuse hcaller hclosed =>
    exact h.moved (by simp) (by simp) (fun htimely => htimely.of_concat)
      (by simp) rfl (by simp [h.closed]) rfl h.next
      h.waiting
  | @call timeout hcaller hclosed =>
    rw [Option.toList_none, List.append_nil]
    cases hfetch : s.fetch? with
    | none =>
      exact h.moved rfl rfl id rfl rfl h.closed (by simp [undelivered, hfetch, held]) (by simp)
        (by simp [hclosed, Caller.Limited])
    | some fetch =>
      exact h.moved rfl rfl id rfl rfl h.closed (by simp [undelivered, hfetch])
        (fun line hline => h.next line (hfetch.trans hline)) (by simp [hclosed, Caller.Limited])
  | take hfetch hbuffer hpos hchunk hcount =>
    rw [Option.toList_none, List.append_nil]
    exact h.take hfetch
  | @settleLine line rest hfetch hline =>
    rw [Option.toList_none, List.append_nil]
    obtain ⟨init, -, -, hbuffer⟩ := splitLine?_eq_some hline
    refine h.moved rfl rfl id rfl rfl h.closed (by simp [undelivered, hfetch, held, hbuffer])
      (fun line' hline' => ?_)
      (fun timeout htimeout => ⟨rfl, (h.waiting timeout htimeout).2⟩)
    cases hline'
    exact .of_splitLine hline
  | settleEnd hfetch hline hended hpipe =>
    rw [Option.toList_none, List.append_nil]
    refine h.moved rfl rfl id rfl rfl h.closed (by simp [undelivered, hfetch, held])
      (fun line' hline' => ?_)
      (fun timeout htimeout => ⟨rfl, (h.waiting timeout htimeout).2⟩)
    cases hline'
    exact .tail hended (by simpa using hpipe) (splitLine?_eq_none.mp hline)
  | deliver hcaller hfetch => exact h.deliver hfetch _
  | expire hcaller htimeout =>
    rw [Option.toList_none, List.append_nil]
    obtain ⟨hfetch, hclosed, -⟩ := h.waiting _ hcaller
    exact h.moved rfl rfl id rfl rfl h.closed rfl h.next
      (by simpa [hfetch, hclosed, Caller.Limited] using htimeout)
  | leave hcaller =>
    obtain ⟨fetch, hfetch⟩ := Option.isSome_iff_exists.mp (h.waiting _ hcaller).1
    rw [hfetch]
    cases fetch with
    | settled line => exact h.drop hfetch _
    | reading =>
      exact h.moved (by simp) (by simp) (fun htimely => htimely.of_concat)
        (by simp) rfl (by simp [h.closed])
        (by simp [undelivered, hfetch, kept]) (by simp [kept]) (by simp)
  | close hcaller =>
    exact h.moved (by simp) (by simp) (fun htimely => htimely.of_concat) (by simp) rfl (by simp)
      rfl h.next (by simp [hcaller])

theorem run_cons_eq_some {actions : List Action} {events : Trace} :
    s.run (a :: actions) = some (events, last) ↔
      ∃ event? next later, s.act a = some (event?, next) ∧ next.run actions = some (later, last) ∧
        events = event?.toList ++ later := by
  rw [run]
  cases hact : s.act a with
  | none => simp
  | some result =>
    obtain ⟨event?, next⟩ := result
    cases hrun : next.run actions with
    | none => simp [hrun]
    | some result => simp [hrun, Prod.ext_iff, eq_comm, and_comm]

theorem Keeps.run {actions : List Action} {events : Trace} (h : Keeps t s)
    (hrun : s.run actions = some (events, last)) :
    Keeps (t ++ events) last := by
  induction actions generalizing t s events with
  | nil =>
    cases hrun
    rwa [List.append_nil]
  | cons a actions ih =>
    obtain ⟨event?, next, later, hact, hlater, rfl⟩ := run_cons_eq_some.mp hrun
    rw [← List.append_assoc]
    exact ih (h.step (step_of_act_eq hact)) hlater

/-- The answer to a call when these lines are left. -/
def dueFrom (ended : Bool) (timeout : Value) : List String → Except Fault String
  | line :: _ => .ok line
  | [] => if ended then .error .endOfInput else .error (.inputTimeout timeout)

/-- The answer that is due to a call: the first line that is not delivered, or why there is none. -/
def due (t : Trace) (timeout : Value) : Except Fault String :=
  if t.closed then .error .endOfInput else dueFrom t.ended timeout (t.lines.drop t.delivered.length)

theorem due_eq {left : List String} (h : t.lines = t.delivered ++ left) (hclosed : t.closed = false)
    (timeout : Value) :
    due t timeout = dueFrom t.ended timeout left := by
  rw [due, h, List.drop_left, hclosed]
  rfl

theorem due_eq_endOfInput_iff {timeout : Value} (h : t.delivered <+: t.lines) :
    due t timeout = .error .endOfInput ↔
      t.closed = true ∨ t.ended = true ∧ t.delivered = t.lines := by
  obtain ⟨left, hleft⟩ := h
  cases hclosed : t.closed with
  | true => simp [due, hclosed]
  | false =>
    rw [due_eq hleft.symm hclosed, ← hleft]
    cases left <;> cases t.ended <;> simp [dueFrom]

theorem Keeps.answer {timeout : Value} {answer : Except Fault String} (h : Keeps t s)
    (hstep : Step s a (some (.answered timeout answer)) next)
    (htimely : AllTimely (t ++ [.answered timeout answer])) :
    answer = due t timeout := by
  obtain ⟨hbefore, hnow⟩ := allTimely_concat.mp htimely
  have hlines := h.lines hbefore
  cases hstep with
  | refuse hcaller hclosed => rw [due, ← h.closed, hclosed, if_pos rfl]
  | @deliver _ line hcaller hfetch =>
    have hnext := h.next line hfetch
    have hclosed : t.closed = false := h.closed ▸ (h.waiting _ hcaller).2.1
    have hleft : s.undelivered = line ++ (s.buffer ++ s.pipe) := by rw [undelivered, hfetch, held]
    by_cases hline : line = []
    · subst hline
      obtain ⟨hended, hrest⟩ := hnext.ended_of_nil
      rw [hleft, hrest, List.nil_append, linesOf_nil] at hlines
      rw [due_eq hlines hclosed, ← h.ended, hended]
      rfl
    · rw [hleft, hnext.linesOf_append hline] at hlines
      rw [due_eq hlines hclosed]
      simp [answerOf, hline, texts, dueFrom]
  | leave hcaller =>
    have hclosed : t.closed = false := h.closed ▸ (h.waiting _ hcaller).2.1
    obtain ⟨hended, hdelivered⟩ := hnow
    have hnone : t.lines = t.delivered ++ [] := by rw [List.append_nil, hdelivered]
    rw [due_eq hnone hclosed, hended]
    rfl

/-- The thread alone can bring about an answer to the call that waits. -/
def Answerable (s : Background) (timeout : Value) : Prop :=
  ∃ actions, (∀ a ∈ actions, a.isInternal = true) ∧
    ∃ answer next, s.run actions = some ([.answered timeout answer], next)

section Liveness

variable {timeout : Value}

theorem Answerable.of_settled {line : List UInt8} (hcaller : s.caller? = some (.waiting timeout))
    (hfetch : s.fetch? = some (.settled line)) : Answerable s timeout :=
  ⟨[.deliver], by simp [Action.isInternal], _, _,
    run_cons_eq_some.mpr ⟨_, _, _, (Step.deliver hcaller hfetch).act_eq, rfl, rfl⟩⟩

theorem Answerable.of_step (hstep : Step s a none next) (ha : a.isInternal = true)
    (h : Answerable next timeout) :
    Answerable s timeout := by
  obtain ⟨actions, hinternal, answer, last, hrun⟩ := h
  have hrun' : s.run (a :: actions) = some ([.answered timeout answer], last) :=
    run_cons_eq_some.mpr ⟨_, _, _, hstep.act_eq, hrun, rfl⟩
  exact ⟨a :: actions, by simpa [ha] using hinternal, answer, last, hrun'⟩

/-- A thread that goes on reading comes to a line or to the end of the pipe. -/
theorem Answerable.of_reading {s : Background} (hcaller : s.caller? = some (.waiting timeout))
    (hfetch : s.fetch? = some .reading)
    (havailable : lineFeed ∈ s.buffer ++ s.pipe ∨ s.ended = true) : Answerable s timeout := by
  induction hn : s.pipe.length using Nat.strong_induction_on generalizing s with
  | _ n ih =>
    cases hline : splitLine? s.buffer with
    | some parts => exact .of_step (.settleLine hfetch hline) rfl (.of_settled hcaller rfl)
    | none =>
      have hbuffer := splitLine?_eq_none.mp hline
      cases hpipe : s.pipe with
      | nil =>
        have hended : s.ended = true := by simpa [hpipe, hbuffer] using havailable
        exact .of_step (.settleEnd hfetch hline hended hpipe) rfl (.of_settled hcaller rfl)
      | cons b rest =>
        refine .of_step (a := .take 1)
          (.take hfetch hbuffer (by simp) (by simp [chunk]) (by simp [hpipe])) rfl ?_
        refine ih rest.length ?_ hcaller hfetch ?_ ?_
        · simp [← hn, hpipe]
        · simpa [hpipe] using havailable
        · simp [hpipe]

theorem Keeps.answerable (h : Keeps t s) (htimely : AllTimely t)
    (hcaller : s.caller? = some (.waiting timeout))
    (havailable : t.ended = true ∨ t.delivered ≠ t.lines) : Answerable s timeout := by
  cases hfetch : s.fetch? with
  | none =>
    have := (h.waiting _ hcaller).1
    simp [hfetch] at this
  | some fetch =>
    cases fetch with
    | settled line => exact .of_settled hcaller hfetch
    | reading =>
      refine .of_reading hcaller hfetch ?_
      by_contra hnone
      rw [not_or, Bool.not_eq_true] at hnone
      have hleft : s.undelivered = s.buffer ++ s.pipe := by
        rw [undelivered, hfetch]
        rfl
      rcases havailable with hended | hlines
      · rw [← h.ended, hnone.2] at hended
        cases hended
      · refine hlines ?_
        rw [h.lines htimely, hleft, linesOf_of_notMem hnone.1, hnone.2]
        simp [texts]

end Liveness

/-- A reader that keeps in one place all that is left. -/
structure Agrees (s : Background) (r : LineReader) : Prop where
  waiting : r.waiting = s.undelivered
  ended : r.ended = s.ended
  closed : r.closed = s.closed
  pending : s.caller? = none → r.pending = s.pending

def follow (r : LineReader) : Event → LineReader
  | .received octets => r.receive octets
  | .finished => r.finish
  | .closed => r.close
  | .answered timeout _ => (r.read timeout).2

inductive Plays : LineReader → Trace → LineReader → Prop
  | nil {r : LineReader} : Plays r [] r
  | cons {r last : LineReader} {e : Event} {t : Trace}
      (h : ∀ timeout answer, e = .answered timeout answer → (r.read timeout).1 = some answer)
      (rest : Plays (follow r e) t last) : Plays r (e :: t) last

theorem nextLine?_of_isNext {r : LineReader} {line rest : List UInt8}
    (hwaiting : r.waiting = line ++ rest) (h : IsNext line rest r.ended) :
    r.nextLine? = some (line, rest) := by
  rw [nextLine?, hwaiting]
  cases h with
  | complete h hline =>
    rw [hline, List.append_assoc, List.singleton_append, splitLine?_complete h]
  | tail hended hrest h =>
    rw [hrest, List.append_nil, splitLine?_eq_none.mpr h, hended]
    rfl

theorem read_of_isNext {r : LineReader} {line rest : List UInt8}
    (hwaiting : r.waiting = line ++ rest) (hclosed : r.closed = false)
    (h : IsNext line rest r.ended) (timeout : Value) :
    r.read timeout = (some (answerOf line), { r with waiting := rest, pending := false }) := by
  simp only [LineReader.read, hclosed, nextLine?_of_isNext hwaiting h, answerOf]
  cases line <;> rfl

theorem read_of_nothing {r : LineReader} {timeout : Value} (hwaiting : lineFeed ∉ r.waiting)
    (hended : r.ended = false) (hclosed : r.closed = false) (htimeout : timeout ≠ .null) :
    r.read timeout = (some (.error (.inputTimeout timeout)), { r with pending := true }) := by
  simp only [LineReader.read, hclosed, nextLine?, splitLine?_eq_none.mpr hwaiting, hended]
  cases timeout with
  | null => exact absurd rfl htimeout
  | _ => rfl

theorem notMem_of_linesOf_eq_nil {octets : List UInt8} {ended : Bool}
    (h : linesOf octets ended = []) :
    lineFeed ∉ octets := by
  cases hsplit : splitLine? octets with
  | none => exact splitLine?_eq_none.mp hsplit
  | some parts =>
    obtain ⟨init, hinit, hline, rfl⟩ := splitLine?_eq_some hsplit
    rw [IsNext.linesOf_append (.complete hinit hline) (by simp [hline])] at h
    cases h

/-- An event at a reader of a pipe is the same event at one that keeps all in one place. -/
theorem Agrees.step {r : LineReader} {e : Event} (h : Agrees s r) (hkeeps : Keeps t s)
    (hstep : Step s a (some e) next) (htimely : AllTimely (t ++ [e])) :
    (∀ timeout answer, e = .answered timeout answer → (r.read timeout).1 = some answer) ∧
    Agrees next (follow r e) := by
  cases hstep with
  | write =>
    exact ⟨by rintro _ _ ⟨⟩, by simp [follow, receive, h.waiting, undelivered], h.ended, h.closed,
      h.pending⟩
  | finish => exact ⟨by rintro _ _ ⟨⟩, h.waiting, rfl, h.closed, h.pending⟩
  | @refuse timeout _ hclosed =>
    have hread : r.read timeout = (some (.error .endOfInput), r) := by
      simp only [LineReader.read, h.closed, hclosed, if_true]
    rw [follow, hread]
    exact ⟨by rintro _ _ ⟨⟩; rw [hread], h⟩
  | @deliver timeout line hcaller hfetch =>
    have hwaiting : r.waiting = line ++ (s.buffer ++ s.pipe) := by
      rw [h.waiting, undelivered, hfetch, held]
    have hread := read_of_isNext hwaiting (h.closed.trans (hkeeps.waiting _ hcaller).2.1)
      (h.ended.symm ▸ hkeeps.next line hfetch) timeout
    rw [follow, hread]
    exact ⟨by rintro _ _ ⟨⟩; rw [hread], rfl, h.ended, h.closed, fun _ => rfl⟩
  | @leave timeout hcaller =>
    have hfetch := hkeeps.reading_of_timely hcaller htimely
    obtain ⟨hbefore, hended, hdelivered⟩ := allTimely_concat.mp htimely
    have hleft : linesOf s.undelivered s.ended = [] := by
      simpa [hkeeps.lines hbefore, texts] using hdelivered
    have hwaiting : lineFeed ∉ r.waiting := h.waiting ▸ notMem_of_linesOf_eq_nil hleft
    have hread := read_of_nothing hwaiting (h.ended.trans (hkeeps.ended.trans hended))
      (h.closed.trans (hkeeps.waiting _ hcaller).2.1) (hkeeps.waiting _ hcaller).2.2
    rw [follow, hread]
    exact ⟨by rintro _ _ ⟨⟩; rw [hread], by simp [h.waiting, undelivered, hfetch, kept], h.ended,
      h.closed,
      fun _ => by simp [Background.pending, hfetch, kept]⟩
  | close hcaller =>
    refine ⟨by rintro _ _ ⟨⟩, ?_⟩
    rw [follow, LineReader.close]
    split
    · exact ⟨h.waiting, h.ended, ‹_›, h.pending⟩
    · exact ⟨h.waiting, h.ended, rfl, h.pending⟩

/-- What a thread does and the start of a call are no events. -/
theorem Agrees.silent {r : LineReader} (h : Agrees s r) (hstep : Step s a none next) :
    Agrees next r := by
  cases hstep with
  | call hcaller =>
    refine ⟨?_, h.ended, h.closed, by rintro ⟨⟩⟩
    rw [h.waiting, undelivered, undelivered]
    cases s.fetch? <;> rfl
  | take hfetch => exact ⟨by simp [h.waiting, undelivered], h.ended, h.closed, h.pending⟩
  | settleLine hfetch hline =>
    obtain ⟨init, -, -, hbuffer⟩ := splitLine?_eq_some hline
    refine ⟨by simp [h.waiting, undelivered, hfetch, held, hbuffer], h.ended, h.closed,
      fun hcaller => ?_⟩
    rw [h.pending hcaller, Background.pending, Background.pending, hfetch]
    rfl
  | settleEnd hfetch =>
    refine ⟨by simp [h.waiting, undelivered, hfetch, held], h.ended, h.closed, fun hcaller => ?_⟩
    rw [h.pending hcaller, Background.pending, Background.pending, hfetch]
    rfl
  | expire => exact ⟨h.waiting, h.ended, h.closed, by rintro ⟨⟩⟩

theorem Agrees.run {r : LineReader} {actions : List Action} {events : Trace} (h : Agrees s r)
    (hkeeps : Keeps t s) (hrun : s.run actions = some (events, last))
    (htimely : AllTimely (t ++ events)) :
    ∃ r', Plays r events r' ∧ Agrees last r' := by
  induction actions generalizing t s r events with
  | nil =>
    cases hrun
    exact ⟨r, .nil, h⟩
  | cons a actions ih =>
    obtain ⟨event?, next, later, hact, hlater, rfl⟩ := run_cons_eq_some.mp hrun
    have hstep := step_of_act_eq hact
    cases event? with
    | none => exact ih (h.silent hstep) (by simpa using hkeeps.step hstep) hlater htimely
    | some e =>
      have hall : AllTimely (t ++ [e] ++ later) := by simpa using htimely
      obtain ⟨he, hnext⟩ := h.step hkeeps hstep (timelyFrom_append.mp hall).1
      obtain ⟨r', hplays, hlast⟩ := ih hnext (hkeeps.step hstep) hlater hall
      exact ⟨r', .cons he hplays, hlast⟩

/-- What a call may come to that gives up: a line or the end of the pipe, which is then dropped. -/
structure Dropped (s next : Background) (line : List UInt8) : Prop where
  settled : s.fetch? = some (.settled line)
  pending : next.pending = false
  undelivered : s.undelivered = line ++ next.undelivered

/-- What holds of a reader after any sequence of actions. A call is late if it times out although
there is a line for it or the pipe has ended. -/
structure Delivery (t : Trace) (s : Background) : Prop where
  /-- If no call is late, calls have got the first lines, in their order and each of them once. -/
  delivered : AllTimely t → t.delivered <+: t.lines
  /-- In any case they have got lines in their order and none of them twice. -/
  ordered : t.delivered.Sublist t.lines
  /-- The next answer is the one that is due. -/
  answer : ∀ a timeout answer next, s.act a = some (some (.answered timeout answer), next) →
    AllTimely (t ++ [.answered timeout answer]) → answer = due t timeout
  /-- It is the end of input just if the reader is closed or the pipe has ended and all lines are
  delivered. -/
  endOfInput : ∀ a timeout answer next, s.act a = some (some (.answered timeout answer), next) →
    AllTimely (t ++ [.answered timeout answer]) →
      (answer = .error .endOfInput ↔ t.closed = true ∨ t.ended = true ∧ t.delivered = t.lines)
  /-- A call whose time is up leaves its line pending, and with it all octets that are left. -/
  timedOut : ∀ a timeout seconds next,
    s.act a = some (some (.answered timeout (.error (.inputTimeout seconds))), next) →
    AllTimely (t ++ [.answered timeout (.error (.inputTimeout seconds))]) →
      next.pending = true ∧ next.undelivered = s.undelivered
  /-- A late one loses at most what the thread has come to. -/
  late : ∀ a timeout seconds next,
    s.act a = some (some (.answered timeout (.error (.inputTimeout seconds))), next) →
      next.pending = true ∧ next.undelivered = s.undelivered ∨ ∃ line, Dropped s next line
  /-- A call that waits needs no more to be answered than a line or the end of the pipe. -/
  available : AllTimely t → ∀ timeout, s.caller? = some (.waiting timeout) →
    t.ended = true ∨ t.delivered ≠ t.lines → Answerable s timeout
  /-- A reader that keeps in one place all that is left answers in the same way. -/
  together : AllTimely t → ∃ r, Plays {} t r ∧ Agrees s r

theorem Step.caller_of_timedOut {timeout seconds : Value}
    (h : Step s a (some (.answered timeout (.error (.inputTimeout seconds)))) next) :
    s.caller? = some (.leaving timeout) ∧
      next = { s with caller? := none, fetch? := s.fetch?.bind kept } := by
  generalize hevent : some (Event.answered timeout (.error (.inputTimeout seconds))) = event? at h
  cases h with
  | leave hcaller =>
    cases hevent
    exact ⟨hcaller, rfl⟩
  | @deliver _ line =>
    rw [answerOf] at hevent
    split at hevent <;> cases hevent
  | _ => cases hevent

/-- What a call leaves behind that has timed out. -/
theorem Keeps.leave (h : Keeps t s) {timeout : Value}
    (hcaller : s.caller? = some (.leaving timeout))
    (hnext : next = { s with caller? := none, fetch? := s.fetch?.bind kept }) :
    s.fetch? = some .reading ∧ next.pending = true ∧ next.undelivered = s.undelivered ∨
      ∃ line, Dropped s next line := by
  obtain ⟨fetch, hfetch⟩ := Option.isSome_iff_exists.mp (h.waiting _ hcaller).1
  cases fetch with
  | reading =>
    exact .inl ⟨hfetch, by simp [hnext, pending, hfetch, kept],
      by simp [hnext, undelivered, hfetch, kept]⟩
  | settled line =>
    exact .inr ⟨line, hfetch, by simp [hnext, pending, hfetch, kept],
      by simp [hnext, undelivered, hfetch, kept, held]⟩

/-- Wherever calls, the thread and those who write interrupt each other, no line is repeated or
moved, and none is lost but to a call that times out although there is a line for it. -/
theorem lines_delivered {actions : List Action} (hrun : run {} actions = some (t, s)) :
    Delivery t s := by
  have hkeeps : Keeps t s := Keeps.start.run hrun
  have hdelivered : AllTimely t → t.delivered <+: t.lines :=
    fun htimely => ⟨_, (hkeeps.lines htimely).symm⟩
  exact
    { delivered := hdelivered
      ordered := by
        obtain ⟨earlier, hsublist, -, hlines⟩ := hkeeps.left
        exact hlines ▸ hsublist.trans (List.sublist_append_left _ _)
      answer := fun a timeout answer next hact htimely =>
        hkeeps.answer (step_of_act_eq hact) htimely
      endOfInput := fun a timeout answer next hact htimely => by
        rw [hkeeps.answer (step_of_act_eq hact) htimely,
          due_eq_endOfInput_iff (hdelivered htimely.of_concat)]
      timedOut := by
        intro a timeout seconds next hact htimely
        obtain ⟨hcaller, hnext⟩ := (step_of_act_eq hact).caller_of_timedOut
        rcases hkeeps.leave hcaller hnext with ⟨-, hleft⟩ | ⟨line, hdropped⟩
        · exact hleft
        · exact absurd htimely (hkeeps.not_timely hdropped.settled)
      late := by
        intro a timeout seconds next hact
        obtain ⟨hcaller, hnext⟩ := (step_of_act_eq hact).caller_of_timedOut
        exact (hkeeps.leave hcaller hnext).imp_left And.right
      available := fun htimely timeout => hkeeps.answerable htimely
      together := fun htimely => Agrees.run ⟨rfl, rfl, rfl, fun _ => rfl⟩ Keeps.start hrun htimely }

/-- A call gives up while there is half a line; the rest of it comes with a piece of the last
line. -/
def interrupted : List Action :=
  [.write [102, 105, 114], .call (.ofInt 1), .take 3, .expire, .leave,
    .write [115, 116, 13, 10, 115, 101], .take 6,
    .settle, .call (.ofInt 1), .deliver, .finish, .call (.ofInt 1), .settle, .deliver,
      .call (.ofInt 1), .settle,
    .deliver]

def happened : Trace :=
  [.received [102, 105, 114], .answered (.ofInt 1) (.error (.inputTimeout (.ofInt 1))),
    .received [115, 116, 13, 10, 115, 101], .answered (.ofInt 1) (.ok "first"), .finished,
    .answered (.ofInt 1) (.ok "se"), .answered (.ofInt 1) (.error .endOfInput)]

theorem interrupted_delivers : happened.delivered = ["first", "se"] ∧ AllTimely happened ∧
    Delivery happened { ended := true } :=
  ⟨rfl, ⟨trivial, ⟨rfl, rfl⟩, trivial, trivial, trivial, trivial, trivial, trivial⟩,
    lines_delivered (show run {} interrupted = some (happened, { ended := true }) from rfl)⟩

example :
    run {} [.call (.ofInt 1), .expire, .write [97, 10], .take 2, .settle, .leave,
      .call (.ofInt 1)] =
      some ([.received [97, 10], .answered (.ofInt 1) (.error (.inputTimeout (.ofInt 1)))],
        { caller? := some (.waiting (.ofInt 1)), fetch? := some .reading }) := rfl

end EffectTree.Background
