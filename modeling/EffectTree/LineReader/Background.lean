import EffectTree.LineReader

/-!
# Reading in the background

A reader of a pipe keeps octets in three places: in the pipe, in a buffer of its own and in the line
that a thread has read. A call has a thread read the next line unless one is at it already. When the
time of a call is up it leaves the thread to itself, and the next call waits for the same line. But
between the moment at which its time is up and the moment at which it is answered the thread may
come to a line, and then the call drops the line.
-/

namespace EffectTree

/-- The line that a thread reads: not complete yet, or there and not taken by a call. -/
inductive Background.Fetch where
  | reading
  | settled (line : List UInt8)

/-- A call that is not answered yet: it waits for a line, or its time is up. -/
inductive Background.Caller where
  | waiting (timeout : Value)
  | leaving (timeout : Value)

inductive Background.Event where
  | received (octets : List UInt8)
  | finished
  | closed
  /-- A call with a time limit is answered. -/
  | answered (timeout : Value) (answer : Except Fault String)

inductive Background.Action where
  | write (octets : List UInt8)
  | finish
  | call (timeout : Value)
  | take (count : Nat)
  | settle
  | deliver
  /-- The time of a call is up. -/
  | expire
  /-- A call whose time is up is answered. -/
  | leave
  | close

/-- Whether an action needs no more than the thread and the call that waits for it. -/
def Background.Action.isInternal : Action → Bool
  | take _ | settle | deliver => true
  | _ => false

structure Background where
  /-- Octets that have been written and not been read. -/
  pipe : List UInt8 := []
  ended : Bool := false
  /-- Octets that have been read and belong to no line yet. -/
  buffer : List UInt8 := []
  fetch? : Option Background.Fetch := none
  caller? : Option Background.Caller := none
  closed : Bool := false

namespace Background

open LineReader

def chunk : Nat := 4096

/-- The answer to a call that gets a line; only at the end of a pipe there is nothing in it. -/
def answerOf (line : List UInt8) : Except Fault String :=
  if line.isEmpty then .error .endOfInput else .ok (withoutEnd (Text.utf8DecodeLossy line))

/-- Whether a call has left a line to the next one. -/
def pending (s : Background) : Bool := s.fetch?.isSome

/-- What a call leaves behind whose time is up. -/
def kept : Fetch → Option Fetch
  | .reading => some .reading
  | .settled _ => none

/-- What happens in an action, if it is possible, and the state after it. -/
def act (s : Background) : Action → Option (Option Event × Background)
  | .write octets =>
      if s.ended then none else some (some (.received octets), { s with pipe := s.pipe ++ octets })
  | .finish => if s.ended then none else some (some .finished, { s with ended := true })
  | .call timeout => match s.caller? with
      | some _ => none
      | none =>
          if s.closed then some (some (.answered timeout (.error .endOfInput)), s)
          else some (none,
            { s with caller? := some (.waiting timeout), fetch? := some (s.fetch?.getD .reading) })
  | .take count => match s.fetch? with
      | some .reading =>
          if s.buffer.contains lineFeed || count = 0 || chunk < count ||
            s.pipe.length < count then none
          else some (none,
            { s with buffer := s.buffer ++ s.pipe.take count, pipe := s.pipe.drop count })
      | _ => none
  | .settle => match s.fetch? with
      | some .reading => match splitLine? s.buffer with
          | some (line, rest) =>
            some (none, { s with fetch? := some (.settled line), buffer := rest })
          | none =>
              if s.ended && s.pipe.isEmpty then
                some (none, { s with fetch? := some (.settled s.buffer), buffer := [] })
              else none
      | _ => none
  | .deliver => match s.caller?, s.fetch? with
      | some (.waiting timeout), some (.settled line) =>
          some (some (.answered timeout (answerOf line)),
            { s with caller? := none, fetch? := none })
      | _, _ => none
  | .expire => match s.caller? with
      | some (.waiting .null) => none
      | some (.waiting timeout) => some (none, { s with caller? := some (.leaving timeout) })
      | _ => none
  | .leave => match s.caller? with
      | some (.leaving timeout) =>
          some (some (.answered timeout (.error (.inputTimeout timeout))),
            { s with caller? := none, fetch? := s.fetch?.bind kept })
      | _ => none
  | .close => match s.caller? with
      | some _ => none
      | none => some (some .closed, { s with closed := true })

def run (s : Background) : List Action → Option (List Event × Background)
  | [] => some ([], s)
  | a :: rest => match s.act a with
      | none => none
      | some (event?, next) =>
        (next.run rest).map fun (events, last) => (event?.toList ++ events, last)

end Background

end EffectTree
