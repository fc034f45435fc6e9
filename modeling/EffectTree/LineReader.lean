import EffectTree.Fault
import EffectTree.Text.Utf8

/-!
# Reading lines

A reader delivers the octets that a stream has received line by line, decoded as UTF-8 with U+FFFD
for what is ill-formed. A read that times out stays pending and loses nothing: the next read
delivers its line.
-/

namespace EffectTree

structure LineReader where
  /-- Octets received and not yet delivered. -/
  waiting : List UInt8 := []
  ended : Bool := false
  pending : Bool := false
  closed : Bool := false
  /-- Whether closing the reader closes the stream. -/
  owned : Bool := false
  streamClosed : Bool := false

namespace LineReader

def ofText (s : String) : LineReader := { waiting := Text.utf8Encode s, ended := true }

def silent : LineReader := {}

def lineFeed : UInt8 := 10

/-- The first line with its end, and the rest; nothing if no line is complete. -/
def splitLine? : List UInt8 → Option (List UInt8 × List UInt8)
  | [] => none
  | b :: rest =>
      if b = lineFeed then some ([b], rest)
      else (splitLine? rest).map fun (line, after) => (b :: line, after)

/-- The next line: a complete one or, at the end of the stream, all that is left. -/
def nextLine? (r : LineReader) : Option (List UInt8 × List UInt8) :=
  match splitLine? r.waiting with
  | some parts => some parts
  | none => if r.ended then some (r.waiting, []) else none

def withoutEnd (line : String) : String :=
  let cs := line.toList
  match cs.reverse with
  | '\n' :: '\r' :: rest => String.ofList rest.reverse
  | '\n' :: rest => String.ofList rest.reverse
  | _ => line

/-- Reads a line. If none can be delivered the read stays pending: it times out or, without a time
limit, is never answered. -/
def read (r : LineReader) (timeout : Value) : Option (Except Fault String) × LineReader :=
  if r.closed then (some (.error .endOfInput), r)
  else match r.nextLine? with
    | some (line, rest) =>
        let r := { r with waiting := rest, pending := false }
        if line.isEmpty then (some (.error .endOfInput), r)
        else (some (.ok (withoutEnd (Text.utf8DecodeLossy line))), r)
    | none => match timeout with
        | .null => (none, { r with pending := true })
        | seconds => (some (.error (.inputTimeout seconds)), { r with pending := true })

def receive (r : LineReader) (octets : List UInt8) : LineReader :=
  { r with waiting := r.waiting ++ octets }

def finish (r : LineReader) : LineReader := { r with ended := true }

def close (r : LineReader) : LineReader :=
  if r.closed then r
  else { r with closed := true, streamClosed := r.streamClosed || r.owned }

end LineReader

end EffectTree
