/-!
# Sets of code points

A property of characters is stored as the list of its maximal runs, written as gaps and lengths, and
looked up by bisection. A letter mapping is stored as runs of equally spaced letters that move by
one common distance.
-/

namespace EffectTree.Text

/-- The integers in the bytes of a row, from within one of them: whether it is negative, and its
value so far. Spaces stand between integers and a sign before one. -/
def numbersFrom (negative : Bool) (value : Nat) : List UInt8 → List Int
  | [] => [if negative then -value else value]
  | byte :: bytes =>
      if byte = 32 then (if negative then -value else value) :: numbersFrom false 0 bytes
      else if byte = 45 then numbersFrom true value bytes
      else numbersFrom negative (value * 10 + (byte.toNat - 48)) bytes

/-- The numbers written in a table, in order. -/
def numbers (rows : List String) : List Int :=
  rows.flatMap fun row => numbersFrom false 0 row.toUTF8.data.toList

/-- Inclusive runs of code points, ascending. -/
structure CodePoints where
  runs : Array (Nat × Nat)

namespace CodePoints

/-- Reads alternating gaps and lengths; the gap counts from the end of the run before it. -/
def ofGaps : Nat → List Int → List (Nat × Nat)
  | start, gap :: size :: rest =>
      let lo := start + gap.toNat
      let hi := lo + size.toNat
      (lo, hi) :: ofGaps (hi + 1) rest
  | _, _ => []

def ofRows (rows : List String) : CodePoints := ⟨(ofGaps 0 (numbers rows)).toArray⟩

/-- Bisection for the run that holds a code point; each round halves the window. -/
def search (runs : Array (Nat × Nat)) (point : Nat) : Nat → Nat → Nat → Bool
  | 0, _, _ => false
  | fuel + 1, lo, hi =>
      if lo < hi then
        let mid := (lo + hi) / 2
        match runs[mid]? with
        | none => false
        | some (first, last) =>
            if point < first then search runs point fuel lo mid
            else if last < point then search runs point fuel (mid + 1) hi
            else true
      else false

def contains (points : CodePoints) (c : Char) : Bool :=
  search points.runs c.toNat (points.runs.size + 1) 0 points.runs.size

end CodePoints

/-- Letters `first`, `first + stride`, …, `last` that all move by `shift`. -/
structure ShiftRun where
  first : Nat
  last : Nat
  stride : Nat
  shift : Int

/-- A letter mapping as runs in ascending order. -/
structure ShiftTable where
  runs : Array ShiftRun

namespace ShiftTable

/-- Reads rows of gap, count, stride and shift; the gap counts from the last letter of the run
before. -/
def ofQuads : Nat → List Int → List ShiftRun
  | start, gap :: count :: stride :: shift :: rest =>
      let first := start + gap.toNat
      let last := first + count.toNat * stride.toNat
      ⟨first, last, stride.toNat, shift⟩ :: ofQuads last rest
  | _, _ => []

def ofRows (rows : List String) : ShiftTable := ⟨(ofQuads 0 (numbers rows)).toArray⟩

def search (runs : Array ShiftRun) (point : Nat) : Nat → Nat → Nat → Option Nat
  | 0, _, _ => none
  | fuel + 1, lo, hi =>
      if lo < hi then
        let mid := (lo + hi) / 2
        match runs[mid]? with
        | none => none
        | some run =>
            if point < run.first then search runs point fuel lo mid
            else if run.last < point then search runs point fuel (mid + 1) hi
            else if (point - run.first) % run.stride = 0 then some (Int.toNat (point + run.shift))
            else none
      else none

def lookup? (table : ShiftTable) (c : Char) : Option Char :=
  (search table.runs c.toNat (table.runs.size + 1) 0 table.runs.size).map Char.ofNat

/-- The image of a letter, or the letter itself when the table does not list it. -/
def apply (table : ShiftTable) (c : Char) : Char := (table.lookup? c).getD c

end ShiftTable

end EffectTree.Text
