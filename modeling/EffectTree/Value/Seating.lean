import EffectTree.Number.Power

/-!
# Seating

A set lists its members by the places that they take in a row, whose size is a power of two. A
member asks for the place that its key gives. Where that is taken it tries the nine places after it,
if the row is long enough for them, and then a place further on that depends on the higher digits of
the key. A row that is three fifths full is exchanged for a longer one. A place that has been given
up can be taken again only by a member that comes past it.
-/

namespace EffectTree

/-- The places of the members of a set, in the order in which it lists them, and the places given
up. -/
structure Seating where
  size : Nat
  places : List Nat
  vacated : List Nat
  deriving DecidableEq, Repr, Inhabited

/-- A member at its place, with the key that led there. -/
structure Seat (α : Type) where
  place : Nat
  key : Nat
  member : α

/-- A row of places, with those that are taken in ascending order. -/
structure Row (α : Type) where
  size : Nat := 8
  seats : List (Seat α) := []
  vacated : List Nat := []

namespace Row

variable {α : Type}

def members (r : Row α) : List α := r.seats.map (·.member)

def seating (r : Row α) : Seating := ⟨r.size, r.seats.map (·.place), r.vacated⟩

def ofSeating (s : Seating) (members : List (Nat × α)) : Row α :=
  ⟨s.size, (s.places.zip members).map fun (place, key, member) => ⟨place, key, member⟩, s.vacated⟩

/-- How many places are taken or have been. -/
def filled (r : Row α) : Nat := r.seats.length + r.vacated.length

def isFree (r : Row α) (place : Nat) : Bool :=
  !r.seats.any (·.place = place) && !r.vacated.contains place

/-- The place for a member from a place on, with the digits of the key that are still to be used:
the first free place, or the last one given up on the way there. -/
def seek (r : Row α) : Nat → Nat → Nat → Option Nat → Nat
  | 0, place, _, _ => place
  | fuel + 1, place, digits, spare =>
      let tried := (List.range (if place + 9 < r.size then 10 else 1)).map (place + ·)
      let passed := tried.takeWhile fun p => !r.isFree p
      let spare := (passed.filter r.vacated.contains).getLast?.or spare
      match tried.find? r.isFree with
      | some p => spare.getD p
      | none => seek r fuel ((place * 5 + 1 + digits / 32) % r.size) (digits / 32) spare

/-- The place for a key. Once the thirteen digits of a key are used up, the places that are tried go
through the whole row, so the steps suffice. -/
def placeFor (r : Row α) (key : Nat) : Nat := r.seek (r.size + 13) (key % r.size) key none

def insertSeat (seat : Seat α) : List (Seat α) → List (Seat α)
  | [] => [seat]
  | s :: rest => if seat.place < s.place then seat :: s :: rest else s :: insertSeat seat rest

/-- Seats a member without a look at the size of the row. -/
def seat (r : Row α) (key : Nat) (member : α) : Row α :=
  let place := r.placeFor key
  { r with
    seats := insertSeat ⟨place, key, member⟩ r.seats
    vacated := r.vacated.filter (· ≠ place) }

def sizeAbove (n : Nat) : Nat := max 8 (Number.twoTo (n.log2 + 1))

/-- Seats the members of a row anew, in their order, in a row of the given size. -/
def reseat (r : Row α) (size : Nat) : Row α :=
  r.seats.foldl (fun acc s => acc.seat s.key s.member) { size }

/-- Exchanges a row for one with more than the given number of places; a shortest row without a
place given up stays. -/
def resize (r : Row α) (n : Nat) : Row α :=
  if sizeAbove n = 8 && r.size = 8 && r.vacated.isEmpty then r else r.reseat (sizeAbove n)

def roomFor (n : Nat) : Nat := if 50000 < n then n * 2 else n * 4

def add (r : Row α) (key : Nat) (member : α) : Row α :=
  let next := r.seat key member
  if next.filled = r.filled || next.filled * 5 < (next.size - 1) * 3 then next
  else next.resize (roomFor next.seats.length)

def vacate (r : Row α) (selected : α → Bool) : Row α :=
  let (left, kept) := r.seats.partition fun s => selected s.member
  { r with seats := kept, vacated := left.map (·.place) ++ r.vacated }

/-- Exchanges a row of which more than a quarter has been given up. -/
def settle (r : Row α) : Row α :=
  if r.vacated.length ≤ (r.size - 1) / 4 then r else r.resize (roomFor r.seats.length)

def makeRoom (r other : Row α) : Row α :=
  if (r.filled + other.seats.length) * 5 < (r.size - 1) * 3 then r
  else r.resize ((r.seats.length + other.seats.length) * 2)

/-- A row with the same members: the same one if it has the size that they need and no place was
given up. -/
def copy (r : Row α) : Row α :=
  if r.seats.isEmpty then {}
  else
    let target := makeRoom ({} : Row α) r
    if target.size = r.size && r.vacated.isEmpty then r else r.reseat target.size

def merge (r other : Row α) (isMember : α → Row α → Bool) : Row α :=
  if other.seats.isEmpty then r
  else if r.filled = 0 then other.copy
  else other.seats.foldl
    (fun acc s => if isMember s.member acc then acc else acc.add s.key s.member) (r.makeRoom other)

end Row

end EffectTree
