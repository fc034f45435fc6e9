import EffectTree.Table
import EffectTree.Value.Basic

/-!
# Telling things apart

Numbering gives every new thing inside a value a mark of its own, so that copies of the value can be
recognised as one thing later on. Things that have a mark keep it, and so do their parts. Releasing
takes the numbers of an evaluation off again.
-/

namespace EffectTree.Value

mutual

/-- Numbers the new things in a value, starting from a number and giving the next free one. -/
def number (label : Nat → Mark) : Value → Nat → Value × Nat
  | int i .fresh, n => (int i (label n), n + 1)
  | float x .fresh, n => (float x (label n), n + 1)
  | complex re im .fresh, n => (complex re im (label n), n + 1)
  | str s .fresh, n => (str s (label n), n + 1)
  | bytes bs .fresh, n => (bytes bs (label n), n + 1)
  | list xs .fresh, n => match numberItems label xs [] (n + 1) with
      | (xs, next) => (list xs (label n), next)
  | tuple xs .fresh, n => match numberItems label xs [] (n + 1) with
      | (xs, next) => (tuple xs (label n), next)
  | set xs s .fresh, n => match numberItems label xs [] (n + 1) with
      | (xs, next) => (set xs s (label n), next)
  | dict es .fresh, n => match numberEntries label es [] (n + 1) with
      | (es, next) => (dict es (label n), next)
  | generic f xs s .fresh, n => (generic f xs s (label n), n + 1)
  | union xs .fresh, n => (union xs (label n), n + 1)
  | v, n => (v, n)

/-- Items after those that are numbered already, which stand in reverse. -/
def numberItems (label : Nat → Mark) : List Value → List Value → Nat → List Value × Nat
  | [], acc, n => (acc.reverse, n)
  | x :: xs, acc, n => match number label x n with
      | (x, next) => numberItems label xs (x :: acc) next

def numberEntries (label : Nat → Mark) :
    List (Value × Value) → List (Value × Value) → Nat → List (Value × Value) × Nat
  | [], acc, n => (acc.reverse, n)
  | (k, v) :: rest, acc, n => match number label k n with
      | (k, next) => match number label v next with
          | (v, next) => numberEntries label rest ((k, v) :: acc) next

end

/-- Numbers what is new to an evaluation. -/
def track (v : Value) (n : Nat) : Value × Nat := number .numbered v n

def trackTable (table : Table Value) (n : Nat) : Table Value × Nat :=
  let (entries, next) := table.foldl (fun (acc, n) (name, v) =>
    let (v, next) := track v n
    ((name, v) :: acc, next)) ([], n)
  (entries.reverse, next)

mutual

def release : Value → Value
  | int i m => int i m.released
  | float x m => float x m.released
  | complex re im m => complex re im m.released
  | str s m => str s m.released
  | bytes bs m => bytes bs m.released
  | list xs m => list (releaseItems xs []) m.released
  | tuple xs m => tuple (releaseItems xs []) m.released
  | set xs s m => set (releaseItems xs []) s m.released
  | dict es m => dict (releaseEntries es []) m.released
  | generic f xs s m => generic f xs s m.released
  | union xs m => union xs m.released
  | v => v

def releaseItems : List Value → List Value → List Value
  | [], acc => acc.reverse
  | x :: xs, acc => releaseItems xs (release x :: acc)

def releaseEntries : List (Value × Value) → List (Value × Value) → List (Value × Value)
  | [], acc => acc.reverse
  | (k, v) :: rest, acc => releaseEntries rest ((release k, release v) :: acc)

end

end EffectTree.Value
