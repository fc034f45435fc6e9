import EffectTree.Value.Order

/-!
# Sorting

A stable sort by a comparison that can fail and need not be consistent: a not-a-number is less than
nothing, and sets without common members are not ordered. Such a comparison makes the outcome depend
on which items meet, so the rule for that is fixed. A list is cut into runs that ascend or strictly
descend; to a short run the items after it are added one by one, each by bisection; the runs are
merged. A list of fewer than 64 items becomes a single run.
-/

namespace EffectTree.Value

/-- Whether the first item comes before the second, unless they cannot be compared. -/
abbrev Before (α : Type) := α → α → Except Fault Bool

namespace Before

variable {α : Type} (before : Before α)

/-- The items after one that continue its run, where each of them or none comes before the one it
follows. -/
def continued (descends : Bool) : α → List α → Except Fault (List α × List α)
  | _, [] => .ok ([], [])
  | x, y :: rest => do
      if (← before y x) = descends then
        let (run, rest) ← continued descends y rest
        return (y :: run, rest)
      else return ([], y :: rest)

/-- The run at the start of a list, in ascending order, and the rest. -/
def leadingRun : List α → Except Fault (List α × List α)
  | x :: y :: rest => do
      let descends ← before y x
      let (run, rest) ← continued before descends y rest
      return (if descends then (x :: y :: run).reverse else x :: y :: run, rest)
  | items => .ok (items, [])

/-- Where an item belongs between two places of a run: after the items that it does not come before.
The fuel is the distance of the places. -/
def placeIn (run : Array α) (x : α) : Nat → Nat → Nat → Except Fault Nat
  | 0, low, _ => .ok low
  | fuel + 1, low, high =>
      let middle := low + (high - low) / 2
      match run[middle]? with
      | none => .ok low
      | some y => do
          if low < high then
            if ← before x y then placeIn run x fuel low middle
              else placeIn run x fuel (middle + 1) high
          else return low

def insert (run : List α) (x : α) : Except Fault (List α) := do
  let place ← placeIn before run.toArray x run.length 0 run.length
  return run.take place ++ x :: run.drop place

/-- The least length of a run of a list with so many items: the first six binary digits of the
number, and one more if a digit after them is set. -/
def leastRun (n : Nat) (rounds : Nat) : Nat :=
  if n < 64 then n + rounds else leastRun (n / 2) (max rounds (n % 2))

/-- Cuts a list into ascending runs; the fuel is its length. -/
def runs (least : Nat) : Nat → List α → Except Fault (List (List α))
  | 0, _ | _, [] => .ok []
  | fuel + 1, items => do
      let (run, rest) ← leadingRun before items
      let missing := least - run.length
      let run ← (rest.take missing).foldlM (insert before) run
      return run :: (← runs least fuel (rest.drop missing))

/-- Merges two ascending runs; of items that do not come before each other the left stays first. The
fuel is the number of items. -/
def merge : Nat → List α → List α → List α → Except Fault (List α)
  | _, [], ys, acc => .ok (acc.reverse ++ ys)
  | _, xs, [], acc => .ok (acc.reverse ++ xs)
  | 0, xs, ys, acc => .ok (acc.reverse ++ xs ++ ys)
  | fuel + 1, x :: xs, y :: ys, acc => do
      if ← before y x then merge fuel (x :: xs) ys (y :: acc)
        else merge fuel xs (y :: ys) (x :: acc)

def mergePairs : List (List α) → Except Fault (List (List α))
  | a :: b :: rest => do
      let run ← merge before (a.length + b.length) a b []
      return run :: (← mergePairs rest)
  | runs => .ok runs

def mergeAll : Nat → List (List α) → Except Fault (List α)
  | _, [] => .ok []
  | _, [run] => .ok run
  | 0, runs => .ok runs.flatten
  | fuel + 1, runs => do mergeAll fuel (← mergePairs before runs)

def sort (items : List α) : Except Fault (List α) := do
  let runs ← runs before (leastRun items.length 0) items.length items
  mergeAll before runs.length runs

end Before

def sortKeyed (items : List (Value × Value)) : Except Fault (List (Value × Value)) :=
  Before.sort (fun a b => related .less a.1 b.1) items

def sortValues (items : List Value) : Except Fault (List Value) := Before.sort (related .less) items

end EffectTree.Value
