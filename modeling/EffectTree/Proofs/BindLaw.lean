import Mathlib
import EffectTree.Proofs.Concealment

/-!
# Passing a result on and putting it in

Passing the result of a pure effect to a continuation evaluates the continuation with a reference to
the result as its input. Where the reference cannot be told from what it refers to, this has the
value of the continuation that is given the descriptor itself.
-/
namespace EffectTree.Evaluation

open Store Machine Resolution

def pureOf (d : Descriptor) : Descriptor := .effect (.ofStr "Pure") [d]

/-- What a continuation returns for an input. -/
def returned (r : Resolver) (continuation input : Descriptor) :
    Except Fault (Option Descriptor) := do
  r.projectField (← r.specialize continuation [("input", input)]) (.ofStr "return")

/-- A key that names a result or is not going to be drawn any more. -/
def World.Old (w : World) (key : String) : Prop :=
  key ∈ w.results.keys ∨ ∀ n > w.issued, key ≠ keyText n

/-- Nothing in a world refers to a result that is yet to come. -/
structure World.RefersBack (w : World) : Prop where
  definitions : ∀ name d, Table.get? w.resolver.definitions name = some d → d.RefersWithin w.Old
  slots : ∀ key d, Table.get? w.resolver.slots key = some d → d.RefersWithin w.Old
  results : ∀ key d, w.results.get? key = some d → d.RefersWithin w.Old
  cells : ∀ entry ∈ w.cells.entries, entry.2.RefersWithin w.Old

section Ends

variable {s : Stored} {x y : EStateM.Result Stop World (Option String)}

lemma Limited.fault {e : Fault} {w : World}
    (h : ¬ Limited (.error (.fault e) w : EStateM.Result Stop World (Option String))) :
    e.isLimit = false := by
  by_contra he
  exact h ⟨e, w, rfl, by simpa using he⟩

end Ends

section Context

variable {w u : World} {v : Descriptor}

variable {hclosed : v.freeVars = []} {hv : v.RefersWithin w.Old}

variable {t : Transcript} {depth : Nat}

end Context

section Steps

end Steps

section HandingOver

variable {w : World} {v K : Descriptor} {hclosed : v.freeVars = []} {hv : v.RefersWithin w.Old}
variable {t : Transcript} {depth : Nat}

end HandingOver

section Law

variable {s : Stored} {outer : List Frame} {w : World}

/-- Where the second state has ended, the first one has come to the frames around it. -/
lemma UnfoldsState.ended {u : State} {y : EStateM.Result Stop World (Option String)}
    (h : UnfoldsState s outer u (State.ended [] y)) :
    ∃ x, u = State.ended outer x ∧ Follows s (Option.Rel (SharedKey s)) x y := by
  obtain ⟨focus, frames, w⟩ := u
  obtain ⟨hfocus, ⟨inner, hframes, hinner⟩, hw⟩ := h
  cases y with
  | ok key? w' =>
    cases hinner
    cases hfocus with
    | finish hkey => exact ⟨.ok _ w, by cases hframes; rfl, .ok hkey hw⟩
  | error cause w' =>
    cases hinner
    cases hfocus with
    | stop => exact ⟨.error cause w, by cases hframes; rfl, .stop cause hw⟩

end Law

section Examples

/-- A world with a definition that is a number. -/
def numbered : World := { resolver := { definitions := [("A", .literal (.ofInt 5))] } }

/-- Joins its input with a record inside of another one. -/
def joining : Descriptor :=
  .record [("input", .unknown),
    ("return", pureOf (.index (.inter [.record [("x", .var (.ofStr "input"))],
      .record [("x", .record [("b", .literal (.ofInt 2))])]]) (.ofStr "x") .fresh))]

/-- A world with a definition that refers to itself. -/
def circular : World :=
  { resolver := { definitions := [("A", .record [("x", .ref (.ofStr "A"))])] } }

end Examples

end EffectTree.Evaluation
