import EffectTree.Proofs.ResultReferences

/-!
# Closed programs

A program without free variables never makes a descriptor that has any: results, slots, cells and
everything that is evaluated stay closed. So a search for a head finds no variable, nor does any of
the searches inside of it. Rendering is the exception: it looks at the fields of a record as they
stand, where the names of the other fields are variables.
-/
namespace EffectTree

open Evaluation

namespace Discipline

/-- Everything may be mentioned but free variables. -/
def closed : Discipline where
  permits _ m := ∀ name, m ≠ .free name
  mono _ h := h
  known _ _ h := Mention.noConfusion h

variable {keys : Set String} {d : Descriptor} {r : Resolver}

theorem closed_allows_iff : closed.Allows keys d ↔ d.freeVars = [] := by
  rw [List.eq_nil_iff_forall_not_mem]
  constructor
  · intro h name hname
    exact h _ ((Descriptor.mem_freeVars_iff name d).mp hname) name rfl
  · rintro h m hm name rfl
    exact h name ((Descriptor.mem_freeVars_iff name d).mpr hm)

theorem head_ne_var (hr : closed.Governs keys r) (hd : d.freeVars = []) (name : Value) :
    r.head d ≠ .ok (.var name) := by
  intro h
  have hhead := head_ends hr (closed_allows_iff.mpr hd)
  rw [h] at hhead
  exact hhead (.free name) (List.mem_singleton.mpr rfl) name rfl

section Congruence

open Resolution

variable {D : Discipline} {head head' : Descriptor → Except Fault Descriptor}

theorem foldlM_congr {ε α β : Type} {f g : β → α → Except ε β} {xs : List α}
    (h : ∀ x ∈ xs, ∀ b, f b x = g b x) (b : β) : xs.foldlM f b = xs.foldlM g b := by
  induction xs generalizing b with
  | nil => rfl
  | cons x xs ih =>
    rw [List.foldlM_cons, List.foldlM_cons, h x (List.mem_cons_self ..)]
    exact congrArg _ (funext fun b => ih (fun y hy => h y (List.mem_cons_of_mem _ hy)) b)

variable (hhead : ∀ d, D.Allows keys d → Ends (D.Allows keys) D.Admits (head d))
  (heq : ∀ d, D.Allows keys d → head d = head' d)
include hhead heq

theorem decodeWith_congr {levels : Nat} (hd : D.Allows keys d) :
    decodeWith head levels d = decodeWith head' levels d := by
  induction levels generalizing d with
  | zero => rfl
  | succ levels ih =>
    have h := hhead d hd
    rw [decodeWith, decodeWith, ← heq d hd]
    split
    · rfl
    · rfl
    · rename_i items hitems
      rw [hitems] at h
      rw [Except.mapM_congr fun d hd => ih (allows_tuple.mp h d hd)]
    · rename_i fields hfields
      rw [hfields] at h
      exact congrArg _ (Except.mapM_congr fun entry _ => congrArg _ (ih (allows_index.mpr h)))
    · rfl

/-- One step is the same for two searches that agree on what is allowed. -/
theorem step_congr (hd : D.Allows keys d) : step r head d = step r head' d := by
  have hdecode (args : List Descriptor) (hargs : ∀ d ∈ args, D.Allows keys d) :
      args.mapM (decodeWith head decodeLevels) = args.mapM (decodeWith head' decodeLevels) :=
    Except.mapM_congr fun d hd => decodeWith_congr hhead heq (hargs d hd)
  cases d with
  | index target field mark => rw [step, step, heq target hd]
  | inter parts =>
    have hmerge : ∀ part ∈ parts, ∀ merged, (head part).map (merge merged) =
        (head' part).map (merge merged) :=
      fun part hpart merged => by rw [heq part (allows_inter.mp hd part hpart)]
    rw [step, step, foldlM_congr hmerge]
  | op name args =>
    have hargs := allows_op.mp hd
    unfold step
    dsimp only
    split
    · unfold conditionalStep
      split
      · rw [decodeWith_congr hhead heq (hargs _ (by simp))]
      · rfl
    · unfold operatorStep
      rw [hdecode args hargs]
  | _ => rfl

end Congruence

end Discipline

namespace Resolution

/-- What a search gives, with another answer in place of a variable. -/
def unlessVariable (answer : Except Fault Descriptor) :
    Except Fault Descriptor → Except Fault Descriptor
  | .ok (.var _) => answer
  | found => found

/-- The search for a head in which every search that starts from a descriptor with free variables or
finds a variable gives a fixed answer instead. -/
def guardedAt (answer : Except Fault Descriptor) (r : Resolver) :
    Nat → Descriptor → Except Fault Descriptor
  | 0, _ => .error .recursion
  | nesting + 1, d =>
      if d.freeVars.isEmpty then
        unlessVariable answer (iterate r.maxSteps (step r (guardedAt answer r nesting))
          r.maxSteps.toNat d)
      else answer

def renderWith (head : Descriptor → Except Fault Descriptor) :
    Nat → List Value → Descriptor → Except Fault Value
  | 0, _, _ => .error .recursion
  | levels + 1, seen, d =>
      match surroundings seen d with
      | .error e => .error e
      | .ok (.inl name) => .ok name
      | .ok (.inr seen) =>
          match head d with
          | .error e => .error e
          | .ok head' => renderHead (renderWith head levels seen) head'

end Resolution

namespace Resolver

open Resolution

variable (r : Resolver) (answer : Except Fault Descriptor)

def guardedHead (d : Descriptor) : Except Fault Descriptor := guardedAt answer r r.nesting d

def guardedDecode (d : Descriptor) : Except Obstacle Value :=
  decodeWith (r.guardedHead answer) decodeLevels d

def guardedRender (d : Descriptor) : Except Fault Value :=
  renderWith (r.guardedHead answer) r.nesting [] d

end Resolver

namespace Discipline

open Resolution

variable {keys : Set String} {d : Descriptor} {r : Resolver}

theorem iterate_congr {D : Discipline} {limit : Int} {step step' : Descriptor → Except Fault Step}
    (hstep : ∀ d, D.Allows keys d → Ends (D.AllowsStep keys) D.Admits (step d))
    (heq : ∀ d, D.Allows keys d → step d = step' d) {n : Nat} (hd : D.Allows keys d) :
    iterate limit step n d = iterate limit step' n d := by
  induction n generalizing d with
  | zero => rfl
  | succ n ih =>
    have h := hstep d hd
    rw [iterate, iterate, ← heq d hd]
    split
    · rfl
    · rfl
    · rename_i d' hd'
      rw [hd'] at h
      exact ih h

/-- No answer to a search that is not closed makes a difference to the search for the head of a
closed descriptor. -/
theorem guardedAt_eq (hr : closed.Governs keys r) (answer : Except Fault Descriptor) {nesting : Nat}
    (hd : closed.Allows keys d) : guardedAt answer r nesting d = headAt r nesting d := by
  induction nesting generalizing d with
  | zero => rfl
  | succ nesting ih =>
    have hinner : ∀ d, closed.Allows keys d →
        Ends (closed.Allows keys) closed.Admits (headAt r nesting d) :=
      fun d hd => headAt_ends hr hd
    have hsame : iterate r.maxSteps (step r (guardedAt answer r nesting)) r.maxSteps.toNat d =
        headAt r (nesting + 1) d := by
      refine (iterate_congr (fun d hd => step_ends hr hinner hd) (fun d hd => ?_) hd).symm
      exact step_congr hinner (fun d hd => (ih hd).symm) hd
    have hfound : Ends (closed.Allows keys) closed.Admits (headAt r (nesting + 1) d) :=
      headAt_ends hr hd
    rw [guardedAt, if_pos (by simp [closed_allows_iff.mp hd]), hsame]
    unfold unlessVariable
    split
    · rename_i name hname
      rw [hname] at hfound
      exact absurd rfl (hfound (.free name) (List.mem_singleton.mpr rfl) name)
    · rfl

theorem guardedDecode_eq (hr : closed.Governs keys r) (answer : Except Fault Descriptor)
    (hd : closed.Allows keys d) :
    r.guardedDecode answer d = r.decode d :=
  (decodeWith_congr (fun _ hd => head_ends hr hd)
    (fun _ hd => (guardedAt_eq hr answer hd).symm) hd).symm

end Discipline

namespace Evaluation

open Discipline

/-- A state in which everything that is stored or evaluated is closed, and in which no search that
starts from a closed descriptor finds a variable or depends on one that starts from any other. -/
structure State.Closed (s : State) : Prop where
  results : ∀ entry ∈ s.world.results.entries, entry.2.freeVars = []
  slots : ∀ entry ∈ s.world.resolver.slots, entry.2.freeVars = []
  cells : ∀ entry ∈ s.world.cells.entries, entry.2.freeVars = []
  nodes : ∀ d ∈ s.nodes, d.freeVars = []
  head : ∀ d, d.freeVars = [] → ∀ name, s.world.resolver.head d ≠ .ok (.var name)
  searches : ∀ d, d.freeVars = [] →
    ∀ answer, s.world.resolver.guardedHead answer d = s.world.resolver.head d
  decoding : ∀ d, d.freeVars = [] →
    ∀ answer, s.world.resolver.guardedDecode answer d = s.world.resolver.decode d

/-- Every state of a call is closed, whatever calls there were before. -/
theorem closed_stays_closed {w : World} (hw : w.HasOnly (·.freeVars = []))
    (hresults : ∀ entry ∈ w.results.entries, entry.2.freeVars = []) (calls : List Call)
    (hcalls : ∀ call ∈ calls, call.node.freeVars = []) {node : Descriptor}
    (hnode : node.freeVars = []) {s : State}
    (hs : (State.start node (w.afterAll calls)).Reaches s) : s.Closed := by
  have hholds : closed.Holds w := holds_of_hasOnly (fun _ => closed_allows_iff.mpr) hw
  obtain ⟨hfollows, hvalid⟩ :=
    session_valid hholds (fun call hcall => closed_allows_iff.mpr (hcalls call hcall))
    (closed_allows_iff.mpr hnode) hs
  have hgoverns := hvalid.holds.governs
  refine ⟨fun entry hentry => ?_, fun entry hentry =>
    closed_allows_iff.mp (hvalid.holds.slots entry hentry),
    fun entry hentry => closed_allows_iff.mp (hvalid.holds.cells entry hentry),
    fun d hd => closed_allows_iff.mp (hvalid.nodes d hd), fun d hd name =>
      head_ne_var hgoverns hd name,
    fun d hd answer => guardedAt_eq hgoverns answer (closed_allows_iff.mpr hd),
    fun d hd answer => guardedDecode_eq hgoverns answer (closed_allows_iff.mpr hd)⟩
  rcases hfollows.results entry hentry with hold | hnew
  · exact hresults entry hold
  · exact closed_allows_iff.mp hnew

/-- A record that declares a field and returns it. -/
def declaring : Descriptor := .record [("input", .unknown), ("return", .var (.ofStr "input"))]

def printing : Descriptor := .effect (.ofStr "Print") [declaring]

def aboutToPrint : State :=
  ⟨.perform printing (.ofStr "Print") [declaring], [.leave],
    World.descended {} (.ofStr "Print") [declaring]⟩

theorem start_reaches_aboutToPrint : (State.start printing {}).Reaches aboutToPrint :=
  .single (congrArg some (congrArg (State.after []) (arrive_of_ok rfl rfl)))

theorem empty_closed : ({} : World).HasOnly (·.freeVars = []) :=
  ⟨by simp, by simp, by simp, by simp [Registry.Compiled]⟩

theorem aboutToPrint_closed : aboutToPrint.Closed :=
  closed_stays_closed empty_closed (by simp) [] (by simp) (by decide) start_reaches_aboutToPrint

/-- The record is closed, but printing it finds the variable in its field: in a closed program that
starts with empty stores, a text depends on what a search gives that starts from there. -/
theorem printing_finds_variable :
    (worldAfter (evaluate printing {})).transcript.diagnostics =
        "\x7b input: unknown; return: this[\"input\"] \x7d\n" ∧
      ¬ ∀ (w : World) (node : Descriptor), w.HasOnly (·.freeVars = []) → w.resolver.slots = [] →
        w.results.entries = [] → w.cells.entries = [] → node.freeVars = [] →
          ∀ s, (State.start node w).Reaches s →
        ∀ d ∈ s.nodes, ∀ answer, s.world.resolver.guardedRender answer d =
          s.world.resolver.render d := by
  refine ⟨by decide +kernel, fun hlaw => ?_⟩
  have hsame := hlaw {} printing empty_closed rfl rfl rfl (by decide) aboutToPrint
    start_reaches_aboutToPrint declaring
    (by simp [State.nodes, aboutToPrint, Focus.nodes]) (.ok .unknown)
  have htexts := congrArg (fun text => text.toOption.map Value.display) hsame
  exact absurd htexts (by decide +kernel)

end Evaluation

end EffectTree
