import EffectTree.Proofs.StepwiseAgreement

/-!
# Leaving a program

An exit is passed on by everything around it. From the state in which it is raised on no node is
evaluated and no effect is performed, and the world stays as it is but for the depth, which comes
back to where it was.
-/
namespace EffectTree.Evaluation

/-- Whether nothing recovers from a stop. -/
def Stop.Passes : Stop → Prop
  | .fault _ => False
  | .exit _ | .waiting => True

namespace State

variable {s t : State} {cause : Stop} {w : World}

/-- A stop on its way out, in a world that differs from the given one in nothing but the depth. -/
structure Leaving (cause : Stop) (w : World) (s : State) : Prop where
  focus : s.focus = .stop cause
  world : s.world = { w with depth := s.world.depth }

/-- One step takes a stop that is no fault out of the innermost frame. -/
theorem Leaving.step (hs : s.Leaving cause w) (hcause : cause.Passes) (h : s.step = some t) :
    t.Leaving cause w ∧ ∃ frame, s.frames = frame :: t.frames := by
  obtain ⟨focus, frames, w'⟩ := s
  obtain ⟨rfl, hworld⟩ := hs
  cases frames with
  | nil => cases h
  | cons frame frames =>
    cases frame with
    | leave =>
      cases h
      exact ⟨⟨rfl, congrArg (fun v : World => { v with depth := w'.depth - 1 }) hworld⟩, _, rfl⟩
    | feed | gather | block =>
      cases h
      exact ⟨⟨rfl, hworld⟩, _, rfl⟩
    | rescue =>
      cases cause with
      | fault => exact absurd hcause not_false
      | exit | waiting =>
        cases h
        exact ⟨⟨rfl, hworld⟩, _, rfl⟩

theorem Leaving.reaches (hs : s.Leaving cause w) (hcause : cause.Passes) (h : s.Reaches t) :
    t.Leaving cause w ∧ t.frames <:+ s.frames := by
  induction h with
  | refl => exact ⟨hs, List.suffix_rfl⟩
  | tail _ hstep ih =>
    obtain ⟨hleaving, frame, hframes⟩ := ih.1.step hcause hstep
    exact ⟨hleaving, (hframes ▸ List.suffix_cons frame _).trans ih.2⟩

/-- An evaluation whose end is still to come ends with the stop. -/
theorem Leaving.outcome (hs : s.Leaving cause w) (hcause : cause.Passes) {d : Descriptor}
    {frames : List Frame} {v : World} (h : s.Reaches (.ended frames (evaluate d v))) :
    evaluate d v = .error cause { w with depth := v.depth } := by
  obtain ⟨hfocus, hworld⟩ := (hs.reaches hcause h).1
  have hdepth := (evaluate_stays d v).1
  generalize evaluate d v = r at hfocus hworld hdepth
  cases r with
  | ok key? w' => cases hfocus
  | error cause w' =>
    cases hfocus
    rw [← hdepth]
    exact congrArg _ hworld

end State

/-- Wherever a node is evaluated, the steps lead to the end of its evaluation. -/
theorem evaluate_reaches_ended (d : Descriptor) (frames : List Frame) (w : World) :
    (State.mk (.evaluate d) frames w).Reaches (.ended frames (evaluate d w)) :=
  (evaluateAt_plays _ d frames w rfl).1

def Frame.recovers : Frame → Bool
  | rescue _ => true
  | _ => false

theorem stop_reaches (cause : Stop) {inner : List Frame}
    (hinner : ∀ frame ∈ inner, frame.recovers = true → ∃ code, cause = .exit code)
    (frames : List Frame) (w : World) :
    ∃ w', (State.mk (.stop cause) (inner ++ frames) w).Reaches ⟨.stop cause, frames, w'⟩ := by
  -- On the frames left behind: only `rescue` could keep a stop, and by assumption it meets an exit.
  induction inner generalizing w with
  | nil => exact ⟨w, .refl⟩
  | cons frame inner ih =>
    rw [List.forall_mem_cons] at hinner
    cases frame with
    | leave =>
      obtain ⟨w', h⟩ := ih hinner.2 { w with depth := w.depth - 1 }
      exact ⟨w', .head rfl h⟩
    | rescue =>
      obtain ⟨code, rfl⟩ := hinner.1 rfl
      obtain ⟨w', h⟩ := ih hinner.2 w
      exact ⟨w', .head rfl h⟩
    | feed | gather | block =>
      obtain ⟨w', h⟩ := ih hinner.2 w
      exact ⟨w', .head rfl h⟩

theorem exit_reaches {code : Int} {inner : List Frame} (frames : List Frame) (w : World) :
    ∃ w', (State.mk (.stop (.exit code)) (inner ++ frames) w).Reaches
      ⟨.stop (.exit code), frames, w'⟩ :=
  stop_reaches (.exit code) (fun _ _ _ => ⟨code, rfl⟩) frames w

/-- What comes after a state of the evaluation of a node in which an exit is raised. -/
structure LeavesProgram (node : Descriptor) (w : World) (s : State) (code : Int) : Prop where
  /-- Nothing is evaluated or performed any more, and nothing in the world changes but the depth. -/
  silent : ∀ t, s.Reaches t → t.focus = .stop (.exit code) ∧
    t.world = { s.world with depth := t.world.depth }
  /-- The exit comes out of every frame. -/
  passed : ∀ frames, frames <:+ s.frames → ∃ w', s.Reaches ⟨.stop (.exit code), frames, w'⟩
  /-- A node that began to be evaluated before has been evaluated by then, or its evaluation ends
  with the exit. -/
  calls : ∀ d frames v, State.Reaches ⟨.evaluate d, frames, v⟩ s →
    Relation.TransGen (fun s t => s.step = some t) (.ended frames (evaluate d v)) s ∨
      evaluate d v = .error (.exit code) { s.world with depth := v.depth }
  evaluation : evaluate node w = .error (.exit code) { s.world with depth := w.depth }
  /-- The run adds no more than a log record to that world. -/
  outcome : run node w = (.exited code, { s.world with depth := w.depth }.log
    ⟨.debug, .interpreter, "Program exited with code " ++ Number.intText code⟩)
  exitCode : (run node w).1.exitCode? = some code
  fault : (run node w).1.fault? = none
  status : (run node w).1.status? = some code

/-- A node whose steps pass an exit has been evaluated before, or its evaluation ends with the
exit. -/
theorem State.Leaving.call {s : State} {code : Int} {d : Descriptor} {frames : List Frame}
    {v w : World} (hs : s.Leaving (.exit code) w) (h : State.Reaches ⟨.evaluate d, frames, v⟩ s) :
    Relation.TransGen (fun s t => s.step = some t) (.ended frames (evaluate d v)) s ∨
      evaluate d v = .error (.exit code) { w with depth := v.depth } := by
  rcases Relation.ReflTransGen.total_of_right_unique State.step_rightUnique h
    (evaluate_reaches_ended d frames v)
    with hlater | hearlier
  · exact .inr (hs.outcome trivial hlater)
  · rcases Relation.reflTransGen_iff_eq_or_transGen.mp hearlier with rfl | hearlier
    · exact .inr (hs.outcome trivial .refl)
    · exact .inl hearlier

/-- Nothing holds an exit up, whatever is around it: it ends every evaluation that it is raised in,
and the run. -/
theorem exit_leaves_program {node : Descriptor} {w : World} {s : State} {code : Int}
    (hs : (State.start node w).Reaches s) (hfocus : s.focus = .stop (.exit code)) :
    LeavesProgram node w s code := by
  have hleaving : s.Leaving (.exit code) s.world := ⟨hfocus, rfl⟩
  have hevaluation : evaluate node w = .error (.exit code) { s.world with depth := w.depth } :=
    hleaving.outcome trivial (State.reaches_ended hs)
  have hrun : run node w = (.exited code, { s.world with depth := w.depth }.log
      ⟨.debug, .interpreter, "Program exited with code " ++ Number.intText code⟩) := by
    rw [run, hevaluation]
    rfl
  exact
    { silent := fun t ht => ⟨(hleaving.reaches trivial ht).1.focus,
      (hleaving.reaches trivial ht).1.world⟩
      passed := by
        rintro frames ⟨inner, hinner⟩
        obtain ⟨focus, frames', w'⟩ := s
        cases hfocus
        cases hinner
        exact exit_reaches frames w'
      calls := fun d frames v hv => hleaving.call hv
      evaluation := hevaluation
      outcome := hrun
      exitCode := by rw [hrun]; rfl
      fault := by rw [hrun]; rfl
      status := by rw [hrun]; rfl }

def exitAttempt : List Descriptor := [.effect (.ofStr "Exit") [.literal (.ofInt 7)], .record []]

def lateLine : Descriptor := .effect (.ofStr "Print") [.literal (.ofStr "late")]

/-- The nodes of a block: the exit, and a line of output after it. -/
def leavingBlock : List Descriptor := [.tuple [.effect (.ofStr "Try") exitAttempt, lateLine]]

def leaving : Descriptor := .effect (.ofStr "Do") leavingBlock

def exitRaised : State :=
  ⟨.stop (.exit 7), [.leave, .rescue (some (.record [])), .leave, .block [lateLine] [], .leave],
    ((World.descended {} (.ofStr "Do") leavingBlock).descended (.ofStr "Try") exitAttempt).descended
      (.ofStr "Exit") [.literal (.ofInt 7)]⟩

theorem start_reaches_exitRaised : (State.start leaving {}).Reaches exitRaised :=
  .head rfl (.head rfl (.head rfl (.head rfl (.head rfl (.single rfl)))))

theorem exitRaised_leaves_program : LeavesProgram leaving {} exitRaised 7 :=
  exit_leaves_program start_reaches_exitRaised rfl

end EffectTree.Evaluation
