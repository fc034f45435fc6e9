import EffectTree.Proofs.MalformedArtifacts
import EffectTree.Proofs.RenderingDefects
import EffectTree.Proofs.ResolutionFaults
import EffectTree.Proofs.Waiting

/-!
# Faults inside of a run

A fault that evaluation comes to is recovered from by the frames around it or reported as the
outcome of the run. Only what is done before, which is to write the entry to the log, is not part of
the evaluation: a run has an outcome just if its entry can be rendered and its evaluation does not
wait for ever, and rendering looks at parts that evaluation may never come to.
-/
namespace EffectTree

namespace Evaluation

variable {node : Descriptor} {w : World} {s : State} {e : Fault}

/-- A fault on its way has been raised in a state before. -/
theorem exists_raiser (hs : (State.start node w).Reaches s) (hfocus : s.focus = .stop (.fault e)) :
    ∃ raiser, (State.start node w).Reaches raiser ∧ raiser.Reaches s ∧ raiser.Raises e := by
  induction hs with
  | refl => cases hfocus
  | @tail before after hbefore hstep ih =>
    by_cases hpassed : before.focus = .stop (.fault e) →
        ∃ continuation? frames, before.frames = .rescue continuation? :: frames
    · exact ⟨before, hbefore, .single hstep, ⟨after, hstep, hfocus⟩, hpassed⟩
    · obtain ⟨raiser, hraiser, hreaches, hraises⟩ := ih (Classical.not_imp.mp hpassed).1
      exact ⟨raiser, hraiser, hreaches.tail hstep, hraises⟩

theorem eq_ended_of_step_eq_none (hs : (State.start node w).Reaches s) (hstep : s.step = none) :
    s = .ended [] (evaluate node w) := by
  rcases Relation.ReflTransGen.cases_head (State.reaches_ended hs) with h | ⟨t, ht, -⟩
  · exact h
  · rw [hstep] at ht
    cases ht

theorem fault_reaches (e : Fault) {inner : List Frame}
    (hinner : ∀ frame ∈ inner, frame.recovers = false) (frames : List Frame) (w : World) :
    ∃ w', (State.mk (.stop (.fault e)) (inner ++ frames) w).Reaches
      ⟨.stop (.fault e), frames, w'⟩ := by
  refine stop_reaches (.fault e) (fun frame hframe h => ?_) frames w
  rw [hinner frame hframe] at h
  cases h

theorem run_eq_failed (hs : (State.start node w).Reaches s) (hfocus : s.focus = .stop (.fault e))
    (hframes : ∀ frame ∈ s.frames, frame.recovers = false) : (run node w).1 = .failed e := by
  obtain ⟨focus, frames, w'⟩ := s
  cases hfocus
  obtain ⟨w'', hout⟩ := fault_reaches e hframes [] w'
  rw [List.append_nil] at hout
  have hended := eq_ended_of_step_eq_none (hs.trans hout) rfl
  rw [run]
  cases hevaluate : evaluate node w with
  | ok key? w''' =>
    rw [hevaluate] at hended
    cases hended
  | error cause w''' =>
    rw [hevaluate] at hended
    cases hended
    rfl

/-- A run fails with a fault just if its evaluation comes to it with no frame around that recovers
from it. -/
theorem run_failed_iff : (run node w).1 = .failed e ↔ ∃ s, (State.start node w).Reaches s ∧
    s.focus = .stop (.fault e) ∧ ∀ frame ∈ s.frames, frame.recovers = false := by
  constructor
  · intro h
    refine ⟨_, start_reaches_ended node w, ?_⟩
    rw [run] at h
    cases hevaluate : evaluate node w with
    | ok key? w' =>
      rw [hevaluate] at h
      cases h
    | error cause w' =>
      rw [hevaluate] at h
      cases cause with
      | exit | waiting => cases h
      | fault e' =>
        cases h
        exact ⟨rfl, by simp [State.ended]⟩
  · rintro ⟨s, hs, hfocus, hframes⟩
    exact run_eq_failed hs hfocus hframes

/-- A run goes on for ever just if it comes to a state from which it does not go on. -/
theorem run_waiting_iff :
    (run node w).1 = .waiting ↔ ∃ s, (State.start node w).Reaches s ∧ s.Waits := by
  rw [← evaluate_waits_iff, run]
  cases evaluate node w with
  | ok key? w' => simp [conclude]
  | error cause w' => cases cause <;> simp [conclude]

/-- A fault comes to the innermost frame that recovers from it, which hands its message to the
continuation. -/
theorem fault_recovered (hfocus : s.focus = .stop (.fault e)) {inner outer : List Frame}
    {continuation? : Option Descriptor}
    (hframes : s.frames = inner ++ .rescue continuation? :: outer)
    (hinner : ∀ frame ∈ inner, frame.recovers = false) :
    ∃ w', s.Reaches (.after outer (rescued continuation? e w')) := by
  obtain ⟨focus, frames, w⟩ := s
  cases hfocus
  cases hframes
  obtain ⟨w', hout⟩ := fault_reaches e hinner (.rescue continuation? :: outer) w
  exact ⟨w', hout.tail rfl⟩

theorem State.raises_of_head_error {node' : Descriptor} (hfocus : s.focus = .evaluate node')
    (hdepth : s.world.settings.exceeded s.world.depth = false)
    (hhead : s.world.resolver.head node' = .error e) :
    s.Raises e := by
  obtain ⟨focus, frames, w⟩ := s
  cases hfocus
  have heffect : w.resolver.effectOf node' = .error e := by
    rw [Resolver.effectOf, hhead]
    rfl
  exact ⟨⟨_, congrArg (fun r => some (after frames r)) (arrive_of_error hdepth heffect), rfl⟩,
    fun h => by cases h⟩

/-- What becomes of the faults in an evaluation. -/
structure Contained (node : Descriptor) (w : World) : Prop where
  /-- A node that cannot be resolved is a fault when evaluation comes to it. -/
  unresolved : ∀ s node' e, (State.start node w).Reaches s → s.focus = .evaluate node' →
    s.world.settings.exceeded s.world.depth = false → s.world.resolver.head node' = .error e →
      s.Raises e
  /-- A fault of resolution has been raised in a state that evaluation has come to and that missed
  an answer about a descriptor it had to do with. -/
  raised : ∀ s e, (State.start node w).Reaches s → s.focus = .stop (.fault e) →
    e.kind = .resolution →
    ∃ raiser, (State.start node w).Reaches raiser ∧ raiser.Reaches s ∧ raiser.Raises e ∧
      raiser.Misses e
  /-- The program recovers from it where it says so. -/
  recovered : ∀ s e inner continuation? outer, (State.start node w).Reaches s →
    s.focus = .stop (.fault e) →
    s.frames = inner ++ .rescue continuation? :: outer → (∀ frame ∈ inner, frame.recovers = false) →
      ∃ w', s.Reaches (.after outer (rescued continuation? e w'))
  /-- All other faults are outcomes of the run, and the run fails with nothing else. -/
  failed : ∀ e, (run node w).1 = .failed e ↔ ∃ s, (State.start node w).Reaches s ∧
    s.focus = .stop (.fault e) ∧
    ∀ frame ∈ s.frames, frame.recovers = false

theorem contained (node : Descriptor) (w : World) : Contained node w where
  unresolved _ _ _ _ := State.raises_of_head_error
  raised _ _ hs hfocus hkind := by
    obtain ⟨raiser, hraiser, hreaches, hraises⟩ := exists_raiser hs hfocus
    exact ⟨raiser, hraiser, hreaches, hraises, hraises.misses hkind⟩
  recovered _ _ _ _ _ _ hfocus := fault_recovered hfocus
  failed _ := run_failed_iff

end Evaluation

namespace Invocation

open Evaluation Resolution

variable (i : Invocation) (files : Files) (artifact : Artifact) (settings : Settings)

def resolver : Resolver := { definitions := artifact.definitions }

def loaded : World :=
  ({ argv := i.argv, environ := i.environ, input := i.input, files, resolver := resolver artifact
     fixtures := { i.fixtures with entry := artifact.entry.shown } } : World).log
       artifact.loadedRecord

/-- The world in which the entry is evaluated, with the text of the entry in its log. -/
def ready (text : Value) : World :=
  { (i.loaded files artifact).log ⟨.debug, .run, "Entry point: " ++ text.display⟩ with settings }

def entryView : View := ⟨(resolver artifact).nesting, [], artifact.entry⟩

variable {i files artifact settings}

theorem render_entryView :
    (entryView artifact).render (resolver artifact) = (resolver artifact).render artifact.entry :=
  rfl

theorem run_of_render_error {e : Fault}
    (hload : Artifact.load files i.modules i.path Artifact.entryName = .ok artifact)
    (hrender : (entryView artifact).render (resolver artifact) = .error e) :
    i.run files = (.error e, i.loaded files artifact) := by
  rw [run, hload]
  dsimp only
  split
  · next e' he' =>
    cases hrender.symm.trans he'
    rfl
  · next text htext => cases hrender.symm.trans htext

theorem run_of_render_ok {text : Value}
    (hload : Artifact.load files i.modules i.path Artifact.entryName = .ok artifact)
    (hrender : (entryView artifact).render (resolver artifact) = .ok text)
    (hsettings : i.settings.elim (Settings.ofEnviron i.processEnviron) .ok = .ok settings) :
    i.run files = i.evaluateEntry artifact.entry (i.ready files artifact settings text) := by
  rw [run, hload, hsettings]
  dsimp only
  split
  · next e he => cases hrender.symm.trans he
  · next text' htext' =>
    cases hrender.symm.trans htext'
    rfl

/-- The line in which a fault is reported. -/
def faultLine (o : Outcome) : String := o.fault?.elim "" fun e => "Error: " ++ e.message ++ "\n"

theorem diagnostics_report (o : Outcome) (w : World) :
    (i.report o w).close.transcript.diagnostics = w.transcript.diagnostics ++ faultLine o := by
  cases o with
  | failed e => simp [report, Outcome.fault?, World.close, World.log, World.note, faultLine]
  | finished | exited | waiting =>
    simp [report, Outcome.fault?, World.close, World.log, World.note, faultLine]

/-- Evaluating the entry has the outcome of its evaluation, and a fault is reported. -/
theorem evaluateEntry_eq (hdump : i.dumpResults = false) (entry : Descriptor) (w : World) :
    (i.evaluateEntry entry w).1 = .ok (Evaluation.run entry w).1 ∧
      (i.evaluateEntry entry w).2.transcript.diagnostics =
        (Evaluation.run entry w).2.transcript.diagnostics ++ faultLine
          (Evaluation.run entry w).1 := by
  unfold evaluateEntry
  generalize Evaluation.run entry w = ended
  obtain ⟨o, w'⟩ := ended
  cases o with
  | waiting => exact ⟨rfl, (String.append_empty).symm⟩
  | finished | failed | exited =>
    simp only [dump, hdump, Bool.false_eq_true, if_false]
    exact ⟨trivial, diagnostics_report _ _⟩

/-- What a run of an artifact comes to. -/
structure Containment (i : Invocation) (files : Files) (artifact : Artifact) (settings : Settings) :
    Prop where
  /-- The run returns with an outcome just if nothing has a defect that rendering the entry comes
  to, and evaluating it does not wait for ever. -/
  returns : (∃ o, (i.run files).1 = .ok o ∧ o ≠ .waiting) ↔
    (∀ v e, Visits (resolver artifact) (entryView artifact) v → ¬ Defect (resolver artifact) v e) ∧
      ∀ text s, (entryView artifact).render (resolver artifact) = .ok text →
        (State.start artifact.entry (i.ready files artifact settings text)).Reaches s → ¬ s.Waits
  /-- It raises a fault only if there is such a defect, and then nothing has been evaluated. -/
  escapes : ∀ e, (i.run files).1 = .error e → (i.run files).2 = i.loaded files artifact ∧
    ∃ v, Visits (resolver artifact) (entryView artifact) v ∧ Defect (resolver artifact) v e
  /-- The outcome is that of the evaluation, which keeps its faults inside; a fault has a status and
  a line of its own. -/
  evaluates : ∀ o, (i.run files).1 = .ok o →
    ∃ text, (entryView artifact).render (resolver artifact) = .ok text ∧
    Contained artifact.entry (i.ready files artifact settings text) ∧
    (Evaluation.run artifact.entry (i.ready files artifact settings text)).1 = o ∧
    (i.run files).2.transcript.diagnostics =
      (Evaluation.run artifact.entry
        (i.ready files artifact settings text)).2.transcript.diagnostics ++ faultLine o ∧
    ∀ e, o = .failed e → o.status? = some 1 ∧ faultLine o = "Error: " ++ e.message ++ "\n"

/-- A run of an artifact that is loaded keeps all faults inside but those of rendering its entry for
the log. -/
theorem run_contains_faults_iff
    (hload : Artifact.load files i.modules i.path Artifact.entryName = .ok artifact)
    (hsettings : i.settings.elim (Settings.ofEnviron i.processEnviron) .ok = .ok settings)
    (hdump : i.dumpResults = false) : Containment i files artifact settings := by
  cases hrender : (entryView artifact).render (resolver artifact) with
  | error e =>
    have hrun := run_of_render_error hload hrender
    obtain ⟨v, hvisits, hdefect⟩ := exists_defect hrender
    refine ⟨⟨?_, fun h => absurd hdefect (h.1 v e hvisits)⟩, ?_, ?_⟩
    · rintro ⟨o, ho, -⟩
      rw [hrun] at ho
      cases ho
    · intro e' he'
      rw [hrun] at he' ⊢
      cases he'
      exact ⟨rfl, v, hvisits, hdefect⟩
    · intro o ho
      rw [hrun] at ho
      cases ho
  | ok text =>
    obtain ⟨hentry, hdiagnostics⟩ :=
      evaluateEntry_eq hdump artifact.entry (i.ready files artifact settings text)
    rw [← run_of_render_ok hload hrender hsettings] at hentry hdiagnostics
    have hwaiting : (Evaluation.run artifact.entry (i.ready files artifact settings text)).1 =
        .waiting ↔ _ :=
      run_waiting_iff
    refine ⟨⟨?_, ?_⟩, ?_, ?_⟩
    · rintro ⟨o, ho, hends⟩
      cases hentry.symm.trans ho
      refine ⟨renders_iff.mp ⟨text, hrender⟩, fun text' s htext hs hwaits => ?_⟩
      cases hrender.symm.trans htext
      exact hends (hwaiting.mpr ⟨s, hs, hwaits⟩)
    · rintro ⟨-, hanswered⟩
      refine ⟨_, hentry, fun hends => ?_⟩
      obtain ⟨s, hs, hwaits⟩ := hwaiting.mp hends
      exact hanswered text s hrender hs hwaits
    · intro e he
      cases hentry.symm.trans he
    · intro o ho
      cases hentry.symm.trans ho
      refine ⟨text, hrender, contained _ _, rfl, hdiagnostics, fun e he => ?_⟩
      rw [he]
      exact ⟨rfl, rfl⟩

/-- An artifact that recovers from faults of a node which has none, with a handler that is never
asked for. -/
def unreached : Files :=
  { nodes := [(["p"], .file (Text.utf8Encode
    "\x7b\"main\": \x7b\"$effect\": \"Try\", \"args\": [\x7b\"$effect\": \"Pure\", \"args\": [1]\x7d, \x7b\"$ref\": \"Missing\"\x7d]\x7d\x7d"))] }

def unreachedDocument : Value :=
  .dict [Artifact.memberOf "main" (.dict [Artifact.memberOf "$effect" (.str "Try" (.placed 2)),
    Artifact.memberOf "args" (.list [.dict [Artifact.memberOf "$effect" (.str "Pure" (.placed 5)),
      Artifact.memberOf "args" (.list [.ofInt 1] (.placed 6))] (.placed 4),
      .dict [Artifact.memberOf "$ref" (.str "Missing" (.placed 8))] (.placed 7)] (.placed 3))]
        (.placed 1))] (.placed 0)

def unreachedEntry : Descriptor :=
  .effect (.str "Try" (.placed 2))
    [.effect (.str "Pure" (.placed 5)) [.literal (.ofInt 1)], .ref (.str "Missing" (.placed 8))]

def unreachedArtifact : Artifact where
  path := (FilePath.parse "p").resolved unreached.root
  entry := unreachedEntry
  definitions := []

theorem readDocument_unreached :
    Artifact.readDocument unreached (.parse "p") = .ok unreachedDocument := by
  rw [Artifact.parse_name]
  exact Artifact.readDocument_eq_of_same (by decide +kernel)

theorem isDocument_unreached : Artifact.IsDocument unreached "p" := by
  rw [Artifact.IsDocument, Artifact.parse_name]
  decide +kernel

theorem load_unreached : Artifact.load unreached .none "p" Artifact.entryName =
    .ok unreachedArtifact := by
  rw [Artifact.load_eq_ofDocument isDocument_unreached readDocument_unreached]
  simp [Artifact.ofDocument, unreachedDocument, Artifact.entryName, Artifact.decode,
    Artifact.decodeArgs_eq,
    Artifact.argumentsIn, Artifact.decodeItems]
  rfl

theorem resolver_unreached : resolver unreachedArtifact = {} := rfl

theorem entry_unreached : unreachedArtifact.entry = unreachedEntry := rfl

theorem render_unreached :
    ({} : Resolver).render unreachedEntry =
    .error (.unknownDefinition (.str "Missing" (.placed 8))) :=
  rfl

theorem entryView_unreached : (entryView unreachedArtifact).render (resolver unreachedArtifact) =
    .error (.unknownDefinition (.str "Missing" (.placed 8))) := by
  rw [render_entryView, resolver_unreached, entry_unreached, render_unreached]

def unreachedRun : Invocation := { path := "p", settings := some {} }

theorem run_unreached : unreachedRun.run unreached =
    (.error (.unknownDefinition (.str "Missing" (.placed 8))),
      unreachedRun.loaded unreached unreachedArtifact) :=
  run_of_render_error load_unreached entryView_unreached

/-- Evaluating the entry would end with a result, but rendering it comes to the handler. -/
theorem unreached_escapes : (unreachedRun.run unreached).1 =
    .error (.unknownDefinition (.str "Missing" (.placed 8))) ∧
    (∃ v e, Visits (resolver unreachedArtifact) (entryView unreachedArtifact) v ∧
      Defect (resolver unreachedArtifact) v e) ∧
    (Evaluation.run unreachedArtifact.entry (unreachedRun.loaded unreached unreachedArtifact)).1 =
      .finished (some "00000000-0000-0000-0000-000000000001") := by
  have hcontained : Containment unreachedRun unreached unreachedArtifact {} :=
    run_contains_faults_iff load_unreached rfl rfl
  have hrun := congrArg Prod.fst run_unreached
  obtain ⟨-, v, hvisits, hdefect⟩ := hcontained.escapes _ hrun
  exact ⟨hrun, ⟨v, _, hvisits, hdefect⟩, by rfl⟩

/-- A run of an artifact that is loaded, with settings and without writing the results, need not
return. -/
theorem run_not_contained :
    ¬ ∀ (i : Invocation) (files : Files) (artifact : Artifact) (settings : Settings),
    Artifact.load files i.modules i.path Artifact.entryName = .ok artifact →
    i.settings.elim (Settings.ofEnviron i.processEnviron) .ok = .ok settings →
      i.dumpResults = false →
      ∃ o, (i.run files).1 = .ok o := by
  intro h
  obtain ⟨o, ho⟩ := h unreachedRun unreached unreachedArtifact {} load_unreached rfl rfl
  rw [run_unreached] at ho
  cases ho

end Invocation

end EffectTree
