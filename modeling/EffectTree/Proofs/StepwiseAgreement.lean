import EffectTree.Proofs.DisciplinedSteps

/-!
# Agreement of the steps with evaluation

The steps from a node lead to the state in which its evaluation has ended, with the same outcome and
the same world, whatever frames are around it. Each machine between two nodes is matched with the
part of evaluation that it stands for; the matches compose like the machines do.
-/
namespace EffectTree

open Evaluation

namespace Discipline

theorem lenient_allows {keys : Set String} (d : Descriptor) : lenient.Allows keys d :=
  fun _ _ => trivial

theorem lenient_admits (e : Fault) : lenient.Admits e := by
  intro hsettled
  obtain ⟨name, mark, hkey, -⟩ := hsettled ∅ .null trivial
  cases hkey

theorem lenient_bears (cause : Stop) : lenient.Bears cause := by
  cases cause with
  | fault e => exact lenient_admits e
  | exit | waiting => trivial

theorem lenient_binds (handler : Handler) : lenient.Binds handler := by
  intro keys args c
  constructor
  · intro request _
    cases request with
    | addResult d | addCell d | setCell _ d => exact lenient_allows d
    | _ => trivial
  · cases (handler.call args c).answer with
    | error cause => exact lenient_bears cause
    | ok product =>
      cases product with
      | value v => trivial
      | descriptor d => exact lenient_allows d

theorem lenient_holds (w : World) : lenient.Holds w :=
  ⟨fun _ _ => lenient_allows _, fun _ _ => lenient_allows _, fun _ _ => lenient_allows _,
    fun _ _ => lenient_binds _⟩

end Discipline

namespace Evaluation

open Discipline

/-- The number of levels that an evaluation may still go down. -/
def World.remaining (w : World) : Nat := w.settings.levels - w.depth

def Call.node : Call → Descriptor
  | .evaluate node => node
  | .run node => node

namespace State

abbrev Reaches : State → State → Prop := Relation.ReflTransGen fun s t => s.step = some t

/-- Whether a state comes to its end in fewer steps than the given number, and all states up to
there are of one kind. -/
def allAhead (p : State → Bool) : Nat → State → Bool
  | 0, _ => false
  | n + 1, s => p s && s.step.all (allAhead p n)

theorem of_allAhead {p : State → Bool} {n : Nat} {s t : State} (h : s.allAhead p n = true)
    (ht : s.Reaches t) :
    p t = true := by
  induction n generalizing s with
  | zero => cases h
  | succ n ih =>
    simp only [allAhead, Bool.and_eq_true] at h
    rcases ht.cases_head with rfl | ⟨u, hstep, ht⟩
    · exact h.1
    · have hrest := h.2
      rw [hstep] at hrest
      exact ih hrest ht

end State

/-- The steps after a machine end as a part of evaluation does, at the depth at which it has
begun. -/
def Plays (frames : List Frame) (moving : Machine Move) (m : Machine (Option String)) (w : World) :
    Prop :=
  (State.after frames (moving w)).Reaches (.ended frames (m w)) ∧ lenient.Yields m w

namespace Plays

variable {frames : List Frame} {w : World}

theorem remaining_eq {w' : World} (h : lenient.Follows w w') (hdepth : w'.depth = w.depth) :
    w'.remaining = w.remaining := by
  rw [World.remaining, World.remaining, h.settings, hdepth]

theorem remaining {α : Type} {P : α → World → Prop} {m : Machine α} (hm : lenient.Runs P m w) :
    lenient.Runs (fun a w' => P a w' ∧ w'.remaining = w.remaining) m w := by
  unfold Runs at hm ⊢
  split at hm
  · exact ⟨hm.1, hm.2.1, hm.2.2, remaining_eq hm.1 hm.2.1⟩
  · exact hm

theorem finish {key? : Option String} (hkey : ∀ key ∈ key?, key ∈ w.known) :
    Plays frames (pure (.finish key?, [])) (pure key?) w :=
  ⟨.refl, .done (lenient_holds w) hkey⟩

theorem stop (cause : Stop) : Plays frames (pure (.stop cause, [])) (throw cause) w :=
  ⟨.refl, .stop (lenient_holds w) (lenient_bears cause)⟩

theorem bind {α : Type} {P : α → World → Prop} {m : Machine α} {f : α → Machine Move}
    {f' : α → Machine (Option String)} (hm : lenient.Runs P m w)
    (hf : ∀ a w', lenient.Follows w w' → w'.remaining = w.remaining → P a w' →
      Plays frames (f a) (f' a) w') :
    Plays frames (m >>= f) (m >>= f') w := by
  have hm := remaining hm
  refine ⟨?_, hm.bind fun a w' hfollows ha => (hf a w' hfollows ha.2 ha.1).2⟩
  unfold Runs at hm
  cases h : m w with
  | ok a w' =>
    rw [h] at hm
    rw [bind_of_ok h, bind_of_ok h]
    exact (hf a w' hm.1 hm.2.2.2 hm.2.2.1).1
  | error cause w' =>
    rw [bind_of_error h, bind_of_error h]
    exact .refl

theorem finishing {m : Machine (Option String)} (hm : lenient.Yields m w) :
    Plays frames (finishing m) m w := by
  have h : Plays frames (Evaluation.finishing m) (m >>= pure) w :=
    bind hm fun _ _ _ _ hkey => finish hkey
  rwa [bind_pure] at h

/-- What is around a node goes on where the node has ended, but only with a result. -/
theorem framed {frame : Frame} {focus : Focus} {m : Machine (Option String)}
    {f : Option String → Machine (Option String)}
    (hm : Plays (frame :: frames) (pure (focus, [])) m w)
    (hstop : ∀ cause, unwind cause frame = pure (.stop cause, []))
    (hf : ∀ key? w', lenient.Follows w w' → w'.remaining = w.remaining →
      (∀ key ∈ key?, key ∈ w'.known) →
      Plays frames (resume key? frame) (f key?) w') :
    Plays frames (pure (focus, [frame])) (m >>= f) w := by
  obtain ⟨hreaches, hm⟩ := hm
  have hm := remaining hm
  refine ⟨hreaches.trans ?_, hm.bind fun key? w' hfollows hkey =>
    (hf key? w' hfollows hkey.2 hkey.1).2⟩
  unfold Runs at hm
  -- A key comes back to the frame, which goes on with it; a stop passes the frame by.
  cases h : m w with
  | ok key? w' =>
    rw [h] at hm
    rw [bind_of_ok h]
    exact .head rfl (hf key? w' hm.1 hm.2.2.2 hm.2.2.1).1
  | error cause w' =>
    rw [bind_of_error h]
    refine .single ?_
    change some (State.after frames (unwind cause frame w')) = _
    rw [hstop]
    rfl

/-- Recovering goes on with a result as it is, and hands the message of a fault on. -/
theorem rescuing {continuation? : Option Descriptor} {focus : Focus} {m : Machine (Option String)}
    {handle : Fault → Machine (Option String)}
    (hm : Plays (.rescue continuation? :: frames) (pure (focus, [])) m w)
    (hhandle : ∀ e w', w'.remaining = w.remaining →
      Plays frames (rescued continuation? e) (handle e) w') :
    Plays frames (pure (focus, [.rescue continuation?])) (m.orElseFault handle) w := by
  obtain ⟨hreaches, hm⟩ := hm
  refine ⟨hreaches.trans ?_, hm.orElseFault fun e w' hfollows hdepth _ => ?_⟩
  · unfold Machine.orElseFault
    unfold Yields Runs at hm
    cases h : m w with
    | ok key? w' => exact .single rfl
    | error cause w' =>
      rw [h] at hm
      cases cause with
      | exit | waiting => exact .single rfl
      | fault e => exact .head rfl (hhandle e w' (remaining_eq hm.1 hm.2.1)).1
  · exact (hhandle e w' (remaining_eq hfollows hdepth)).2

end Plays

theorem resolve_runs {α : Type} (question : Resolver → Except Fault α) (w : World) :
    lenient.Runs (fun _ _ => True) (Machine.resolve question) w := by
  refine .resolve (lenient_holds w) ?_
  cases question w.resolver with
  | ok a => trivial
  | error e => exact lenient_admits e

section Control

variable {levels : Nat} (heval : ∀ d frames (w : World), w.remaining = levels →
  Plays frames (pure (.evaluate d, [])) (evaluateAt levels d) w)
include heval

section Frames

variable {frames : List Frame} {w : World} (hw : w.remaining = levels)
include hw

theorem handOver_plays (continuation input : Descriptor) :
    Plays frames (handOver continuation input)
      (continueWith (evaluateAt levels) continuation input) w := by
  refine .bind (resolve_runs _ w) fun resolved w₁ _ h₁ _ => ?_
  refine .bind (Runs.store (lenient_holds w₁) (lenient_allows resolved)) fun _ w₂ _ h₂ _ => ?_
  refine .bind (resolve_runs _ w₂) fun next? w₃ _ h₃ _ => ?_
  cases next? with
  | some next => exact heval next frames w₃ ((h₃.trans (h₂.trans h₁)).trans hw)
  | none =>
    refine .bind (resolve_runs _ w₃) fun text w₄ _ _ _ => ?_
    refine .bind (Runs.note (lenient_holds w₄) _) fun _ w₅ _ _ _ => ?_
    exact .finish (by simp)

theorem feed_plays (continuation? : Option Descriptor) {key? : Option String}
    (hkey : ∀ key ∈ key?, key ∈ w.known) :
    Plays frames (resume key? (.feed continuation?))
      (match continuation? with
        | none => pure none
        | some continuation =>
          do continueWith (evaluateAt levels) continuation (← inputFor key?)) w := by
  cases continuation? with
  | none => exact .finish (by simp)
  | some continuation =>
    exact .bind (inputFor_runs (lenient_holds w) hkey) fun input w' _ h _ =>
      handOver_plays heval (h.trans hw) _ input

theorem bind_plays (input? continuation? : Option Descriptor) :
    Plays frames (pure (input?.elim (.finish none) .evaluate, [.feed continuation?]))
      (bind (evaluateAt levels) input? continuation?) w := by
  have hinput : Plays (.feed continuation? :: frames)
      (pure (input?.elim (.finish none) .evaluate, []))
      (evaluateOptional (evaluateAt levels) input?) w := by
    cases input? with
    | none => exact .finish (by simp)
    | some d => exact heval d _ w hw
  exact .framed hinput (fun _ => rfl) fun key? w' _ h hkey =>
    feed_plays heval (h.trans hw) continuation? hkey

theorem recover_plays (body? continuation? : Option Descriptor) :
    Plays frames (pure (body?.elim (.stop (.fault (.refused "Try has no body"))) .evaluate,
      [.rescue continuation?]))
      (recover (evaluateAt levels) body? continuation?) w := by
  refine .rescuing ?_ fun e w' h => ?_
  · cases body? with
    | none => exact .stop _
    | some d => exact heval d _ w hw
  · refine .bind (Runs.note (lenient_holds w') _) fun _ w'' _ h' _ => ?_
    cases continuation? with
    | none => exact .finish (by simp)
    | some continuation => exact handOver_plays heval (h'.trans (h.trans hw)) _ _

end Frames

/-- Several nodes one after another: the keys found before are kept in the frame. -/
theorem collect_plays {frame : List Descriptor → List String → Frame}
    {combine : List String → Machine (Option String)}
    (hresume : ∀ key? rest keys, resume key? (frame rest keys) =
      proceed frame combine rest (keys ++ key?.toList))
    (hunwind : ∀ cause rest keys, unwind cause (frame rest keys) = pure (.stop cause, []))
    (hcombine : ∀ keys w, (∀ key ∈ keys, key ∈ w.known) → lenient.Yields (combine keys) w)
    {frames : List Frame}
    (nodes : List Descriptor) {keys : List String} {w : World} (hw : w.remaining = levels)
    (hkeys : ∀ key ∈ keys, key ∈ w.known) :
    Plays frames (proceed frame combine nodes keys)
      (evaluateAll (evaluateAt levels) nodes >>= fun more => combine (keys ++ more)) w := by
  induction nodes generalizing keys w with
  | nil =>
    rw [evaluateAll, pure_bind, List.append_nil]
    exact .finishing (hcombine keys w hkeys)
  | cons d rest ih =>
    simp only [evaluateAll, bind_assoc, pure_bind]
    refine .framed (heval d _ w hw) (hunwind · rest keys) fun key? w' hfollows h hkey => ?_
    simp only [hresume, ← List.append_assoc]
    refine ih (h.trans hw) fun key hmem => ?_
    exact (List.mem_append.mp hmem).elim (fun h => hfollows.known (hkeys key h))
      (by simpa using hkey key)

theorem begin_plays {frames : List Frame} {w : World} (hw : w.remaining = levels) (effect : Control)
    (args : List Descriptor) :
    Plays frames (begin args effect) (runControl (evaluateAt levels) effect args) w := by
  have hmembers : lenient.Runs (fun nodes w' => ∀ d ∈ nodes, lenient.Allows w'.known d)
      (members args[0]?) w :=
    members_runs (lenient_holds w) fun d _ => lenient_allows d
  cases effect with
  | bind => exact bind_plays heval hw _ _
  | recover => exact recover_plays heval hw _ _
  | gather =>
    exact .bind hmembers fun nodes w' _ h _ => collect_plays heval (fun _ _ _ => rfl)
      (fun _ _ _ => rfl)
      (fun _ w hkeys => gathered_yields (lenient_holds w) hkeys) nodes (h.trans hw) (by simp)
  | block =>
    exact .bind hmembers fun nodes w' _ h _ => collect_plays heval (fun _ _ _ => rfl)
      (fun _ _ _ => rfl)
      (fun _ w hkeys => lastOf_yields (lenient_holds w) hkeys) nodes (h.trans hw) (by simp)

theorem act_plays {frames : List Frame} {w : World} (hw : w.remaining = levels) (node : Descriptor)
    (tag : Value) (args : List Descriptor) :
    Plays frames (act node tag args) (dispatch (evaluateAt levels) node tag args) w := by
  have hargs {keys : Set String} : ∀ d ∈ args, lenient.Allows keys d := fun d _ => lenient_allows d
  have hlift {α : Type} (r : Except Fault α) (w : World) :
      lenient.Runs (fun _ _ => True) (Machine.lift r) w :=
    resolve_runs (fun _ => r) w
  refine .bind (hlift _ w) fun _ w₁ _ h₁ _ => ?_
  generalize Opcode.ofTag? tag = opcode?
  rcases opcode? with - | effect | effect
  · refine .bind (Runs.state (lenient_holds w₁)) fun _ w₂ _ _ _ =>
      .bind (hlift _ w₂) fun custom w₃ _ _ _ => ?_
    cases custom with
    | true => exact .finishing (runCustom_yields (lenient_holds w₃) tag hargs)
    | false => exact .finishing (unhandled_yields (lenient_holds w₃) (lenient_allows node) tag)
  · exact begin_plays heval (h₁.trans hw) effect args
  · exact .finishing (runLeaf_yields (lenient_holds w₁) effect hargs)

end Control

section Enter

variable {w : World} {node : Descriptor} {inside : Value → List Descriptor →
    Machine (Option String)}

theorem enter_of_exceeded (h : w.settings.exceeded w.depth = true) :
    enter node inside w = .error (.fault (.depthExceeded w.settings.maxDepth)) w := by
  rw [enter, get_bind, if_pos h]
  rfl

theorem enter_of_error {e : Fault} (h : w.settings.exceeded w.depth = false)
    (heffect : w.resolver.effectOf node = .error e) :
    enter node inside w = .error (.fault e) w := by
  rw [enter, get_bind, if_neg (by simp [h])]
  exact bind_of_error (resolve_of_error heffect)

theorem enter_of_ok {tag : Value} {args : List Descriptor} (h : w.settings.exceeded w.depth = false)
    (heffect : w.resolver.effectOf node = .ok (tag, args)) :
    enter node inside w = Machine.nested (inside tag args) (w.found tag args) := by
  have hfound : Machine.resolve (·.effectOf node) w = .ok (tag, args) w := resolve_of_ok heffect
  rw [enter, get_bind, if_neg (by simp [h])]
  exact bind_of_ok hfound

end Enter

/-- Coming back up leads from the end of what is inside to the end of the effect. -/
theorem leave_reaches {frames : List Frame} {w : World} {m : Machine (Option String)} {s : State}
    (h : s.Reaches (.ended (.leave :: frames) (m { w with depth := w.depth + 1 }))) :
    s.Reaches (.ended frames (Machine.nested m w)) := by
  refine h.tail ?_
  unfold Machine.nested
  cases m { w with depth := w.depth + 1 } <;> rfl

/-- A node is evaluated by performing its effect one level further down, inside of the frame that
comes back up. -/
theorem enter_plays {frames : List Frame} {w : World} {node : Descriptor}
    {inside : Value → List Descriptor → Machine (Option String)}
    (hinside : ∀ tag args,
      (State.mk (.perform node tag args) (.leave :: frames) (w.descended tag args)).Reaches
        (.ended (.leave :: frames) (inside tag args (w.descended tag args))) ∧
      lenient.Yields (inside tag args) (w.descended tag args)) :
    Plays frames (pure (.evaluate node, [])) (enter node inside) w := by
  have hholds := lenient_holds w
  have hstep {t : State} (h : State.after frames (arrive node w) = t) :
      (State.mk (.evaluate node) frames w).step = some t := congrArg some h
  have hfails {cause : Stop} (harrive : arrive node w = .error cause w)
      (henter : enter node inside w = .error cause w) :
      Plays frames (pure (.evaluate node, [])) (enter node inside) w := by
    refine ⟨.single ?_, .of_follows (.refl hholds) rfl (.stop hholds (lenient_bears cause)) henter⟩
    rw [henter]
    exact hstep (congrArg (State.after frames) harrive)
  cases hdepth : w.settings.exceeded w.depth with
  | true => exact hfails (arrive_of_exceeded hdepth) (enter_of_exceeded hdepth)
  | false =>
    cases heffect : w.resolver.effectOf node with
    | error e => exact hfails (arrive_of_error hdepth heffect) (enter_of_error hdepth heffect)
    | ok effect =>
      obtain ⟨tag, args⟩ := effect
      obtain ⟨hreaches, hyields⟩ := hinside tag args
      have henter : enter node inside w = Machine.nested (inside tag args) (w.found tag args) :=
        enter_of_ok hdepth heffect
      refine ⟨?_, .of_follows (.note hholds _) rfl (.nested (lenient_holds _) hyields) henter⟩
      rw [henter]
      exact .head (hstep (congrArg (State.after frames) (arrive_of_ok hdepth heffect)))
        (leave_reaches hreaches)

/-- The steps from a node lead to the end of its evaluation; where no level remains for its effect,
both stop. -/
theorem evaluateAt_plays (levels : Nat) (node : Descriptor) (frames : List Frame) (w : World)
    (hw : w.remaining = levels) :
    Plays frames (pure (.evaluate node, [])) (evaluateAt levels node) w := by
  have hdeep (tag : Value) (args : List Descriptor) :
      (State.mk (.perform node tag args) (.leave :: frames) (w.descended tag args)).tooDeep =
        decide (w.settings.levels < w.depth + 1) := rfl
  induction levels generalizing node frames w with
  | zero =>
    refine enter_plays fun tag args => ⟨.single ?_, .stop (lenient_holds _) (lenient_admits _)⟩
    rw [State.step, hdeep, if_pos
      (by simpa [World.remaining] using Nat.lt_succ_of_le (Nat.sub_eq_zero_iff_le.mp hw))]
    rfl
  | succ levels ih =>
    refine enter_plays fun tag args => ?_
    have hbelow : (w.descended tag args).remaining = levels := by
      change w.settings.levels - (w.depth + 1) = levels
      rw [World.remaining] at hw
      omega
    obtain ⟨hreaches, hyields⟩ :=
      act_plays (fun d frames w hw => ih d frames w hw fun _ _ => rfl) hbelow node tag args
    refine ⟨.head ?_ hreaches, hyields⟩
    rw [State.step, hdeep, if_neg]
    · rfl
    · rw [World.remaining] at hw
      simp
      omega

theorem start_reaches_ended (node : Descriptor) (w : World) :
    (State.start node w).Reaches (.ended [] (evaluate node w)) :=
  (evaluateAt_plays _ node [] w rfl).1

theorem evaluate_stays (node : Descriptor) (w : World) :
    (worldAfter (evaluate node w)).depth = w.depth ∧ (worldAfter (evaluate node w)).settings =
    w.settings := by
  have h := (evaluateAt_plays _ node [] w rfl).2.worldAfter
  exact ⟨h.2, h.1.settings⟩

theorem State.ended_world (frames : List Frame) (r : EStateM.Result Stop World (Option String)) :
    (State.ended frames r).world = worldAfter r := by
  cases r <;> rfl

theorem State.step_rightUnique : Relator.RightUnique fun s t : State => s.step = some t :=
  fun _ _ _ ht hu => Option.some.inj (ht.symm.trans hu)

theorem State.ended_step (r : EStateM.Result Stop World (Option String)) :
    (State.ended [] r).step = none := by
  cases r <;> rfl

theorem State.reaches_ended {node : Descriptor} {w : World} {s : State}
    (h : (State.start node w).Reaches s) :
    s.Reaches (.ended [] (evaluate node w)) := by
  rcases Relation.ReflTransGen.total_of_right_unique step_rightUnique h (start_reaches_ended node w)
    with hlater | hearlier
  · exact hlater
  · rcases Relation.ReflTransGen.cases_head hearlier with rfl | ⟨t, hstep, -⟩
    · exact .refl
    · rw [ended_step] at hstep
      cases hstep

end Evaluation

namespace Discipline

variable {D : Discipline} {w : World}

theorem Valid.reaches {s t : State} (hs : D.Valid s) (h : s.Reaches t) :
    D.Follows s.world t.world ∧ D.Valid t := by
  induction h with
  | refl => exact ⟨.refl hs.holds, hs⟩
  | tail _ hstep ih =>
    obtain ⟨hfollows, hvalid⟩ := ih.2.step hstep
    exact ⟨ih.1.trans hfollows, hvalid⟩

theorem evaluate_follows {node : Descriptor} (hw : D.Holds w) (hnode : D.Allows w.known node) :
    D.Follows w (worldAfter (evaluate node w)) := by
  have h := (Valid.start hw hnode).reaches (start_reaches_ended node w)
  rw [State.ended_world] at h
  exact h.1

theorem run_follows {node : Descriptor} (hw : D.Holds w) (hnode : D.Allows w.known node) :
    D.Follows w (run node w).2 := by
  have h := evaluate_follows hw hnode
  rw [run]
  rcases conclude_world (evaluate node w) with heq | ⟨message, heq⟩
  · rwa [heq]
  · rw [heq]
    exact h.trans (.note h.holds _)

theorem after_follows {call : Call} (hw : D.Holds w) (hcall : D.Allows w.known call.node) :
    D.Follows w (w.after call) := by
  cases call with
  | evaluate node => exact evaluate_follows hw hcall
  | run node => exact run_follows hw hcall

theorem afterAll_follows {calls : List Call} (hw : D.Holds w)
    (hcalls : ∀ call ∈ calls, D.Allows w.known call.node) :
    D.Follows w (w.afterAll calls) := by
  induction calls generalizing w with
  | nil => exact .refl hw
  | cons call calls ih =>
    have h := after_follows hw (hcalls call (List.mem_cons_self ..))
    exact h.trans (ih h.holds fun c hc => (hcalls c (List.mem_cons_of_mem _ hc)).mono h.known)

/-- The value of a run is looked for among results that keep to the discipline. -/
theorem value_ends {node : Descriptor} (hw : D.Holds w)
    (hresults : ∀ entry ∈ w.results.entries, D.Allows w.known entry.2)
    (hnode : D.Allows w.known node) :
    Ends (fun _ => True) D.Admits ((run node w).1.value (run node w).2) := by
  have h := run_follows hw hnode
  unfold Outcome.value
  split
  · trivial
  · rename_i d houtput
    obtain ⟨key, -, hkey⟩ := Option.bind_eq_some_iff.mp houtput
    refine literalValue_ends h.holds.governs ?_
    rcases h.results _ (Table.mem_of_get? hkey) with hold | hnew
    · exact (hresults _ hold).mono h.known
    · exact hnew

theorem session_valid {calls : List Call} {node : Descriptor} (hw : D.Holds w)
    (hcalls : ∀ call ∈ calls, D.Allows w.known call.node) (hnode : D.Allows w.known node)
    {s : State} (hs : (State.start node (w.afterAll calls)).Reaches s) :
    D.Follows w s.world ∧ D.Valid s := by
  have hafter := afterAll_follows hw hcalls
  obtain ⟨hfollows, hvalid⟩ := (Valid.start hafter.holds (hnode.mono hafter.known)).reaches hs
  exact ⟨hafter.trans hfollows, hvalid⟩

end Discipline

end EffectTree
