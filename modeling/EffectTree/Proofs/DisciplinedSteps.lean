import EffectTree.Proofs.DisciplinedEffects
import EffectTree.Proofs.ResultTable

/-!
# Evaluation under a discipline

A state of an evaluation is valid if its world holds to the discipline and everything that is still
to be evaluated does. Each step from a valid state leads to a valid one in a following world, so
every state that an evaluation reaches is valid.
-/
namespace EffectTree

open Evaluation

namespace Evaluation

/-- A step one level down, which the settings have to permit. -/
def State.Descends (s t : State) : Prop :=
  (∃ node, s.focus = .evaluate node) ∧ s.world.settings.exceeded s.world.depth = false ∧
    t.world.depth = s.world.depth + 1

/-- The nodes of a focus, with the arguments of an effect. -/
def Focus.nodes : Focus → List Descriptor
  | .evaluate node => [node]
  | .perform node _ args => node :: args
  | _ => []

/-- The nodes that an effect goes on with. -/
def Frame.nodes : Frame → List Descriptor
  | .leave => []
  | .feed continuation? => continuation?.toList
  | .rescue continuation? => continuation?.toList
  | .gather rest _ => rest
  | .block rest _ => rest

/-- What is being evaluated and what may still be. -/
def State.nodes (s : State) : List Descriptor := s.focus.nodes ++ s.frames.flatMap Frame.nodes

@[simp] theorem State.after_ok (frames inner : List Frame) (focus : Focus) (w : World) :
    State.after frames (.ok (focus, inner) w) = ⟨focus, inner ++ frames, w⟩ := rfl

@[simp] theorem State.after_error (frames : List Frame) (cause : Stop) (w : World) :
    State.after frames (.error cause w) = ⟨.stop cause, frames, w⟩ := rfl

/-- The world in which the effect of a node has been found. -/
def World.found (w : World) (tag : Value) (args : List Descriptor) : World :=
  w.note (.log ⟨.debug, .interpreter, "effect: " ++ tag.display ++ " (" ++ toString args.length ++
    " args)"⟩)

def World.descended (w : World) (tag : Value) (args : List Descriptor) : World :=
  { w.found tag args with depth := w.depth + 1 }

section Arrive

variable {w : World} {node : Descriptor}

theorem arrive_of_exceeded (h : w.settings.exceeded w.depth = true) :
    arrive node w = .error (.fault (.depthExceeded w.settings.maxDepth)) w := by
  rw [arrive, get_bind, if_pos h]
  rfl

theorem arrive_of_error {e : Fault} (h : w.settings.exceeded w.depth = false)
    (heffect : w.resolver.effectOf node = .error e) : arrive node w = .error (.fault e) w := by
  rw [arrive, get_bind, if_neg (by simp [h])]
  exact bind_of_error (resolve_of_error heffect)

theorem arrive_of_ok {tag : Value} {args : List Descriptor}
    (h : w.settings.exceeded w.depth = false)
    (heffect : w.resolver.effectOf node = .ok (tag, args)) :
    arrive node w = .ok (.perform node tag args, [.leave]) (w.descended tag args) := by
  have hfound : Machine.resolve (·.effectOf node) w = .ok (tag, args) w := resolve_of_ok heffect
  rw [arrive, get_bind, if_neg (by simp [h])]
  exact bind_of_ok hfound

end Arrive

end Evaluation

namespace Discipline

open Runs

variable (D : Discipline)

/-- What is done next: nodes keep to the discipline, effects are those of their nodes, results are
there. -/
def AllowsFocus (w : World) : Focus → Prop
  | .evaluate node => D.Allows w.known node
  | .perform node tag args => D.Allows w.known node ∧ w.resolver.effectOf node = .ok (tag, args)
  | .finish key? => ∀ key ∈ key?, key ∈ w.known
  | .stop cause => D.Bears cause

def AllowsFrame (w : World) : Frame → Prop
  | .leave => True
  | .feed continuation? => ∀ d ∈ continuation?, D.Allows w.known d
  | .rescue continuation? => ∀ d ∈ continuation?, D.Allows w.known d
  | .gather rest keys => (∀ d ∈ rest, D.Allows w.known d) ∧ ∀ key ∈ keys, key ∈ w.known
  | .block rest keys => (∀ d ∈ rest, D.Allows w.known d) ∧ ∀ key ∈ keys, key ∈ w.known

def AllowsMove (move : Move) (w : World) : Prop :=
  D.AllowsFocus w move.1 ∧ ∀ frame ∈ move.2, D.AllowsFrame w frame

/-- A state in which the discipline holds. -/
structure Valid (s : State) : Prop where
  holds : D.Holds s.world
  focus : D.AllowsFocus s.world s.focus
  frames : ∀ frame ∈ s.frames, D.AllowsFrame s.world frame

/-- A step to a valid state, at most one level down. -/
structure Advances (s t : State) : Prop where
  follows : D.Follows s.world t.world
  valid : D.Valid t
  depth : t.world.depth ≤ s.world.depth ∨ s.Descends t

variable {D} {w w' : World} {d : Descriptor} {frames : List Frame}

theorem AllowsFrame.mono {frame : Frame} (h : w.known ⊆ w'.known) (hframe : D.AllowsFrame w frame) :
    D.AllowsFrame w' frame := by
  cases frame with
  | leave => trivial
  | feed continuation? | rescue continuation? => exact fun d hd => (hframe d hd).mono h
  | gather rest keys | block rest keys =>
    exact ⟨fun d hd => (hframe.1 d hd).mono h, fun key hkey => h (hframe.2 key hkey)⟩

theorem Valid.start (hw : D.Holds w) (hd : D.Allows w.known d) : D.Valid (.start d w) :=
  ⟨hw, hd, fun _ h => absurd h List.not_mem_nil⟩

theorem AllowsFrame.nodes {frame : Frame} (hframe : D.AllowsFrame w frame) :
    ∀ d ∈ frame.nodes, D.Allows w.known d := by
  cases frame with
  | leave => exact fun _ h => absurd h List.not_mem_nil
  | feed continuation? | rescue continuation? =>
    exact fun d hd => hframe d (Option.mem_toList.mp hd)
  | gather rest keys | block rest keys => exact hframe.1

theorem Valid.nodes {s : State} (hs : D.Valid s) : ∀ d ∈ s.nodes, D.Allows s.world.known d := by
  obtain ⟨focus, frames, w⟩ := s
  obtain ⟨hw, hfocus, hframes⟩ := hs
  intro d hd
  rcases List.mem_append.mp hd with hd | hd
  · cases focus with
    | evaluate node =>
      rw [List.mem_singleton.mp hd]
      exact hfocus
    | perform node tag args =>
      have hargs := effectOf_ends hw.governs hfocus.1
      rw [hfocus.2] at hargs
      rcases List.mem_cons.mp hd with rfl | hd
      · exact hfocus.1
      · exact hargs d hd
    | finish | stop => exact absurd hd List.not_mem_nil
  · obtain ⟨frame, hframe, hd⟩ := List.mem_flatMap.mp hd
    exact (hframes frame hframe).nodes d hd

/-- What a machine leaves around its result goes inside of the frames that are there. -/
theorem Runs.advances {m : Machine Move} (hm : D.Runs D.AllowsMove m w)
    (hframes : ∀ frame ∈ frames, D.AllowsFrame w frame) (s : State) (hs : s.world = w) :
    D.Advances s (.after frames (m w)) := by
  subst hs
  unfold Runs at hm
  cases h : m s.world with
  | ok move w' =>
    rw [h] at hm
    obtain ⟨hfollows, hdepth, hmove⟩ := hm
    refine ⟨hfollows, ⟨hfollows.holds, hmove.1, fun frame hframe => ?_⟩, .inl hdepth.le⟩
    exact (List.mem_append.mp hframe).elim (hmove.2 frame) fun h =>
      (hframes frame h).mono hfollows.known
  | error cause w' =>
    rw [h] at hm
    obtain ⟨hfollows, hdepth, hcause⟩ := hm
    exact ⟨hfollows, ⟨hfollows.holds, hcause, fun frame h => (hframes frame h).mono hfollows.known⟩,
      .inl hdepth.le⟩

theorem finish_runs (hw : D.Holds w) {key? : Option String} (hkey : ∀ key ∈ key?, key ∈ w.known) :
    D.Runs D.AllowsMove (pure (.finish key?, [])) w :=
  done hw ⟨hkey, fun _ h => absurd h List.not_mem_nil⟩

theorem stop_runs (hw : D.Holds w) {cause : Stop} (hcause : D.Bears cause) :
    D.Runs D.AllowsMove (pure (.stop cause, [])) w :=
  done hw ⟨hcause, fun _ h => absurd h List.not_mem_nil⟩

theorem finishing_runs {m : Machine (Option String)} (hm : D.Yields m w) :
    D.Runs D.AllowsMove (finishing m) w :=
  hm.bind fun _ _ h hkey => finish_runs h.holds hkey

theorem handOver_runs (hw : D.Holds w) {continuation input : Descriptor}
    (hcontinuation : D.Allows w.known continuation) (hinput : D.Allows w.known input) :
    D.Runs D.AllowsMove (handOver continuation input) w := by
  refine (resolve hw (specialize_ends hw.governs hcontinuation (by simpa using hinput))).bind
    fun resolved _ h₁ hd => ?_
  refine (store h₁.holds (hd.mono h₁.known)).bind fun _ _ h₂ _ => ?_
  have hresolved := hd.mono (h₁.trans h₂).known
  refine (resolve h₂.holds (projectField_ends h₂.holds.governs hresolved _)).bind
    fun next? _ h₃ hnext => ?_
  cases next? with
  | some next =>
    exact done h₃.holds ⟨(hnext next rfl).mono h₃.known, fun _ h => absurd h List.not_mem_nil⟩
  | none =>
    refine (render h₃.holds (hresolved.mono h₃.known)).bind fun text _ h₄ _ => ?_
    refine (note h₄.holds _).bind fun _ _ h₅ _ => ?_
    exact finish_runs h₅.holds (by simp)

theorem allows_reference {keys : Set String} {key : String} (hkey : key ∈ keys) :
    D.Allows keys (Store.Results.reference (.ofStr key)) := by
  intro m hm
  rw [List.mem_singleton.mp hm]
  exact D.known hkey

theorem referenceTo_runs (hw : D.Holds w) {key : String} (hkey : key ∈ w.known) :
    D.Runs (fun d w' => D.Allows w'.known d) (referenceTo key) w := by
  refine (state hw).bind fun w₁ w' h hw₁ => ?_
  subst hw₁
  have hproject : Ends (D.Allows w₁.known) D.Admits (w₁.results.project (.ofStr key)) := by
    unfold Store.Results.project
    split
    · exact allows_reference (h.known hkey)
    · exact admits_of_isOfValues rfl
  exact (lift h.holds hproject).mono fun _ _ h hd => hd.mono h.known

theorem gathered_yields (hw : D.Holds w) {keys : List String}
    (hkeys : ∀ key ∈ keys, key ∈ w.known) :
    D.Yields (gathered keys) w := by
  have hreference : ∀ key ∈ keys, ∀ w', D.Follows w w' →
      D.Runs (fun d w' => D.Allows w'.known d) (referenceTo key) w' :=
    fun key hkey w' h => referenceTo_runs h.holds (h.known (hkeys key hkey))
  refine (mapM (fun _ _ _ h hd => hd.mono h.known) hw hreference).bind fun ds w' h hds => ?_
  exact yielding_yields h.holds (allows_tuple.mpr hds)

theorem lastOf_yields (hw : D.Holds w) {keys : List String} (hkeys : ∀ key ∈ keys, key ∈ w.known) :
    D.Yields (lastOf keys) w := by
  unfold lastOf
  split
  · exact yields_none hw
  · rename_i key hkey
    exact (referenceTo_runs hw (hkeys key (List.mem_of_getLast? hkey))).bind fun _ _ h hd =>
      yielding_yields h.holds hd

/-- The rest of several nodes, with frames of one kind and results that are combined in one way. -/
theorem proceed_runs {frame : List Descriptor → List String → Frame}
    {combine : List String → Machine (Option String)}
    (hframe : ∀ rest keys, (∀ d ∈ rest, D.Allows w.known d) → (∀ key ∈ keys, key ∈ w.known) →
      D.AllowsFrame w (frame rest keys))
    (hcombine : ∀ keys, (∀ key ∈ keys, key ∈ w.known) → D.Yields (combine keys) w) (hw : D.Holds w)
    {nodes : List Descriptor} {keys : List String} (hnodes : ∀ d ∈ nodes, D.Allows w.known d)
    (hkeys : ∀ key ∈ keys, key ∈ w.known) :
      D.Runs D.AllowsMove (proceed frame combine nodes keys) w := by
  cases nodes with
  | nil => exact finishing_runs (hcombine keys hkeys)
  | cons d rest =>
    refine done hw ⟨hnodes d (List.mem_cons_self ..), fun f hf => ?_⟩
    rw [List.mem_singleton.mp hf]
    exact hframe rest keys (fun d hd => hnodes d (List.mem_cons_of_mem _ hd)) hkeys

section Several

variable (hw : D.Holds w) {nodes : List Descriptor} {keys : List String}
    (hnodes : ∀ d ∈ nodes, D.Allows w.known d)
  (hkeys : ∀ key ∈ keys, key ∈ w.known)
include hw hnodes hkeys

theorem gather_runs : D.Runs D.AllowsMove (proceed .gather gathered nodes keys) w :=
  proceed_runs (fun _ _ => And.intro) (fun _ hkeys => gathered_yields hw hkeys) hw hnodes hkeys

theorem block_runs : D.Runs D.AllowsMove (proceed .block lastOf nodes keys) w :=
  proceed_runs (fun _ _ => And.intro) (fun _ hkeys => lastOf_yields hw hkeys) hw hnodes hkeys

end Several

theorem members_runs (hw : D.Holds w) {d? : Option Descriptor} (hd : ∀ d ∈ d?, D.Allows w.known d) :
    D.Runs (fun nodes w' => ∀ d ∈ nodes, D.Allows w'.known d) (members d?) w := by
  cases d? with
  | none => exact done hw fun _ h => absurd h List.not_mem_nil
  | some d =>
    refine (resolve hw (elementsOf_ends hw.governs (hd d rfl))).bind fun items? _ h hitems =>
      done h.holds ?_
    cases items? with
    | none => simpa using (hd d rfl).mono h.known
    | some items => exact fun d hd => (hitems items rfl d hd).mono h.known

theorem begin_runs (hw : D.Holds w) (effect : Control) {args : List Descriptor}
    (hargs : ∀ d ∈ args, D.Allows w.known d) : D.Runs D.AllowsMove (begin args effect) w := by
  have harg (i : Nat) : ∀ d ∈ args[i]?, D.Allows w.known d :=
    fun d hd => hargs d (List.mem_of_getElem? hd)
  have hfirst (focus : Focus) (hfocus : D.AllowsFocus w focus) :
      D.AllowsFocus w ((args[0]?).elim focus .evaluate) := by
    cases h : args[0]? with
    | none => exact hfocus
    | some d => exact harg 0 d h
  cases effect with
  | bind =>
    refine done hw ⟨hfirst (.finish none) (by simp [AllowsFocus]), fun frame hframe => ?_⟩
    rw [List.mem_singleton.mp hframe]
    exact harg 1
  | recover =>
    refine done hw ⟨hfirst (.stop _) fun _ _ h => Fault.noConfusion h, fun frame hframe => ?_⟩
    rw [List.mem_singleton.mp hframe]
    exact harg 1
  | gather =>
    exact (members_runs hw (harg 0)).bind fun _ _ h hnodes => gather_runs h.holds hnodes (by simp)
  | block =>
    exact (members_runs hw (harg 0)).bind fun _ _ h hnodes => block_runs h.holds hnodes (by simp)

theorem has_ofValues (registry : Registry) (name : Value) : OfValues (registry.has name) := by
  unfold Registry.has
  split
  · simp
  · exact contains_ofValues registry _

theorem act_runs (hw : D.Holds w) {node : Descriptor} (hnode : D.Allows w.known node) (tag : Value)
    {args : List Descriptor} (hargs : ∀ d ∈ args, D.Allows w.known d) :
    D.Runs D.AllowsMove (act node tag args) w := by
  refine (lift hw (ends_of_ofValues (Value.requireHashable_ofKinds tag))).bind fun _ _ h₁ _ => ?_
  have hargs₁ : ∀ d ∈ args, D.Allows _ d := fun d hd => (hargs d hd).mono h₁.known
  split
  · exact begin_runs h₁.holds _ hargs₁
  · exact finishing_runs (runLeaf_yields h₁.holds _ hargs₁)
  · refine (state h₁.holds).bind fun w₂ w' h₂ hw₂ => ?_
    subst hw₂
    refine (lift h₂.holds (ends_of_ofValues (has_ofValues _ tag))).bind fun custom _ h₃ _ => ?_
    have h := h₂.trans h₃
    split
    · exact finishing_runs (runCustom_yields h.holds tag fun d hd => (hargs₁ d hd).mono h.known)
    · exact finishing_runs (unhandled_yields h.holds (hnode.mono (h₁.trans h).known) tag)

theorem inputFor_runs (hw : D.Holds w) {key? : Option String} (hkey : ∀ key ∈ key?, key ∈ w.known) :
    D.Runs (fun d w' => D.Allows w'.known d) (inputFor key?) w := by
  cases key? with
  | none => exact done hw (allows_literal _)
  | some key => exact referenceTo_runs hw (hkey key rfl)

theorem resume_runs (hw : D.Holds w) {key? : Option String} (hkey : ∀ key ∈ key?, key ∈ w.known)
    {frame : Frame} (hframe : D.AllowsFrame w frame) (hleave : frame ≠ .leave) :
    D.Runs D.AllowsMove (resume key? frame) w := by
  cases frame with
  | leave => exact absurd rfl hleave
  | feed continuation? =>
    cases continuation? with
    | none => exact finish_runs hw (by simp)
    | some continuation =>
      refine (inputFor_runs hw hkey).bind fun input w' h hinput => ?_
      exact handOver_runs h.holds ((hframe continuation rfl).mono h.known) hinput
  | rescue => exact finish_runs hw hkey
  | gather rest keys =>
    exact gather_runs hw hframe.1 fun key h => (List.mem_append.mp h).elim (hframe.2 key)
      (by simpa using hkey key)
  | block rest keys =>
    exact block_runs hw hframe.1 fun key h => (List.mem_append.mp h).elim (hframe.2 key)
      (by simpa using hkey key)

theorem unwind_runs (hw : D.Holds w) {cause : Stop} (hcause : D.Bears cause) {frame : Frame}
    (hframe : D.AllowsFrame w frame) (hleave : frame ≠ .leave) :
    D.Runs D.AllowsMove (unwind cause frame) w := by
  cases frame with
  | leave => exact absurd rfl hleave
  | rescue continuation? =>
    cases cause with
    | exit | waiting => exact stop_runs hw trivial
    | fault e =>
      refine (note hw _).bind fun _ _ h _ => ?_
      cases continuation? with
      | none => exact finish_runs h.holds (by simp)
      | some continuation =>
        exact handOver_runs h.holds ((hframe continuation rfl).mono h.known) (allows_literal _)
  | feed | gather | block => exact stop_runs hw hcause

theorem arrive_advances {node : Descriptor} (hw : D.Holds w) (hnode : D.Allows w.known node)
    (hframes : ∀ frame ∈ frames, D.AllowsFrame w frame) :
    D.Advances ⟨.evaluate node, frames, w⟩ (.after frames (arrive node w)) := by
  cases hdepth : w.settings.exceeded w.depth with
  | true =>
    rw [arrive_of_exceeded hdepth]
    exact ⟨.refl hw, ⟨hw, fun _ _ h => Fault.noConfusion h, hframes⟩, .inl le_rfl⟩
  | false =>
    cases heffect : w.resolver.effectOf node with
    | error e =>
      have he := effectOf_ends hw.governs hnode
      rw [heffect] at he
      rw [arrive_of_error hdepth heffect]
      exact ⟨.refl hw, ⟨hw, he, hframes⟩, .inl le_rfl⟩
    | ok effect =>
      have hfollows : D.Follows w (w.descended effect.1 effect.2) :=
        .of_eq hw rfl rfl rfl hw.cells hw.handlers
      rw [arrive_of_ok hdepth heffect]
      refine ⟨hfollows, ⟨hfollows.holds, ⟨hnode.mono hfollows.known, heffect⟩,
        fun frame hframe => ?_⟩,
        .inr ⟨⟨node, rfl⟩, hdepth, rfl⟩⟩
      rcases List.mem_cons.mp hframe with rfl | hframe
      · trivial
      · exact (hframes frame hframe).mono hfollows.known

theorem ascend_advances {s : State} {focus : Focus} (hw : D.Holds s.world)
    (hfocus : ∀ {w}, w.known = s.world.known → D.AllowsFocus w focus)
    (hframes : ∀ frame ∈ frames, D.AllowsFrame s.world frame) :
    D.Advances s (.after frames (ascend focus s.world)) := by
  have hfollows : D.Follows s.world { s.world with depth := s.world.depth - 1 } :=
    .of_eq hw rfl rfl rfl hw.cells hw.handlers
  exact ⟨hfollows, ⟨hfollows.holds, hfocus rfl,
    fun frame h => (hframes frame h).mono hfollows.known⟩,
    .inl (Nat.sub_le _ _)⟩

/-- Every step from a valid state leads to a valid state. -/
theorem Valid.next {s t : State} (hs : D.Valid s) (h : s.next = some t) : D.Advances s t := by
  obtain ⟨hw, hfocus, hframes⟩ := hs
  cases State.moves_of_next h with
  | arrive node => exact arrive_advances hw hfocus hframes
  | act node tag args =>
    have hargs := effectOf_ends hw.governs hfocus.1
    rw [hfocus.2] at hargs
    exact (act_runs hw hfocus.1 tag hargs).advances hframes _ rfl
  | resume key? frame =>
    obtain ⟨hframe, hframes⟩ := List.forall_mem_cons.mp hframes
    by_cases hleave : frame = .leave
    · subst hleave
      exact ascend_advances hw (fun heq key hkey => heq ▸ hfocus key hkey) hframes
    · exact (resume_runs hw hfocus hframe hleave).advances hframes _ rfl
  | unwind cause frame =>
    obtain ⟨hframe, hframes⟩ := List.forall_mem_cons.mp hframes
    by_cases hleave : frame = .leave
    · subst hleave
      exact ascend_advances hw (fun _ => hfocus) hframes
    · exact (unwind_runs hw hfocus hframe hleave).advances hframes _ rfl

theorem Valid.step {s t : State} (hs : D.Valid s) (h : s.step = some t) :
    D.Follows s.world t.world ∧ D.Valid t := by
  unfold State.step at h
  split at h
  · cases h
    exact ⟨.refl hs.holds, hs.holds, fun _ _ h => Fault.noConfusion h, hs.frames⟩
  · exact ⟨(hs.next h).follows, (hs.next h).valid⟩

end Discipline

end EffectTree
