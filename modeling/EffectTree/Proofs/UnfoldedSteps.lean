import Mathlib
import EffectTree.Proofs.DisciplinedSteps
import EffectTree.Proofs.UnfoldedEffects

/-!
# Steps on unfolded descriptors

A step on a node, an effect or an outcome and the step on what it unfolds to go on alike, unless one
of them runs into a limit: with nodes and effects that unfold, with the same key, or with the same
fault or exit.
-/
namespace EffectTree.Evaluation

open Store Machine Resolution

variable {s : Stored} {w w' : World}

section Custom

variable {a b : Descriptor} {xs ys : List Descriptor}

lemma value_mem_argumentQuestions (r : Resolver) (d : Descriptor) :
    Question.value d ∈ argumentQuestions r d := by
  unfold argumentQuestions
  split <;> simp

lemma customArgument_sees (hw : w.Unfolds s w') (h : s.Unfolds .later a b)
    (hq : Indistinct s w (argumentQuestions w.resolver a)) :
    Sees Eq w w' (customArgument a w) (customArgument b w') := by
  refine (literal_sees hw h (hq _ (value_mem_argumentQuestions _ _))).bind
    fun v v' ⟨hv, hliteral⟩ => ?_
  subst hv
  split
  · have hmem : Question.text a ∈ argumentQuestions w.resolver a := by
      simp [argumentQuestions, hliteral]
    refine (render_sees hw h (hq _ hmem)).bind fun text text' htext => ?_
    subst htext
    split <;> exact .ok rfl
  · exact .ok rfl

lemma follow_follows (hw : w.Unfolds s w') {reply : Reply}
    (hrequests : ∀ request ∈ reply.requests, ∀ d ∈ request.descriptor?, d.RefersWithin s.old) :
    Follows s (fun p p' => p = p' ∧ reply.answer = .ok p) (follow reply w) (follow reply w') := by
  obtain ⟨requests, answer⟩ := reply
  induction requests generalizing w w' with
  | nil =>
    change Follows s _ (accept answer w) (accept answer w')
    cases answer with
    | ok p => exact .ok ⟨rfl, rfl⟩ hw
    | error cause => exact .stop cause hw
  | cons request requests ih =>
    obtain ⟨hfirst, hrest⟩ := List.forall_mem_cons.mp hrequests
    exact ih (hw.fulfil hfirst) hrest

lemma produced_follows (hw : w.Unfolds s w') (p : Product)
    (hp : ∀ d, p = .descriptor d → d.RefersWithin s.old) :
    Follows s (Option.Rel (SharedKey s)) (produced p w) (produced p w') := by
  cases p with
  | descriptor d => exact yielding_follows hw (.refl d (hp d rfl))
  | value v =>
    cases v with
    | null => exact .ok .none hw
    | _ => exact described_follows hw _

/-- A handler is called for the same arguments in both worlds, and it replies the same. -/
lemma invoke_follows (hw : w.Unfolds s w') {tag : Value} (arguments : List Value)
    (hblind : ∀ handler, w.registry.get? tag = some handler → handler.Blind s.old) :
    Follows s (fun p p' => p = p' ∧ ∀ d, p = .descriptor d → d.RefersWithin s.old)
      (invoke tag arguments w) (invoke tag arguments w') := by
  rw [invoke, get_bind, get_bind, hw.registry]
  cases hfind : w.registry.find tag with
  | error e => exact .stop _ hw
  | ok handler =>
    have hfound (u : World) : lift (.ok handler : Except Fault Handler) u = .ok handler u := rfl
    obtain ⟨hsame, hanswer, hrequests⟩ := hblind handler (Registry.find_eq_ok hfind).2
    rw [bind_of_ok (hfound w), bind_of_ok (hfound w'), hsame arguments _ _ hw.context]
    refine (follow_follows hw (hrequests arguments w.context)).mono fun p p' ⟨hp, hreply⟩ => ?_
    exact ⟨hp, fun d hd => hanswer arguments _ d (hd ▸ hreply)⟩

lemma runCustom_follows (hw : w.Unfolds s w') {tag : Value}
    (hblind : ∀ handler, w.registry.get? tag = some handler → handler.Blind s.old)
    (h : s.UnfoldsAll .later xs ys)
    (hq : Indistinct s w (xs.flatMap (argumentQuestions w.resolver))) :
    Follows s (Option.Rel (SharedKey s)) (runCustom tag xs w) (runCustom tag ys w') := by
  have harguments : Sees Eq w w' (xs.mapM customArgument w) (ys.mapM customArgument w') :=
    .mapM_eq (UnfoldsAll.forall₂ h
      (fun x hx q hmem => hq q (List.mem_flatMap_of_mem hx hmem))
      fun _ _ hxy hx => customArgument_sees hw hxy hx)
  refine harguments.andThen hw fun arguments arguments' heq => ?_
  subst heq
  refine (invoke_follows hw arguments hblind).bind fun p p' w₁ w₁' ⟨hp, hold⟩ hw₁ => ?_
  subst hp
  exact produced_follows hw₁ p hold

lemma unhandled_follows (hw : w.Unfolds s w') (tag : Value) (h : s.Unfolds .later a b)
    (hq : s.Indistinct w.resolver (.text a)) :
    Follows s (Option.Rel (SharedKey s)) (unhandled a tag w) (unhandled b tag w') := by
  refine (render_sees hw h hq).andThen hw fun text text' htext => ?_
  subst htext
  rw [get_bind, get_bind, hw.settings]
  split
  · exact .stop _ hw
  · exact .ok .none (hw.note _ _)

end Custom

section Several

variable {a? b? : Option Descriptor} {key? key?' : Option String}

lemma members_sees (hw : w.Unfolds s w') (h : Option.Rel (s.Unfolds .later) a? b?)
    (hq : Indistinct s w (a?.toList.map .head)) :
    Sees (s.UnfoldsAll .later) w w' (members a? w) (members b? w') := by
  cases h with
  | none => exact .ok .nil
  | @some a b h =>
    have helements := Stored.elementsOf_agree hw.resolver h (.of_later (hq _ (by simp)))
    refine (Sees.lift helements).bind fun items? items?' hitems => .ok ?_
    cases hitems with
    | none => exact .cons h .nil
    | some hitems => exact hitems

lemma reference_unfolds {key : String} (hkey : key ≠ s.key) (hspare : key ≠ s.spare) :
    s.Unfolds .later (Results.reference (.ofStr key)) (Results.reference (.ofStr key)) :=
  .same _ _ (.result ⟨hkey, hspare⟩)

lemma referenceTo_sees (hw : w.Unfolds s w') {key : String} (hkey : key ≠ s.key)
    (hspare : key ≠ s.spare) :
    Sees (fun d d' => d = Results.reference (.ofStr key) ∧ s.Unfolds .later d d') w w'
      (referenceTo key w) (referenceTo key w') := by
  have hhas : w'.results.has (.ofStr key) = w.results.has (.ofStr key) := by
    have hget := hw.results key hkey hspare
    change (w'.results.get? key).isSome = (w.results.get? key).isSome
    generalize w.results.get? key = x, w'.results.get? key = y at hget
    cases hget <;> rfl
  change Sees _ w w' (lift (w.results.project _) w) (lift (w'.results.project _) w')
  unfold Results.project
  rw [hhas]
  split
  · exact .ok ⟨rfl, reference_unfolds hkey hspare⟩
  · exact .stop _

lemma inputFor_sees (hw : w.Unfolds s w') (h : Option.Rel (SharedKey s) key? key?') :
    Sees (fun d d' => d = inputOf key? ∧ s.Unfolds .later d d') w w' (inputFor key? w)
      (inputFor key?' w') := by
  cases h with
  | none => exact .ok ⟨rfl, .literal _⟩
  | some h =>
    obtain ⟨rfl, hkey, hspare⟩ := h
    exact referenceTo_sees hw hkey hspare

end Several

/-- Foci that go on alike. -/
inductive UnfoldsFocus (s : Stored) : Focus → Focus → Prop
  | evaluate {a b : Descriptor} (h : s.Unfolds .later a b) :
      UnfoldsFocus s (.evaluate a) (.evaluate b)
  | perform {a b : Descriptor} (tag : Value) {xs ys : List Descriptor} (h : s.Unfolds .later a b)
      (hargs : s.UnfoldsAll .later xs ys) : UnfoldsFocus s (.perform a tag xs) (.perform b tag ys)
  | finish {key? key?' : Option String} (h : Option.Rel (SharedKey s) key? key?') :
      UnfoldsFocus s (.finish key?) (.finish key?')
  | stop (cause : Stop) : UnfoldsFocus s (.stop cause) (.stop cause)

/-- Keys that both worlds give out. -/
abbrev SharedKeys (s : Stored) : List String → List String → Prop := List.Forall₂ (SharedKey s)

inductive UnfoldsFrame (s : Stored) : Frame → Frame → Prop
  | leave : UnfoldsFrame s .leave .leave
  | feed {a? b? : Option Descriptor} (h : Option.Rel (s.Unfolds .later) a? b?) :
      UnfoldsFrame s (.feed a?) (.feed b?)
  | rescue {a? b? : Option Descriptor} (h : Option.Rel (s.Unfolds .later) a? b?) :
      UnfoldsFrame s (.rescue a?) (.rescue b?)
  | gather {xs ys : List Descriptor} {keys keys' : List String} (h : s.UnfoldsAll .later xs ys)
      (hkeys : SharedKeys s keys keys') : UnfoldsFrame s (.gather xs keys) (.gather ys keys')
  | block {xs ys : List Descriptor} {keys keys' : List String} (h : s.UnfoldsAll .later xs ys)
      (hkeys : SharedKeys s keys keys') : UnfoldsFrame s (.block xs keys) (.block ys keys')

def UnfoldsMove (s : Stored) (move move' : Move) : Prop :=
  UnfoldsFocus s move.1 move'.1 ∧ List.Forall₂ (UnfoldsFrame s) move.2 move'.2

section Control

variable {a b : Descriptor} {xs ys : List Descriptor} {keys keys' : List String}

lemma finishing_follows {m m' : Machine (Option String)}
    (h : Follows s (Option.Rel (SharedKey s)) (m w) (m' w')) :
    Follows s (UnfoldsMove s) (finishing m w) (finishing m' w') :=
  h.bind fun _ _ _ _ hkey hw => .ok ⟨.finish hkey, .nil⟩ hw

lemma forall₂_unfolds {ds ds' : List Descriptor}
    (h : List.Forall₂ (fun d d' => s.Unfolds .later d d') ds ds') : s.UnfoldsAll .later ds ds' := by
  induction h with
  | nil => exact .nil
  | cons hd _ ih => exact .cons hd ih

lemma gathered_follows (hw : w.Unfolds s w') (hkeys : SharedKeys s keys keys') :
    Follows s (Option.Rel (SharedKey s)) (gathered keys w) (gathered keys' w') := by
  have hreferences : Sees (List.Forall₂ fun d d' => s.Unfolds .later d d') w w'
      (keys.mapM referenceTo w) (keys'.mapM referenceTo w') := by
    refine .mapM (hkeys.imp fun key key' hkey => ?_)
    obtain ⟨rfl, hne, hne'⟩ := hkey
    exact (referenceTo_sees hw hne hne').mono fun _ _ h => h.2
  exact hreferences.andThen hw fun _ _ h => yielding_follows hw (.tuple (forall₂_unfolds h))

lemma SharedKeys.getLast? (hkeys : SharedKeys s keys keys') :
    Option.Rel (SharedKey s) keys.getLast? keys'.getLast? := by
  induction hkeys with
  | nil => exact .none
  | cons hkey hrest ih =>
    cases hrest with
    | nil => exact .some hkey
    | cons => simpa only [List.getLast?_cons_cons] using ih

lemma lastOf_follows (hw : w.Unfolds s w') (hkeys : SharedKeys s keys keys') :
    Follows s (Option.Rel (SharedKey s)) (lastOf keys w) (lastOf keys' w') := by
  have hlast := hkeys.getLast?
  unfold lastOf
  generalize keys.getLast? = x, keys'.getLast? = y at hlast
  cases hlast with
  | none => exact .ok .none hw
  | some hkey =>
    obtain ⟨rfl, hne, hne'⟩ := hkey
    exact (referenceTo_sees hw hne hne').andThen hw fun _ _ h => yielding_follows hw h.2

lemma proceed_follows (hw : w.Unfolds s w') {frame : List Descriptor → List String → Frame}
    {combine : List String → Machine (Option String)}
    (hframe : ∀ {xs ys}, s.UnfoldsAll .later xs ys →
      UnfoldsFrame s (frame xs keys) (frame ys keys'))
    (hcombine : Follows s (Option.Rel (SharedKey s)) (combine keys w) (combine keys' w'))
    (h : s.UnfoldsAll .later xs ys) :
    Follows s (UnfoldsMove s) (proceed frame combine xs keys w)
      (proceed frame combine ys keys' w') := by
  cases h with
  | nil => exact finishing_follows hcombine
  | cons hd hrest => exact .ok ⟨.evaluate hd, .cons (hframe hrest) .nil⟩ hw

lemma begin_follows (hw : w.Unfolds s w') (effect : Control) (h : s.UnfoldsAll .later xs ys)
    (hq : effect = .gather ∨ effect = .block → Indistinct s w ((xs[0]?).toList.map .head)) :
    Follows s (UnfoldsMove s) (begin xs effect w) (begin ys effect w') := by
  have hfirst := h.getElem? 0
  have hsecond := h.getElem? 1
  cases effect with
  | bind =>
    refine .ok ⟨?_, .cons (.feed hsecond) .nil⟩ hw
    generalize xs[0]? = x, ys[0]? = y at hfirst
    cases hfirst with
    | none => exact .finish .none
    | some hd => exact .evaluate hd
  | recover =>
    refine .ok ⟨?_, .cons (.rescue hsecond) .nil⟩ hw
    generalize xs[0]? = x, ys[0]? = y at hfirst
    cases hfirst with
    | none => exact .stop _
    | some hd => exact .evaluate hd
  | gather =>
    exact (members_sees hw hfirst (hq (.inl rfl))).andThen hw fun _ _ hall =>
      proceed_follows hw (fun h => .gather h .nil) (gathered_follows hw .nil) hall
  | block =>
    exact (members_sees hw hfirst (hq (.inr rfl))).andThen hw fun _ _ hall =>
      proceed_follows hw (fun h => .block h .nil) (lastOf_follows hw .nil) hall

lemma act_follows (hw : w.Unfolds s w') (tag : Value) (h : s.Unfolds .later a b)
    (hargs : s.UnfoldsAll .later xs ys) (hq : Indistinct s w (effectQuestions w a tag xs))
    (hblind : Opcode.ofTag? tag = none → w.registry.has tag = .ok true →
      ∀ handler, w.registry.get? tag = some handler → handler.Blind s.old) :
    Follows s (UnfoldsMove s) (act a tag xs w) (act b tag ys w') := by
  cases htag : tag.requireHashable with
  | error e =>
    rw [act_of_unhashable htag, act_of_unhashable htag]
    exact .stop _ hw
  | ok _ =>
    cases hopcode : Opcode.ofTag? tag with
    | some opcode =>
      cases opcode with
      | control effect =>
        rw [act_of_control htag hopcode, act_of_control htag hopcode]
        refine begin_follows hw effect hargs fun heffect => ?_
        unfold effectQuestions at hq
        rw [hopcode] at hq
        rcases heffect with rfl | rfl <;> exact hq
      | leaf effect =>
        rw [act_of_leaf htag hopcode, act_of_leaf htag hopcode]
        unfold effectQuestions at hq
        rw [hopcode] at hq
        exact finishing_follows (runLeaf_follows hw effect hargs hq)
    | none =>
      rw [act_of_none htag hopcode, act_of_none htag hopcode, hw.registry]
      unfold effectQuestions at hq
      rw [hopcode] at hq
      cases hhas : w.registry.has tag with
      | error e => exact .stop _ hw
      | ok known =>
        rw [hhas] at hq
        cases known with
        | true => exact finishing_follows (runCustom_follows hw (hblind hopcode hhas) hargs hq)
        | false => exact finishing_follows (unhandled_follows hw tag h (hq _ (by simp)))

lemma arrive_follows (hw : w.Unfolds s w') (h : s.Unfolds .later a b)
    (hq : s.Indistinct w.resolver (.head a)) :
    Follows s (UnfoldsMove s) (arrive a w) (arrive b w') := by
  cases hexceeded : w.settings.exceeded w.depth with
  | true =>
    rw [arrive_of_exceeded hexceeded]
    exact .left (.fail rfl)
  | false =>
    cases hexceeded' : w'.settings.exceeded w'.depth with
    | true =>
      rw [arrive_of_exceeded hexceeded']
      exact .right (.fail rfl)
    | false =>
      have heffect := Stored.effectOf_agree hw.resolver h (.of_later hq)
      generalize hx : w.resolver.effectOf a = x, hy : w'.resolver.effectOf b = y at heffect
      cases heffect with
      | left he =>
        rw [arrive_of_error hexceeded hx]
        exact .left (.fail he)
      | right he =>
        rw [arrive_of_error hexceeded' hy]
        exact .right (.fail he)
      | error e =>
        rw [arrive_of_error hexceeded hx, arrive_of_error hexceeded' hy]
        exact .stop _ hw
      | @ok effect effect' heffect =>
        obtain ⟨tag, xs⟩ := effect
        obtain ⟨tag', ys⟩ := effect'
        obtain ⟨rfl, hargs⟩ := heffect
        rw [arrive_of_ok hexceeded hx, arrive_of_ok hexceeded' hy]
        exact .ok ⟨.perform tag h hargs, .cons .leave .nil⟩ { hw with }

end Control

section Continuations

variable {a b x y : Descriptor} {key? key?' : Option String}

lemma handOver_follows (hw : w.Unfolds s w') (h : s.Unfolds .later a b)
    (hinput : s.Unfolds .later x y) (hq : ∀ r q, w.AsksToHandOver a x r q → s.Indistinct r q) :
    Follows s (UnfoldsMove s) (handOver a x w) (handOver b y w') := by
  have hresolved := Stored.specialize_agree hw.resolver h hinput (.of_later (hq _ _ .resolving))
  generalize hd : w.resolver.specialize a [("input", x)] = d,
    hd' : w'.resolver.specialize b [("input", y)] = d' at hresolved
  cases hresolved with
  | left he => exact .left ⟨_, _, bind_of_error (resolve_of_error hd), he⟩
  | right he => exact .right ⟨_, _, bind_of_error (resolve_of_error hd'), he⟩
  | error e =>
    rw [handOver, bind_of_error (resolve_of_error hd), handOver,
      bind_of_error (resolve_of_error hd')]
    exact .stop _ hw
  | @ok d d' hresolved =>
    have hw₁ := hw.addResult hresolved
    have hnext := Stored.projectField_agree hw₁.resolver hresolved
      (.of_later (hq _ _ (.resolved hd))) (.ofStr "return") fun head part hhead hpart =>
        .of_later (hq _ _ (.returned hd hhead hpart))
    rw [handOver, bind_of_ok (resolve_of_ok hd), handOver, bind_of_ok (resolve_of_ok hd')]
    have hstored (u : World) (d : Descriptor) :
        store d u = .ok (u.addResult d).1 (u.addResult d).2 :=
      rfl
    rw [bind_of_ok (hstored w d), bind_of_ok (hstored w' d')]
    generalize hp : (w.addResult d).2.resolver.projectField d (.ofStr "return") = p,
      hp' : (w'.addResult d').2.resolver.projectField d' (.ofStr "return") = p' at hnext
    cases hnext with
    | left he => exact .left ⟨_, _, bind_of_error (resolve_of_error hp), he⟩
    | right he => exact .right ⟨_, _, bind_of_error (resolve_of_error hp'), he⟩
    | error e =>
      rw [bind_of_error (resolve_of_error hp), bind_of_error (resolve_of_error hp')]
      exact .stop _ hw₁
    | ok hnext =>
      rw [bind_of_ok (resolve_of_ok hp), bind_of_ok (resolve_of_ok hp')]
      cases hnext with
      | some hnext => exact .ok ⟨.evaluate hnext, .nil⟩ hw₁
      | none =>
        refine (render_sees hw₁ hresolved (hq _ _ (.unreturned hd hp))).andThen hw₁ fun _ _ _ => ?_
        exact .ok ⟨.finish .none, .nil⟩ (hw₁.note _ _)

lemma resume_follows (hw : w.Unfolds s w') (hkey : Option.Rel (SharedKey s) key? key?')
    {frame frame' : Frame} (hframe : UnfoldsFrame s frame frame')
    (hq : ∀ c, frame = .feed (some c) →
      ∀ r q, w.AsksToHandOver c (inputOf key?) r q → s.Indistinct r q) :
    Follows s (UnfoldsMove s) (resume key? frame w) (resume key?' frame' w') := by
  have hkeys {keys keys' : List String} (h : SharedKeys s keys keys') :
      SharedKeys s (keys ++ key?.toList) (keys' ++ key?'.toList) := by
    refine List.rel_append h ?_
    cases hkey with
    | none => exact .nil
    | some hkey => exact .cons hkey .nil
  cases hframe with
  | leave => exact .ok ⟨.finish hkey, .nil⟩ { hw with }
  | rescue => exact .ok ⟨.finish hkey, .nil⟩ hw
  | gather h hbefore =>
    exact proceed_follows hw (fun h => .gather h (hkeys hbefore))
      (gathered_follows hw (hkeys hbefore)) h
  | block h hbefore =>
    exact proceed_follows hw (fun h => .block h (hkeys hbefore))
      (lastOf_follows hw (hkeys hbefore)) h
  | feed hcontinuation =>
    cases hcontinuation with
    | none => exact .ok ⟨.finish .none, .nil⟩ hw
    | some hc =>
      refine (inputFor_sees hw hkey).andThen hw fun x y ⟨hx, hinput⟩ => ?_
      subst hx
      exact handOver_follows hw hc hinput (hq _ rfl)

lemma World.AsksToHandOver.of_note {e : Event} {r : Resolver} {q : Question}
    (h : (w.note e).AsksToHandOver a x r q) : w.AsksToHandOver a x r q := by
  cases h with
  | resolving => exact .resolving
  | resolved hd => exact .resolved hd
  | returned hd hhead hpart => exact .returned hd hhead hpart
  | unreturned hd hnext => exact .unreturned hd hnext

lemma unwind_follows (hw : w.Unfolds s w') (cause : Stop) {frame frame' : Frame}
    (hframe : UnfoldsFrame s frame frame')
    (hq : ∀ c e, frame = .rescue (some c) → cause = .fault e →
      ∀ r q, w.AsksToHandOver c (.literal (.ofStr e.message)) r q → s.Indistinct r q) :
    Follows s (UnfoldsMove s) (unwind cause frame w) (unwind cause frame' w') := by
  cases hframe with
  | leave => exact .ok ⟨.stop cause, .nil⟩ { hw with }
  | feed | gather | block => exact .ok ⟨.stop cause, .nil⟩ hw
  | rescue hcontinuation =>
    cases cause with
    | exit | waiting => exact .ok ⟨.stop _, .nil⟩ hw
    | fault e =>
      have hnoted := hw.note (.log
        ⟨.debug, .handlers, "Try caught " ++ e.kind.name ++ ": " ++ e.message⟩)
        (.log ⟨.debug, .handlers, "Try caught " ++ e.kind.name ++ ": " ++ e.message⟩)
      cases hcontinuation with
      | none => exact .ok ⟨.finish .none, .nil⟩ hnoted
      | some hc =>
        exact handOver_follows hnoted hc (.literal _) fun r q h => hq _ e rfl rfl r q h.of_note

end Continuations

end EffectTree.Evaluation
