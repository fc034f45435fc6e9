import Mathlib
import EffectTree.Proofs.CoreCalculus
import EffectTree.Proofs.ResultTable

/-!
# Evaluation agrees with the meaning of programs

Evaluation does not pass values on: it stores descriptors and refers to them. Along a program, each
result that is stored stands for the value that the program has at that point, and this survives all
that is stored later.
-/
namespace EffectTree.Evaluation
open Descriptor Resolution Store Machine

/-- The limits of an evaluation: how deeply effects nest, how many steps a search takes and how many
searches can be held inside each other. -/
structure Limits where
  depth : Nat
  steps : Nat
  nesting : Nat

def Limits.AtLeast (L : Limits) (N : Nat) : Prop := N ≤ L.depth ∧ N ≤ L.steps ∧ N ≤ L.nesting

/-- For all sufficiently large limits. -/
def Eventually (P : Limits → Prop) : Prop := ∃ N, ∀ L : Limits, L.AtLeast N → P L

lemma Limits.AtLeast.mono {L : Limits} {M N : Nat} (h : L.AtLeast N) (hMN : M ≤ N) : L.AtLeast M :=
  ⟨hMN.trans h.1, hMN.trans h.2.1, hMN.trans h.2.2⟩

lemma Eventually.mono {P Q : Limits → Prop} (h : Eventually P) (hPQ : ∀ L, P L → Q L) :
    Eventually Q := by
  obtain ⟨N, hN⟩ := h
  exact ⟨N, fun L hL => hPQ L (hN L hL)⟩

lemma Eventually.and {P Q : Limits → Prop} (hP : Eventually P) (hQ : Eventually Q) :
    Eventually fun L => P L ∧ Q L := by
  obtain ⟨M, hM⟩ := hP
  obtain ⟨N, hN⟩ := hQ
  exact ⟨max M N, fun L hL => ⟨hM L (hL.mono (le_max_left M N)), hN L (hL.mono (le_max_right M N))⟩⟩

lemma Eventually.of_forall {P : Limits → Prop} (h : ∀ L, P L) : Eventually P := ⟨0, fun L _ => h L⟩

namespace World

def within (w : World) (L : Limits) : World :=
  { w with
    settings := { w.settings with maxDepth := .ofInt L.depth }
    resolver := { w.resolver with maxSteps := L.steps, nesting := L.nesting } }

lemma serves_within (w : World) {L : Limits} {N : Nat} (h : L.AtLeast N) :
    Serves w.resolver.slots N (w.within L).resolver :=
  ⟨fun _ _ hd => hd, by simpa [within] using h.2.1⟩

end World

variable {α β : Type} {w w' : World} {d : Descriptor} {v : Value}

lemma eventually_head {head : Descriptor} (h : HeadsTo w.resolver.slots d head) :
    Eventually fun L => (w.within L).resolver.head d = .ok head := by
  obtain ⟨N, hN⟩ := h.found
  exact ⟨N, fun L hL => hN _ (w.serves_within hL) _ hL.2.2⟩

lemma eventually_literal (h : Denotes w.resolver.slots d v) (hheight : v.height ≤ Core.maxHeight) :
    Eventually fun L => literal d (w.within L) = .ok v (w.within L) := by
  obtain ⟨N, hN⟩ := h.decodes
  refine ⟨N, fun L hL => resolve_of_ok ?_⟩
  have hdecode : (w.within L).resolver.decode d = .ok v :=
    hN _ (w.serves_within hL) _ hL.2.2 decodeLevels (Nat.lt_succ_of_le hheight)
  simp only [Resolver.literalValue, hdecode]

lemma not_exceeded {L : Limits} (h : w.depth < L.depth) :
    (w.within L).settings.exceeded (w.within L).depth = false := by
  have hlt : compare (w.depth : Int) (L.depth : Int) = .lt :=
    compare_lt_iff_lt.mpr (by exact_mod_cast h)
  simp [World.within, Settings.exceeded, Value.ofInt, Value.real?, Value.Real.compare, hlt]

lemma headsTo_effect {slots : Table Descriptor} (tag : Value) (args : List Descriptor) :
    HeadsTo slots (.effect tag args) (.effect tag args) :=
  ⟨1, fun r _ n _ steps hsteps => by
    obtain ⟨k, rfl⟩ : ∃ k, steps = k + 1 := ⟨steps - 1, by omega⟩
    rfl⟩

lemma eventually_enter (w : World) (tag : String) (args : List Descriptor) :
    Eventually fun L => evaluateAt (L.depth - w.depth) (.effect (.ofStr tag) args) (w.within L) =
      nested (dispatch (evaluateAt (L.depth - (w.depth + 1))) (.effect (.ofStr tag) args)
        (.ofStr tag) args)
        ((w.entered tag args).within L) := by
  have hhead : HeadsTo w.resolver.slots (.effect (.ofStr tag) args) (.effect (.ofStr tag) args) :=
    headsTo_effect _ _
  obtain ⟨N, hN⟩ := eventually_head hhead
  refine ⟨max N (w.depth + 1), fun L hL => ?_⟩
  have hlevels : L.depth - w.depth = L.depth - (w.depth + 1) + 1 := by
    have := hL.1
    omega
  have hdepth : w.depth < L.depth := (le_max_right N _).trans hL.1
  have heffect : (w.within L).resolver.effectOf (.effect (.ofStr tag) args) =
      .ok (.ofStr tag, args) := by
    rw [Resolver.effectOf, hN L (hL.mono (le_max_left N _))]
    rfl
  beta_reduce
  rw [hlevels, evaluateAt, enter]
  refine (get_bind _ _).trans ?_
  rw [if_neg (Bool.not_eq_true _ ▸ not_exceeded hdepth)]
  refine (bind_of_ok (resolve_of_ok heffect)).trans ?_
  exact bind_of_ok rfl

/-- The result under a key stands for a value. -/
def World.Holds (w : World) (v : Value) (key : String) : Prop :=
  ∃ d, w.results.get? key = some d ∧ Settled d ∧ Denotes w.resolver.slots d v ∧
    v.height ≤ Core.maxHeight

/-- A later world on the same level that still has all results. -/
structure World.Grows (w w' : World) : Prop where
  mirrored : w'.Mirrored
  depth : w'.depth = w.depth
  results : ∀ key d, w.results.get? key = some d → w'.results.get? key = some d
  slots : ∀ key d, Table.get? w.resolver.slots key = some d →
    Table.get? w'.resolver.slots key = some d

namespace World

lemma Grows.refl (h : w.Mirrored) : w.Grows w := ⟨h, rfl, fun _ _ h => h, fun _ _ h => h⟩

lemma Grows.trans {w₁ w₂ w₃ : World} (h : w₁.Grows w₂) (h' : w₂.Grows w₃) : w₁.Grows w₃ :=
  ⟨h'.mirrored, h'.depth.trans h.depth, fun key d hd => h'.results key d (h.results key d hd),
    fun key d hd => h'.slots key d (h.slots key d hd)⟩

lemma Holds.mono {key : String} (hg : w.Grows w') (h : w.Holds v key) : w'.Holds v key := by
  obtain ⟨d, hd, hsettled, hv, hheight⟩ := h
  exact ⟨d, hg.results key d hd, hsettled, hv.mono hg.slots, hheight⟩

lemma grows_note (h : w.Mirrored) (e : Event) : w.Grows (w.note e) :=
  ⟨⟨h.issued, h.nodup, h.slots⟩, rfl, fun _ _ hd => hd, fun _ _ hd => hd⟩

lemma grows_addResult (h : w.Mirrored) (d : Descriptor) : w.Grows (w.addResult d).2 := by
  have hresults : ∀ key d', w.results.get? key = some d' →
      (w.addResult d).2.results.get? key = some d' := by
    intro key d' hd
    simp only [Results.get?, addResult_entries, Table.get?_append] at hd ⊢
    rw [hd, Option.some_or]
  refine ⟨h.addResult d, rfl, hresults, fun key slot hslot => ?_⟩
  rw [h.slots_get?, Option.map_eq_some_iff] at hslot
  obtain ⟨d', hd', rfl⟩ := hslot
  rw [(h.addResult d).slots_get?, hresults key d' hd']
  rfl

lemma addResult_get? (w : World) (d : Descriptor) :
    (w.addResult d).2.results.get? (w.addResult d).1 = some d := by
  have hfresh : Table.get? w.results.entries (keyText w.nextUnused) = none := by
    rw [← Option.not_isSome_iff_eq_none, Table.get?_isSome]
    exact w.nextUnused_notMem
  simp only [Results.get?, addResult_entries, addResult_key, Table.get?_append, hfresh,
    Option.none_or]
  simp [Table.get?]

lemma holds_addResult (h : w.Mirrored) (hsettled : Settled d) (hd : Denotes w.resolver.slots d v)
    (hheight : v.height ≤ Core.maxHeight) : (w.addResult d).2.Holds v (w.addResult d).1 :=
  ⟨d, addResult_get? w d, hsettled, hd.mono (grows_addResult h d).slots, hheight⟩

lemma Holds.height_le {key : String} (h : w.Holds v key) : v.height ≤ Core.maxHeight :=
  h.choose_spec.2.2.2

lemma Holds.reference {key : String} (hm : w.Mirrored) (h : w.Holds v key) :
    Denotes w.resolver.slots (Results.reference (.ofStr key)) v := by
  obtain ⟨d, hd, hsettled, hv, -⟩ := h
  exact denotes_reference hsettled (by rw [hm.slots_get?, hd]; rfl) hv

end World

/-- For all sufficiently large limits a machine ends in the given world, with a result that the
relation allows or with a fault of the message. -/
def Ends (w w' : World) (m : Limits → Machine α) (R : World → β → α → Prop) : Except String β → Prop
  | .ok b => ∃ a, R w' b a ∧ Eventually fun L => m L (w.within L) = .ok a (w'.within L)
  | .error message => ∃ e : Fault, e.message = message ∧
      Eventually fun L => m L (w.within L) = .error (.fault e) (w'.within L)

/-- For all sufficiently large limits a machine does what a reply says, and appends its output. -/
def Simulates (w : World) (m : Limits → Machine α) (R : World → β → α → Prop) (r : Core.Reply β) :
    Prop :=
  ∃ w', w.Grows w' ∧ w'.transcript.output = w.transcript.output ++ r.output ∧ Ends w w' m R r.ending

section Simulation

variable {γ δ : Type} {m m' : Limits → Machine α} {R : World → β → α → Prop} {S : World → δ →
    γ → Prop}
  {r : Core.Reply β} {s : Core.Reply δ} {w'' : World}

lemma Ends.of_eq {ending : Except String β}
    (heq : Eventually fun L => m L (w.within L) = m' L (w'.within L))
    (h : Ends w' w'' m' R ending) :
    Ends w w'' m R ending := by
  cases ending with
  | ok b =>
    obtain ⟨a, hR, ha⟩ := h
    exact ⟨a, hR, (heq.and ha).mono fun L hL => hL.1.trans hL.2⟩
  | error message =>
    obtain ⟨e, he, ha⟩ := h
    exact ⟨e, he, (heq.and ha).mono fun L hL => hL.1.trans hL.2⟩

namespace Simulates

lemma done {a : α} {b : β} (hw : w.Mirrored) (h : R w b a) :
    Simulates w (fun _ => pure a) R { ending := .ok b } :=
  ⟨w, .refl hw, (String.append_empty).symm, a, h, .of_forall fun _ => rfl⟩

lemma of_eq (hg : w.Grows w') (hout : w'.transcript.output = w.transcript.output)
    (heq : Eventually fun L => m L (w.within L) = m' L (w'.within L)) (h : Simulates w' m' R r) :
    Simulates w m R r := by
  obtain ⟨w'', hg', hout', hends⟩ := h
  exact ⟨w'', hg.trans hg', by rw [hout', hout], hends.of_eq heq⟩

lemma andThen {f : β → Except Core.Gap (Core.Reply δ)} {k : Limits → α → Machine γ}
    (h : Simulates w m R r) (hs : r.andThen f = .ok s)
    (hk : ∀ w' b a t, w.Grows w' → R w' b a → f b = .ok t → Simulates w' (fun L => k L a) S t) :
    Simulates w (fun L => m L >>= k L) S s := by
  obtain ⟨w', hg, hout, h⟩ := h
  unfold Core.Reply.andThen at hs
  cases hr : r.ending with
  | error message =>
    rw [hr] at h hs
    obtain ⟨e, he, ha⟩ := h
    cases hs
    exact ⟨w', hg, hout, e, he, ha.mono fun L hL => bind_of_error hL⟩
  | ok b =>
    rw [hr] at h hs
    obtain ⟨a, hR, ha⟩ := h
    obtain ⟨t, ht, rfl⟩ := Except.map_eq_ok.mp hs
    obtain ⟨w'', hg', hout', hends⟩ := hk w' b a t hg hR ht
    exact ⟨w'', hg.trans hg', by rw [hout', hout, String.append_assoc],
      hends.of_eq (ha.mono fun L hL => bind_of_ok hL)⟩

lemma orElse {f : String → Except Core.Gap (Core.Reply β)} {k : Limits → Fault → Machine α}
    {s : Core.Reply β} (h : Simulates w m R r) (hs : r.orElse f = .ok s)
    (hk : ∀ w' e t, w.Grows w' → f (Fault.message e) = .ok t → Simulates w' (fun L => k L e) R t) :
    Simulates w (fun L => (m L).orElseFault (k L)) R s := by
  obtain ⟨w', hg, hout, h⟩ := h
  unfold Core.Reply.orElse at hs
  cases hr : r.ending with
  | ok b =>
    rw [hr] at h hs
    obtain ⟨a, hR, ha⟩ := h
    cases hs
    exact ⟨w', hg, hout, a, hR, ha.mono fun L hL => by simp only [orElseFault, hL]⟩
  | error message =>
    rw [hr] at h hs
    obtain ⟨e, rfl, ha⟩ := h
    obtain ⟨t, ht, rfl⟩ := Except.map_eq_ok.mp hs
    obtain ⟨w'', hg', hout', hends⟩ := hk w' e t hg ht
    exact ⟨w'', hg.trans hg', by rw [hout', hout, String.append_assoc],
      hends.of_eq (ha.mono fun L hL => by simp only [orElseFault, hL])⟩

lemma nested (hR : ∀ w' b a depth, R w' b a → R { w' with depth } b a)
    (h : Simulates { w with depth := w.depth + 1 } m R r) :
    Simulates w (fun L => (m L).nested) R r := by
  obtain ⟨w', hg, hout, hends⟩ := h
  have hdepth : w'.depth - 1 = w.depth := by rw [hg.depth]; rfl
  refine ⟨{ w' with depth := w'.depth - 1 },
    ⟨⟨hg.mirrored.issued, hg.mirrored.nodup, hg.mirrored.slots⟩, hdepth,
    hg.results, hg.slots⟩, hout, ?_⟩
  cases hr : r.ending with
  | ok b =>
    rw [hr] at hends
    obtain ⟨a, hRa, ha⟩ := hends
    refine ⟨a, hR _ b a _ hRa, ha.mono fun L hL => ?_⟩
    have hL' : m L { w.within L with depth := (w.within L).depth + 1 } = .ok a (w'.within L) := hL
    simp only [Machine.nested, hL']
    rfl
  | error message =>
    rw [hr] at hends
    obtain ⟨e, he, ha⟩ := hends
    refine ⟨e, he, ha.mono fun L hL => ?_⟩
    have hL' : m L { w.within L with depth := (w.within L).depth + 1 } =
      .error (.fault e) (w'.within L) := hL
    simp only [Machine.nested, hL']
    rfl

end Simulates

end Simulation

/-- A key is that of a result that stands for the value, and there is none if there is no value. -/
abbrev Result (w : World) : Option Value → Option String → Prop := Option.Rel w.Holds

/-- Keys are those of results that stand for the values. -/
abbrev Results (w : World) : List Value → List String → Prop := List.Forall₂ w.Holds

section Effects

variable {tag : String} {args : List Descriptor} {r : Core.Reply (Option Value)}

lemma simulates_effect (hw : w.Mirrored)
    (h : ∀ w₁ : World, w₁.Mirrored → w₁.resolver = w.resolver →
      Simulates w₁ (fun L => dispatch (evaluateAt (L.depth - w₁.depth)) (.effect (.ofStr tag) args)
        (.ofStr tag) args)
        Result r) :
    Simulates w (fun L => evaluateAt (L.depth - w.depth) (.effect (.ofStr tag) args)) Result r := by
  have hentered := World.grows_note hw
    (.log ⟨.debug, .interpreter, "effect: " ++ (Value.ofStr tag).display ++
    " (" ++ toString args.length ++ " args)"⟩)
  refine .of_eq hentered (by simp [World.note]) (eventually_enter w tag args)
    (.nested (fun _ _ _ _ hR => hR) ?_)
  exact h { w.entered tag args with depth := w.depth + 1 } ⟨hw.issued, hw.nodup, hw.slots⟩ rfl

lemma simulates_yielding (hw : w.Mirrored) (hsettled : Settled d)
    (hd : Denotes w.resolver.slots d v) (hheight : v.height ≤ Core.maxHeight) :
    Simulates w (fun _ => yielding d) Result { ending := .ok (some v) } :=
  ⟨(w.addResult d).2, World.grows_addResult hw d, (String.append_empty).symm,
    some (w.addResult d).1,
    .some (World.holds_addResult hw hsettled hd hheight), .of_forall fun _ => rfl⟩

lemma not_headsTo_ref {slots : Table Descriptor} {name : Value} {head : Descriptor} :
    ¬ HeadsTo slots (.ref name) head := by
  rintro ⟨N, hN⟩
  have h := hN { slots, maxSteps := (N + 1 : Nat) } ⟨fun _ _ hd => hd, by simp⟩ N le_rfl (N + 1)
    (Nat.le_succ N)
  rw [iterate, step] at h
  have herror : ∃ e, named [] Fault.unknownDefinition name = .error e := by
    unfold named
    split
    · exact ⟨_, rfl⟩
    · split <;> exact ⟨_, rfl⟩
  obtain ⟨e, he⟩ := herror
  simp [he] at h

lemma eventually_render {s : String} {mark : Mark}
    (h : HeadsTo w.resolver.slots d (.literal (.str s mark))) :
    ∃ text, Eventually fun L => Machine.render d (w.within L) = .ok text (w.within L) := by
  obtain ⟨N, hN⟩ := eventually_head h
  refine ⟨.ofStr (Json.stringText s), max N 1, fun L hL => resolve_of_ok ?_⟩
  have hhead := hN L (hL.mono (le_max_left N 1))
  obtain ⟨k, hk⟩ : ∃ k, (w.within L).resolver.nesting = k + 1 :=
    ⟨L.nesting - 1, (Nat.sub_add_cancel ((le_max_right N 1).trans hL.2.2)).symm⟩
  have hseen : surroundings [] d = .ok (.inr []) := by
    cases d with
    | ref name => exact absurd h not_headsTo_ref
    | _ => rfl
  simp [Resolver.render, hk, renderAt, hseen, hhead, renderHead, Json.print, Except.map]

lemma simulates_control {effect : Control}
    (htag : Opcode.ofTag? (.ofStr tag) = some (.control effect)) (hw : w.Mirrored)
    (h : ∀ w₁ : World, w₁.Mirrored → w₁.resolver = w.resolver →
      Simulates w₁ (fun L => runControl (evaluateAt (L.depth - w₁.depth)) effect args) Result r) :
    Simulates w (fun L => evaluateAt (L.depth - w.depth) (.effect (.ofStr tag) args)) Result r :=
  simulates_effect hw fun w₁ hw₁ hresolver => by
    simpa only [dispatch_control htag] using h w₁ hw₁ hresolver

lemma simulates_leaf {effect : Leaf} (htag : Opcode.ofTag? (.ofStr tag) = some (.leaf effect))
    (hw : w.Mirrored)
    (h : ∀ w₁ : World, w₁.Mirrored → w₁.resolver = w.resolver →
      Simulates w₁ (fun _ => runLeaf effect args) Result r) :
    Simulates w (fun L => evaluateAt (L.depth - w.depth) (.effect (.ofStr tag) args)) Result r :=
  simulates_effect hw fun w₁ hw₁ hresolver => by
    simpa only [dispatch_leaf htag] using h w₁ hw₁ hresolver

/-- A raised text is the message of a fault. -/
lemma simulates_raise {s : String} {mark : Mark} (hw : w.Mirrored)
    (hd : Denotes w.resolver.slots d (.str s mark)) :
    Simulates w (fun _ => raise (some d)) Result { ending := .error s } := by
  obtain ⟨text, htext⟩ := eventually_render (denotes_scalar rfl |>.mp hd)
  refine ⟨w, .refl hw, (String.append_empty).symm, .thrown (.str s mark) s, rfl, ?_⟩
  refine ((eventually_literal hd (Nat.zero_le _)).and htext).mono fun L hL => ?_
  exact (bind_of_ok hL.1).trans ((bind_of_ok hL.2).trans rfl)

/-- A text that is put is appended to the output. -/
lemma simulates_putString {s : String} {mark : Mark} (hw : w.Mirrored)
    (hd : Denotes w.resolver.slots d (.str s mark)) :
    Simulates w (fun _ => putString (some d)) Result { ending := .ok none, output := s } := by
  refine ⟨w.note (.output s), World.grows_note hw _, by simp [World.note], none, .none, ?_⟩
  refine (eventually_literal hd (Nat.zero_le _)).mono fun L hL => ?_
  have htext : textOf d (w.within L) = .ok (.ofStr s) (w.within L) := (bind_of_ok hL).trans rfl
  exact (bind_of_ok htext).trans rfl

/-- The record that a continuation becomes with an input. -/
def specialized (body x : Descriptor) : Descriptor := .record [("input", x), ("return", body)]

lemma merge_continuation (body x : Descriptor) :
    merge (Core.continuation body) (.record [("input", x)]) = specialized body x := by
  simp [Core.continuation, specialized, merge, mergeFields, merge_unknown, Table.get?, Table.put]

lemma headsTo_specialized {slots : Table Descriptor} (body x : Descriptor) :
    HeadsTo slots (.inter [Core.continuation body, .record [("input", x)]])
      (specialized body x) := by
  have hleft : HeadsTo slots (Core.continuation body) (Core.continuation body) := headsTo_record _
  have hright : HeadsTo slots (.record [("input", x)]) (.record [("input", x)]) := headsTo_record _
  obtain ⟨M, hM⟩ := hleft.found
  obtain ⟨N, hN⟩ := hright.found
  refine (headsTo_record _).of_step ⟨max M N, fun r hr n hn => ?_⟩
  simp only [step, List.foldlM_cons, List.foldlM_nil,
    hM r (hr.mono (le_max_left M N)) n (le_of_max_le_left hn),
    hN r (hr.mono (le_max_right M N)) n (le_of_max_le_right hn)]
  exact congrArg (fun d => Except.ok (Step.next d)) (merge_continuation body x)

lemma substitute_continuation (x body body' : Descriptor) :
    substitute [("input", x), ("return", body)] (Core.continuation body') =
      Core.continuation body' := by
  have hscope : Scope.without [("input", x), ("return", body)]
      [("input", .unknown), ("return", body')] = [] := rfl
  rw [Core.continuation, substitute, hscope, substituteFields_nil]

/-- What a continuation returns is its program with the input put in. -/
lemma closeOver_specialized {x : Descriptor} (k : Core.Program) (hbad : x.badVar? = none)
    (hclosed : x.freeVars = []) :
    closeOver (k.describe Core.inputVar) [("input", x), ("return", k.describe Core.inputVar)] =
      .ok (k.describe x) := by
  have hfree : ∀ name ∈ (k.describe Core.inputVar).freeVars, name = .ofStr "input" :=
    fun name hname => List.mem_singleton.mp (k.freeVars_describe Core.inputVar hname)
  have hbody := k.badVar?_describe Core.inputVar_settled.hashable
  by_cases hnil : (k.describe Core.inputVar).freeVars = []
  · have hsame : k.describe x = k.describe Core.inputVar := k.describe_of_closed hnil
    rw [closeOver_of_not_declares hbody (by simp [hnil]), hsame]
  · obtain ⟨name, hname⟩ := List.exists_mem_of_ne_nil _ hnil
    have hpending : "input" ∈ pendingNames [("input", x), ("return", k.describe Core.inputVar)]
        (k.describe Core.inputVar) :=
      List.mem_filterMap.mpr ⟨name, hname, by rw [hfree name hname]; rfl⟩
    have hput : substitute [("input", x), ("return", k.describe Core.inputVar)]
        (k.describe Core.inputVar) = k.describe x :=
      k.substitute_describe rfl fun body => substitute_continuation x _ body
    have hdone : pendingNames [("input", x), ("return", k.describe Core.inputVar)]
        (k.describe x) = [] := by
      refine pendingNames_eq_nil fun name hname => ?_
      have := k.freeVars_describe x hname
      rw [hclosed] at this
      exact absurd this List.not_mem_nil
    have hne : (pendingNames [("input", x), ("return", k.describe Core.inputVar)]
        (k.describe Core.inputVar)).isEmpty = false := by
      simpa using List.ne_nil_of_mem hpending
    simp [closeOver, closeRounds, hbody, hne, hput, hdone, k.badVar?_describe hbad]

lemma projectField_eq_ok {r : Resolver} {d head part next : Descriptor} {field : Value}
    (hhead : r.head d = .ok head) (hproject : project head field = .ok (some part))
    (hnext : r.head part = .ok next) : r.projectField d field = .ok (some next) :=
  Except.bind_eq_ok.mpr ⟨head, hhead, Except.bind_eq_ok.mpr ⟨some part, hproject,
    Except.bind_eq_ok.mpr ⟨next, hnext, rfl⟩⟩⟩

lemma headsTo_describe {slots : Table Descriptor} (k : Core.Program) (x : Descriptor) :
    HeadsTo slots (k.describe x) (k.describe x) := by
  cases k <;> exact headsTo_effect _ _

/-- A continuation goes on with its program, which is given a descriptor that stands for the
input. -/
lemma simulates_continueWith {x : Descriptor} {k : Core.Program} (hw : w.Mirrored)
    (hbad : x.badVar? = none) (hclosed : x.freeVars = []) (hk : ∀ w₁ : World, w.Grows w₁ →
      Simulates w₁ (fun L => evaluateAt (L.depth - w₁.depth) (k.describe x)) Result r) :
    Simulates w (fun L => continueWith (evaluateAt (L.depth - w.depth))
      (Core.continuation (k.describe Core.inputVar)) x) Result r := by
  set resolved := specialized (k.describe Core.inputVar) x with hresolved
  have hg := World.grows_addResult hw resolved
  refine .of_eq hg rfl ?_ (hk _ hg)
  have hspecialized : HeadsTo w.resolver.slots
      (.inter [Core.continuation (k.describe Core.inputVar), .record [("input", x)]]) resolved :=
    headsTo_specialized _ _
  have hrecord : HeadsTo (w.addResult resolved).2.resolver.slots resolved resolved :=
    headsTo_record _
  have hnext : HeadsTo (w.addResult resolved).2.resolver.slots (k.describe x) (k.describe x) :=
    headsTo_describe k x
  have hproject : project resolved (.ofStr "return") = .ok (some (k.describe x)) := by
    simp [hresolved, specialized, project, Value.ofStr, Table.get?,
      closeOver_specialized k hbad hclosed, Except.map]
  refine ((eventually_head hspecialized).and
    ((eventually_head hrecord).and (eventually_head hnext))).mono ?_
  rintro L ⟨h₁, h₂, h₃⟩
  have hstore : store resolved (w.within L) =
      .ok (w.addResult resolved).1 ((w.addResult resolved).2.within L) :=
    rfl
  have hfield : resolve (·.projectField resolved (.ofStr "return"))
      ((w.addResult resolved).2.within L) =
      .ok (some (k.describe x)) ((w.addResult resolved).2.within L) :=
    resolve_of_ok (projectField_eq_ok h₂ hproject h₃)
  exact (bind_of_ok (resolve_of_ok h₁)).trans ((bind_of_ok hstore).trans (bind_of_ok hfield))

lemma referenceTo_of_holds {key : String} (h : w.Holds v key) (L : Limits) :
    referenceTo key (w.within L) = .ok (Store.Results.reference (.ofStr key)) (w.within L) := by
  obtain ⟨d, hd, -⟩ := h
  have hhas : (w.within L).results.has (.ofStr key) = true := by
    change (w.results.get? key).isSome = true
    rw [hd]
    rfl
  refine (get_bind _ _).trans ?_
  rw [Store.Results.project, if_pos hhas]
  rfl

lemma mapM_referenceTo {vs : List Value} {keys : List String} (h : Results w vs keys) (L : Limits) :
    keys.mapM referenceTo (w.within L) =
      .ok (keys.map fun key => Store.Results.reference (.ofStr key)) (w.within L) := by
  induction h with
  | nil => rfl
  | cons hkey _ ih =>
    rw [List.mapM_cons]
    exact (bind_of_ok (referenceTo_of_holds hkey L)).trans ((bind_of_ok ih).trans rfl)

lemma reference_settled (key : String) : Settled (Store.Results.reference (.ofStr key)) :=
  ⟨rfl, fun _ hname => absurd hname List.not_mem_nil⟩

lemma references_settled (keys : List String) :
    Settled (.tuple (keys.map fun key => Store.Results.reference (.ofStr key))) := by
  induction keys with
  | nil => exact ⟨rfl, fun _ hname => absurd hname List.not_mem_nil⟩
  | cons key keys ih => exact ⟨ih.hashable, ih.free⟩

lemma references_denote {vs : List Value} {keys : List String} (hw : w.Mirrored)
    (h : Results w vs keys) :
    List.Forall₂ (Denotes w.resolver.slots)
      (keys.map fun key => Store.Results.reference (.ofStr key)) vs := by
  induction h with
  | nil => exact .nil
  | cons hkey _ ih => exact .cons (hkey.reference hw) ih

lemma eventually_members (ds : List Descriptor) :
    Eventually fun L => members (some (.tuple ds)) (w.within L) = .ok ds (w.within L) := by
  have hhead : HeadsTo w.resolver.slots (.tuple ds) (.tuple ds) := headsTo_tuple ds
  refine (eventually_head hhead).mono fun L hL => ?_
  have helements : (w.within L).resolver.elementsOf (.tuple ds) = .ok (some ds) := by
    rw [Resolver.elementsOf, hL]
    rfl
  have hresolve : resolve (·.elementsOf (.tuple ds)) (w.within L) = .ok (some ds) (w.within L) :=
    resolve_of_ok helements
  exact bind_of_ok hresolve

end Effects

lemma textOf_eq_ok {s : String} (h : Core.textOf v = .ok s) : ∃ mark, v = .str s mark := by
  unfold Core.textOf at h
  split at h
  · cases h
    exact ⟨_, rfl⟩
  · cases h

lemma inputFor_eq {v? : Option Value} {key? : Option String} (hw : w.Mirrored)
    (h : Result w v? key?) :
    ∃ x : Descriptor, x.badVar? = none ∧ x.freeVars = [] ∧
      Core.Feeds w.resolver.slots x (some (v?.getD .null)) ∧
        ∀ L, inputFor key? (w.within L) = .ok x (w.within L) := by
  cases h with
  | none =>
    refine ⟨.literal .null, rfl, rfl, ?_, fun L => rfl⟩
    rintro v ⟨⟩
    exact ⟨denotes_literal rfl, Nat.zero_le _⟩
  | some hkey =>
    refine ⟨Store.Results.reference (.ofStr _), rfl, rfl, ?_, referenceTo_of_holds hkey⟩
    rintro v ⟨⟩
    exact ⟨hkey.reference hw, hkey.height_le⟩

lemma results_getLast? {vs : List Value} {keys : List String} (h : Results w vs keys) :
    Result w vs.getLast? keys.getLast? := by
  induction h with
  | nil => exact .none
  | @cons v key vs keys hkey _ ih =>
    rw [List.getLast?_cons, List.getLast?_cons]
    generalize vs.getLast? = v?, keys.getLast? = key? at ih
    cases ih with
    | none => exact .some hkey
    | some hlast => exact .some hlast

lemma results_append {v? : Option Value} {key? : Option String} {vs : List Value}
    {keys : List String} (h : Result w v? key?) (hs : Results w vs keys) :
    Results w (v?.toList ++ vs) (key?.toList ++ keys) := by
  cases h with
  | none => exact hs
  | some hkey => exact .cons hkey hs

lemma Result.mono {v? : Option Value} {key? : Option String} (hg : w.Grows w')
    (h : Result w v? key?) :
    Result w' v? key? := by
  cases h with
  | none => exact .none
  | some hkey => exact .some (hkey.mono hg)

mutual

/-- Evaluation does what a program means: one case for each kind of program, each nested program
from the world that the ones before it leave behind. -/
theorem simulates_program : (p : Core.Program) → {x : Descriptor} → {input : Option Value} →
    {r : Core.Reply (Option Value)} → {w : World} → p.run input = .ok r →
    Core.Feeds w.resolver.slots x input → Settled x → w.Mirrored →
    Simulates w (fun L => evaluateAt (L.depth - w.depth) (p.describe x)) Result r
  | .produce e, x, input, r, w, h, hx, hsettled, hw => by
      obtain ⟨v, hv, h⟩ := Except.bind_eq_ok.mp h
      cases h
      refine simulates_leaf rfl hw fun w₁ hw₁ hresolver => ?_
      rw [← hresolver] at hx
      obtain ⟨hd, hheight⟩ := e.describe_denotes hx hv
      exact simulates_yielding hw₁ (e.describe_settled hsettled) hd hheight
  | .raise e, x, input, r, w, h, hx, hsettled, hw => by
      obtain ⟨v, hv, h⟩ := Except.bind_eq_ok.mp h
      obtain ⟨s, hs, h⟩ := Except.bind_eq_ok.mp h
      obtain ⟨mark, rfl⟩ := textOf_eq_ok hs
      cases h
      refine simulates_leaf rfl hw fun w₁ hw₁ hresolver => ?_
      rw [← hresolver] at hx
      exact simulates_raise hw₁ (e.describe_denotes hx hv).1
  | .putString e, x, input, r, w, h, hx, hsettled, hw => by
      obtain ⟨v, hv, h⟩ := Except.bind_eq_ok.mp h
      obtain ⟨s, hs, h⟩ := Except.bind_eq_ok.mp h
      obtain ⟨mark, rfl⟩ := textOf_eq_ok hs
      cases h
      refine simulates_leaf rfl hw fun w₁ hw₁ hresolver => ?_
      rw [← hresolver] at hx
      exact simulates_putString hw₁ (e.describe_denotes hx hv).1
  | .gather ps, x, input, r, w, h, hx, hsettled, hw => by
      obtain ⟨s, hs, h⟩ := Except.bind_eq_ok.mp h
      refine simulates_control rfl hw fun w₁ hw₁ hresolver => ?_
      rw [← hresolver] at hx
      refine .of_eq (.refl hw₁) rfl ((eventually_members _).mono fun L hL => bind_of_ok hL)
        (.andThen (simulates_programs ps hs hx hsettled hw₁) h ?_)
      intro w₂ vs keys t hg hkeys ht
      obtain ⟨v, hv, ht⟩ := Except.bind_eq_ok.mp ht
      obtain ⟨rfl, hheight⟩ := Core.built_eq_ok hv
      cases ht
      exact .of_eq (.refl hg.mirrored) rfl
        (.of_forall fun L => bind_of_ok (mapM_referenceTo hkeys L))
        (simulates_yielding hg.mirrored (references_settled keys)
          (denotes_tuple (references_denote hg.mirrored hkeys)) hheight)
  | .block ps, x, input, r, w, h, hx, hsettled, hw => by
      obtain ⟨s, hs, h⟩ := Except.bind_eq_ok.mp h
      refine simulates_control rfl hw fun w₁ hw₁ hresolver => ?_
      rw [← hresolver] at hx
      refine .of_eq (.refl hw₁) rfl ((eventually_members _).mono fun L hL => bind_of_ok hL)
        (.andThen (simulates_programs ps hs hx hsettled hw₁) h ?_)
      intro w₂ vs keys t hg hkeys ht
      cases ht
      have hlast := results_getLast? hkeys
      generalize vs.getLast? = v?, keys.getLast? = key? at hlast
      cases hlast with
      | none => exact .done hg.mirrored .none
      | some hkey =>
        exact .of_eq (.refl hg.mirrored) rfl
          (.of_forall fun L => bind_of_ok (referenceTo_of_holds hkey L))
          (simulates_yielding hg.mirrored (reference_settled _) (hkey.reference hg.mirrored)
            hkey.height_le)
  | .bind p k, x, input, r, w, h, hx, hsettled, hw => by
      obtain ⟨s, hs, h⟩ := Except.bind_eq_ok.mp h
      refine simulates_control rfl hw fun w₁ hw₁ hresolver => ?_
      rw [← hresolver] at hx
      refine .andThen (simulates_program p hs hx hsettled hw₁) h ?_
      intro w₂ v? key? t hg hkey ht
      obtain ⟨y, hbad, hclosed, hfeeds, hinput⟩ := inputFor_eq hg.mirrored hkey
      refine .of_eq (.refl hg.mirrored) rfl (.of_forall fun L => bind_of_ok (hinput L)) ?_
      rw [← hg.depth]
      exact simulates_continueWith hg.mirrored hbad hclosed fun w₃ hg' =>
        simulates_program k ht (hfeeds.mono hg'.slots) (.of_closed hbad hclosed) hg'.mirrored
  | .recover p k, x, input, r, w, h, hx, hsettled, hw => by
      obtain ⟨s, hs, h⟩ := Except.bind_eq_ok.mp h
      refine simulates_control rfl hw fun w₁ hw₁ hresolver => ?_
      rw [← hresolver] at hx
      refine .orElse (simulates_program p hs hx hsettled hw₁) h ?_
      intro w₂ e t hg ht
      have hnote := World.grows_note hg.mirrored
        (.log ⟨.debug, .handlers, "Try caught " ++ e.kind.name ++ ": " ++ e.message⟩)
      have hfeeds : ∀ slots, Core.Feeds slots (.literal (.ofStr e.message))
          (some (.ofStr e.message)) := by
        rintro slots v ⟨⟩
        exact ⟨denotes_literal rfl, Nat.zero_le _⟩
      have hafter := simulates_continueWith hnote.mirrored rfl rfl fun w₃ hg' =>
        simulates_program k ht (hfeeds _) (.of_closed rfl rfl) hg'.mirrored
      rw [hnote.depth, hg.depth] at hafter
      exact .of_eq hnote (by simp [World.note]) (.of_forall fun L => rfl) hafter

theorem simulates_programs : (ps : List Core.Program) → {x : Descriptor} → {input : Option Value} →
    {r : Core.Reply (List Value)} → {w : World} → Core.runAll input ps = .ok r →
    Core.Feeds w.resolver.slots x input → Settled x → w.Mirrored →
    Simulates w (fun L => evaluateAll (evaluateAt (L.depth - w.depth)) (Core.describePrograms x ps))
      Results r
  | [], x, input, r, w, h, hx, hsettled, hw => by
      cases h
      exact .done hw .nil
  | p :: ps, x, input, r, w, h, hx, hsettled, hw => by
      obtain ⟨s, hs, h⟩ := Except.bind_eq_ok.mp h
      refine .andThen (simulates_program p hs hx hsettled hw) h ?_
      intro w₂ v? key? t hg hkey ht
      obtain ⟨u, hu, ht⟩ := Except.bind_eq_ok.mp ht
      rw [← hg.depth]
      refine .andThen (simulates_programs ps hu (hx.mono hg.slots) hsettled hg.mirrored) ht ?_
      intro w₃ vs keys t' hg' hkeys ht'
      cases ht'
      exact .done hg'.mirrored (results_append (Result.mono hg' hkey) hkeys)

end

/-- The outcome of a run is what a program ends with: the value of its result, null where it has
none, or a fault with the message that it raises. -/
def Outcome.Agrees (o : Outcome) (w : World) : Except String (Option Value) → Prop
  | .ok v? =>
    (∃ key?, o = .finished key? ∧ key?.isSome = v?.isSome) ∧ o.value w = .ok (v?.getD .null)
  | .error message => ∃ e, o = .failed e ∧ e.message = message

lemma evaluate_within (node : Descriptor) (w : World) (L : Limits) :
    evaluate node (w.within L) = evaluateAt (L.depth - w.depth) node (w.within L) := rfl

lemma run_of_ok {node : Descriptor} {key? : Option String} (h : evaluate node w = .ok key? w') :
    run node w = (.finished key?, w') := by
  rw [run, h, conclude]

lemma run_of_fault {node : Descriptor} {e : Fault} (h : evaluate node w = .error (.fault e) w') :
    run node w = (.failed e, w'.log ⟨.debug, .interpreter, "Uncaught fault"⟩) := by
  rw [run, h, conclude]

lemma eventually_value {v? : Option Value} {key? : Option String} (h : Result w v? key?) :
    Eventually fun L => (Outcome.finished key?).value (w.within L) = .ok (v?.getD .null) := by
  cases h with
  | none => exact .of_forall fun _ => rfl
  | @some v key hkey =>
    obtain ⟨d, hd, -, hv, hheight⟩ := hkey
    obtain ⟨N, hN⟩ := hv.decodes
    refine ⟨N, fun L hL => ?_⟩
    have houtput : (Outcome.finished (some key)).output? (w.within L) = some d := hd
    have hdecode : (w.within L).resolver.decode d = .ok v :=
      hN _ (w.serves_within hL) _ hL.2.2 decodeLevels (Nat.lt_succ_of_le hheight)
    simp only [Outcome.value, houtput, Resolver.literalValue, hdecode, Option.getD_some]

/-- Where a program has a meaning, every run of it with sufficiently large limits has the outcome
that the program means and appends the output that it means. -/
theorem run_agrees_with_meaning (p : Core.Program) (r : Core.Reply (Option Value))
    (h : p.run none = .ok r) (w : World) (hw : w.Mirrored) :
    ∃ N, ∀ maxDepth ≥ N, ∀ maxSteps ≥ N, ∀ nesting ≥ N,
      (run p.descriptor (w.within ⟨maxDepth, maxSteps, nesting⟩)).1.Agrees
        (run p.descriptor (w.within ⟨maxDepth, maxSteps, nesting⟩)).2 r.ending ∧
      (run p.descriptor (w.within ⟨maxDepth, maxSteps, nesting⟩)).2.transcript.output =
        w.transcript.output ++ r.output := by
  have hfeeds : Core.Feeds w.resolver.slots Core.inputVar none := fun v hv => nomatch hv
  obtain ⟨w', -, hout, hends⟩ := simulates_program p h hfeeds Core.inputVar_settled hw
  suffices hruns : Eventually fun L => (run p.descriptor (w.within L)).1.Agrees
      (run p.descriptor (w.within L)).2 r.ending ∧
      (run p.descriptor (w.within L)).2.transcript.output = w.transcript.output ++ r.output by
    obtain ⟨N, hN⟩ := hruns
    exact ⟨N, fun maxDepth hdepth maxSteps hsteps nesting hnesting =>
      hN ⟨maxDepth, maxSteps, nesting⟩ ⟨hdepth, hsteps, hnesting⟩⟩
  cases hr : r.ending with
  | ok v? =>
    rw [hr] at hends
    obtain ⟨key?, hkey, hL⟩ := hends
    have hsome : key?.isSome = v?.isSome := by cases hkey <;> rfl
    refine (hL.and (eventually_value hkey)).mono fun L hL => ?_
    have hrun : run p.descriptor (w.within L) = (.finished key?, w'.within L) :=
      run_of_ok ((evaluate_within _ w L).trans hL.1)
    rw [hrun]
    exact ⟨⟨⟨key?, rfl, hsome⟩, hL.2⟩, hout⟩
  | error message =>
    rw [hr] at hends
    obtain ⟨e, he, hL⟩ := hends
    refine hL.mono fun L hL => ?_
    have hrun : run p.descriptor (w.within L) =
        (.failed e, (w'.within L).log ⟨.debug, .interpreter, "Uncaught fault"⟩) :=
      run_of_fault ((evaluate_within _ w L).trans hL)
    rw [hrun]
    exact ⟨⟨e, rfl, he⟩, (Transcript.output_add_log _ _).trans hout⟩

/-- A program that writes, raises in the middle of a sequence and goes on with the message. -/
def recovering : Core.Program :=
  .recover
    (.bind (.produce (.scalar ⟨.ofInt 21, rfl⟩))
      (.gather [.putString (.op "concat" [.scalar ⟨.ofStr "got ", rfl⟩, .input]),
        .produce (.op "mul" [.input, .scalar ⟨.ofInt 2, rfl⟩]),
          .raise (.scalar ⟨.ofStr "late", rfl⟩)]))
    (.produce (.tuple [.input, .op "if" [.input, .scalar ⟨.ofInt 1, rfl⟩, .op "unknown" []]]))

theorem recovering_agrees_with_meaning :
    ∃ N, ∀ maxDepth ≥ N, ∀ maxSteps ≥ N, ∀ nesting ≥ N,
      (run recovering.descriptor (({} : World).within ⟨maxDepth, maxSteps, nesting⟩)).1.Agrees
        (run recovering.descriptor (({} : World).within ⟨maxDepth, maxSteps, nesting⟩)).2
        (.ok (some (.ofList [.ofStr "late", .ofInt 1]))) ∧
      (run recovering.descriptor
        (({} : World).within ⟨maxDepth, maxSteps, nesting⟩)).2.transcript.output =
        "" ++ "got 21" :=
  run_agrees_with_meaning recovering ⟨.ok (some (.ofList [.ofStr "late", .ofInt 1])), "got 21"⟩
    (by rfl) {}
    (.of_empty rfl rfl)

end EffectTree.Evaluation
