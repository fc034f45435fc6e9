import Mathlib.Data.List.Nodup
import EffectTree.Proofs.EvaluationScopes

/-!
# The meaning of comprehensions

All generators of a comprehension bind their names in one scope, again and again, and what an
earlier round has bound stays there. If sources and conditions do not mention names that are bound
only later, none of that is seen: the comprehension gives the nested flat-map over its generators,
in which each binding extends the scopes for what follows it.
-/
namespace EffectTree

def Generator.boundNames : List Generator → List String
  | [] => []
  | .clause target .. :: rest => target.targetNames ++ boundNames rest

/-- No source mentions a name that is bound by its generator or a later one, and no condition one
that is bound by a later generator. -/
def Generator.InOrder : List Generator → Prop
  | [] => True
  | .clause target source conditions _ :: rest =>
      (∀ name ∈ source.free, name ∉ target.targetNames ++ boundNames rest) ∧
      (∀ name ∈ Expr.freeAll conditions, name ∉ boundNames rest) ∧ InOrder rest

theorem Generator.boundNames_append (generators others : List Generator) :
    boundNames (generators ++ others) = boundNames generators ++ boundNames others := by
  induction generators with
  | nil => rfl
  | cons generator generators ih =>
    obtain ⟨target, source, conditions, isAsync⟩ := generator
    simp [boundNames, ih]

/-- Where each name is bound once, it suffices that sources mention no names but those of earlier
generators, and conditions those of their own as well. -/
theorem Generator.inOrder_of_nodup {generators : List Generator}
    (honce : (boundNames generators).Nodup)
    (hmentions : ∀ before target source conditions isAsync after,
      generators = before ++ .clause target source conditions isAsync :: after →
        (∀ name ∈ source.free, name ∈ boundNames generators → name ∈ boundNames before) ∧
        ∀ name ∈ Expr.freeAll conditions, name ∈ boundNames generators →
          name ∈ boundNames before ++ target.targetNames) : InOrder generators := by
  -- The conditions are on all generators, so the induction runs along a suffix of them.
  suffices h : ∀ after before, generators = before ++ after → InOrder after from h generators [] rfl
  intro after
  induction after with
  | nil => exact fun _ _ => trivial
  | cons generator after ih =>
    intro before hgenerators
    obtain ⟨target, source, conditions, isAsync⟩ := generator
    obtain ⟨hsource, hconditions⟩ :=
      hmentions before target source conditions isAsync after hgenerators
    have hnames : boundNames generators =
        boundNames before ++ (target.targetNames ++ boundNames after) := by
      rw [hgenerators, boundNames_append, boundNames]
    rw [hnames] at honce hsource hconditions
    obtain ⟨-, hlater, hbefore⟩ := List.nodup_append'.mp honce
    obtain ⟨-, -, htarget⟩ := List.nodup_append'.mp hlater
    refine ⟨fun name hname hbound =>
      hbefore (hsource name hname (List.mem_append_right _ hbound)) hbound,
      fun name hname hbound => ?_, ih (before ++ [.clause target source conditions isAsync])
        (by simp [hgenerators])⟩
    have hbound' := List.mem_append_right target.targetNames hbound
    rcases List.mem_append.mp (hconditions name hname
      (List.mem_append_right _ hbound')) with hmem | hmem
    · exact hbefore hmem hbound'
    · exact htarget hmem hbound

namespace Expression

open Generator (boundNames InOrder)

def under {α : Type} (scopes : List (Table Value)) (x : Eval α) : Eval α := fun frame =>
  let (r, after) := x { frame with scopes }
  (r, { after with scopes := frame.scopes })

/-- Scopes with one more, in which the names of a target stand for the parts of a value. -/
def extended (target : Expr) (v : Value) (env : List (Table Value)) : Eval (List (Table Value)) :=
  fun frame =>
  match bindTarget target v with
  | .ok parts =>
      let (scope, things) := place parts [] frame.things
      (.ok (scope :: env), { frame with things })
  | .error e => (.error e, frame)

/-- The elements that generators give in scopes: those for each item of the first source that meets
the conditions, one after another. -/
def flatMapped (element : Expr) : List Generator → List (Table Value) → Eval (List Value)
  | [], env => do return [← under env (counted element (eval element))]
  | .clause target source conditions isAsync :: rest, env => do
      if isAsync then refuse "Async comprehensions are not supported"
      else
        let items : List Value ← Evaluator.perform
          (.iterate (← under env (counted source (eval source))))
        let lists ← items.mapM fun item => do
          let env ← extended target item env
          if ← under env (evalConditions conditions) then flatMapped element rest env else return []
        return lists.flatten

variable {later : List String} {outer env : List (Table Value)} {f g : Frame} {c : Collected}

/-- Generators are at the place where the flat-map is: names that no later generator binds stand for
the same. -/
structure Follows (later : List String) (outer env : List (Table Value)) (f g : Frame) : Prop where
  nodes : f.nodes = g.nodes
  things : f.things = g.things
  inside : ∃ scope, f.scopes = scope :: outer
  outside : g.scopes = outer
  lookups : ∀ name ∉ later, lookup name f.scopes = lookup name env

/-- Names of a target stand for the parts of a value, and others for what they stood for. -/
theorem Follows.bound {target : Expr} (h : Follows (target.targetNames ++ later) outer env f g)
    {v : Value} {parts : List (String × Value)} (hparts : bindTarget target v = .ok parts)
    {scope : Table Value} (hscope : f.scopes = scope :: outer) :
    Follows later outer ((place parts [] g.things).1 :: env)
      { f with
        scopes := (place parts scope f.things).1 :: outer
        things := (place parts scope f.things).2 }
      { g with things := (place parts [] g.things).2 } := by
  refine ⟨h.nodes, ?_, ⟨_, rfl⟩, h.outside, fun name hname => ?_⟩
  · dsimp only
    rw [h.things, place_things _ scope []]
  · dsimp only
    rw [lookup_cons, lookup_cons, get?_place, h.things]
    by_cases htarget : name ∈ target.targetNames
    · rw [← map_fst_bindTarget target hparts, ← mem_keys_place, ← Table.get?_isSome] at htarget
      obtain ⟨v, hv⟩ := Option.isSome_iff_exists.mp htarget
      rw [hv, Option.some_or]
    · have hlookup := h.lookups name (by simp [htarget, hname])
      rw [hscope, lookup_cons] at hlookup
      rw [← map_fst_bindTarget target hparts, ← mem_keys_place, ← Table.get?_eq_none_iff] at htarget
      rw [htarget, Option.none_or]
      exact hlookup

theorem Follows.unbound {target : Expr} {v : Value} {parts : List (String × Value)} {things : Nat}
    (hparts : bindTarget target v = .ok parts)
    (h : Follows later outer ((place parts [] things).1 :: env) f g) :
    Follows (target.targetNames ++ later) outer env f g := by
  refine ⟨h.nodes, h.things, h.inside, h.outside, fun name hname => ?_⟩
  obtain ⟨htarget, hlater⟩ := not_or.mp (mt List.mem_append.mpr hname)
  rw [← map_fst_bindTarget target hparts, ← mem_keys_place, ← Table.get?_eq_none_iff] at htarget
  rw [h.lookups name hlater, lookup_cons, htarget]

/-- Generators add to a collection what the flat-map gives, unless that is too much. -/
structure Gathers (later : List String) (outer env : List (Table Value)) (c : Collected)
    (x : Except Fault Collected × Frame) (y : Except Fault (List Value) × Frame) : Prop where
  given : ∀ c', x.1 = .ok c' → ∃ vs, y.1 = .ok vs ∧ c'.items = vs.reverse ++ c.items ∧
    Follows later outer env x.2 y.2
  takes : ∀ vs, y.1 = .ok vs → c.count + vs.length ≤ maxRange → ∃ c', x.1 = .ok c'

namespace Gathers

theorem evaluation {α : Type} {names : List String} {x : Eval α} {k : α → Eval Collected}
    {k' : α → Eval (List Value)} (hx : Alike names x x) (hnames : ∀ name ∈ names, name ∉ later)
    (h : Follows later outer env f g)
    (hk : ∀ a f' g', Follows later outer env f' g' → Gathers later outer env c (k a f') (k' a g')) :
    Gathers later outer env c ((x >>= k) f) ((under env x >>= k') g) := by
  obtain ⟨hresult, hagree, hleft, -⟩ := hx f { g with scopes := env }
    ⟨h.nodes, h.things, fun name hname => h.lookups name (hnames name hname)⟩
  rw [bind_run, bind_run, under]
  rcases hf : x f with ⟨r, f'⟩
  rcases hg : x { g with scopes := env } with ⟨r', g'⟩
  rw [hf, hg] at hresult hagree
  rw [hf] at hleft
  dsimp only at hresult hagree hleft ⊢
  subst hresult
  cases r with
  | error e => exact ⟨nofun, nofun⟩
  | ok a =>
    refine hk a f' _ ⟨hagree.nodes, hagree.things, ?_, h.outside, fun name hname => ?_⟩
    · rw [hleft]
      exact h.inside
    · rw [hleft]
      exact h.lookups name hname

theorem outcome {α : Type} (r : Except Fault α) {k : α → Eval Collected}
    {k' : α → Eval (List Value)} (hk : ∀ a, Gathers later outer env c (k a f) (k' a g)) :
    Gathers later outer env c ((Operation.pure r >>= k) f) ((Operation.pure r >>= k') g) := by
  rw [bind_run, bind_run]
  cases r with
  | error e => exact ⟨nofun, nofun⟩
  | ok a => exact hk a

/-- What is bound for an item can be seen by what follows it, and is left behind at the next
item. -/
theorem binding {target : Expr} {v : Value} {k : Eval Collected} {k' : List (Table Value) →
    Eval (List Value)}
    (h : Follows (target.targetNames ++ later) outer env f g)
    (hk : ∀ env' f' g', Follows later outer env' f' g' →
      Gathers later outer env' c (k f') (k' env' g')) :
    Gathers (target.targetNames ++ later) outer env c ((Operation.bound target v >>= fun _ => k) f)
      ((extended target v env >>= k') g) := by
  obtain ⟨scope, hscope⟩ := h.inside
  rw [bind_run, bind_run, Operation.bound, extended]
  cases hparts : bindTarget target v with
  | error e => constructor <;> intro _ h <;> cases h
  | ok parts =>
    have hrest := hk _ _ _ (h.bound hparts hscope)
    rw [hscope]
    refine ⟨fun c' hc' => ?_, hrest.takes⟩
    obtain ⟨vs, hvs, hitems, hfollows⟩ := hrest.given c' hc'
    exact ⟨vs, hvs, hitems, .unbound hparts hfollows⟩

theorem append {x : Eval Collected} {y : Eval (List Value)} {k : Collected → Eval Collected}
    {z : Eval (List Value)} (h : Gathers later outer env c (x f) (y g))
    (hk : ∀ c' f' g', Follows later outer env f' g' → Gathers later outer env c' (k c' f') (z g')) :
    Gathers later outer env c ((x >>= k) f) ((do let vs ← y; let ws ← z; return vs ++ ws) g) := by
  rcases hx : x f with ⟨r, f'⟩
  rcases hy : y g with ⟨s, g'⟩
  rw [hx, hy] at h
  rw [bind_run, bind_run, hx, hy]
  cases s with
  | error e =>
    refine ⟨fun c'' hc'' => ?_, nofun⟩
    cases r with
    | error e' => cases hc''
    | ok c' =>
      obtain ⟨vs, ⟨⟩, -⟩ := h.given c' rfl
  | ok vs =>
    dsimp only
    rw [bind_run]
    cases r with
    | error e =>
      refine ⟨nofun, fun total htotal hwithin => ?_⟩
      have hlength : vs.length ≤ total.length := by
        split at htotal <;> cases htotal
        simp
      obtain ⟨c', ⟨⟩⟩ := h.takes vs rfl (by omega)
    | ok c' =>
      obtain ⟨_, ⟨⟩, hitems, hfollows⟩ := h.given c' rfl
      have hcount : c'.count = c.count + vs.length := by
        rw [← c'.length_eq, hitems, List.length_append, List.length_reverse, c.length_eq,
          Nat.add_comm]
      have hrest := hk c' f' g' hfollows
      rcases hz : z g' with ⟨_ | ws, g''⟩
      · rw [hz] at hrest
        refine ⟨fun c'' hc'' => ?_, nofun⟩
        obtain ⟨_, ⟨⟩, -⟩ := hrest.given c'' hc''
      · rw [hz] at hrest
        refine ⟨fun c'' hc'' => ?_, fun total htotal hwithin => hrest.takes ws rfl ?_⟩
        · obtain ⟨_, ⟨⟩, hitems', hfollows'⟩ := hrest.given c'' hc''
          exact ⟨vs ++ ws, rfl, by rw [hitems', hitems, List.reverse_append, List.append_assoc],
            hfollows'⟩
        · cases htotal
          rw [List.length_append] at hwithin
          omega

theorem foldlM {step : Collected → Value → Eval Collected} {step' : Value → Eval (List Value)}
    (hstep : ∀ c v f g, Follows later outer env f g →
      Gathers later outer env c (step c v f) (step' v g)) :
    ∀ (items : List Value) (c : Collected) (f g : Frame), Follows later outer env f g →
      Gathers later outer env c (items.foldlM step c f)
        ((do let lists ← items.mapM step'; return lists.flatten) g)
  | [], c, f, g, h => ⟨fun c' hc' => ⟨[], rfl, by cases hc'; rfl, h⟩, fun _ _ _ => ⟨c, rfl⟩⟩
  | item :: items, c, f, g, h => by
      have hcons : (do let lists ← (item :: items).mapM step'; return lists.flatten) =
          (do
            let vs ← step' item
            let ws ← (do let lists ← items.mapM step'; return lists.flatten)
            return vs ++ ws) := by
        simp [List.mapM_cons]
      rw [List.foldlM_cons, hcons]
      exact append (hstep c item f g h) fun c' f' g' => foldlM hstep items c' f' g'

end Gathers

/-- The scope of a comprehension takes the elements of the flat-map. -/
theorem gathers_generate (element : Expr) : ∀ (generators : List Generator), InOrder generators →
    ∀ {env : List (Table Value)} {f g : Frame} {c : Collected},
      Follows (boundNames generators) outer env f g →
      Gathers (boundNames generators) outer env c
        (generate (m := Eval) (counted element (eval element)) generators c f)
          (flatMapped element generators env g)
  | [], _, env, f, g, c, h => by
      simp only [generate, flatMapped]
      refine Gathers.evaluation (respects_alike.evaluation element) (fun _ _ => List.not_mem_nil) h
        fun v f' g' h' => ⟨fun c' hc' => ⟨[v], rfl, ?_, h'⟩, fun vs hvs hwithin => ?_⟩
      · change c.add v = .ok c' at hc'
        unfold Collected.add at hc'
        split at hc' <;> cases hc'
        rfl
      · cases hvs
        exact ⟨_, dif_pos (Nat.lt_of_succ_le hwithin)⟩
  | .clause target source conditions isAsync :: rest, hin, env, f, g, c, h => by
      obtain ⟨hsource, hconditions, hrest⟩ := hin
      simp only [generate, flatMapped]
      by_cases hasync : isAsync = true
      · rw [if_pos hasync, if_pos hasync]
        exact ⟨nofun, nofun⟩
      rw [if_neg hasync, if_neg hasync]
      refine Gathers.evaluation
        (respects_alike.counted source (respects_alike.eval source (List.Subset.refl _)))
        hsource h fun v f' g' h' => ?_
      refine Gathers.outcome (sourceItems v) fun items => Gathers.foldlM (fun c item f g h => ?_)
        items c f' g' h'
      refine Gathers.binding h fun env' f' g' h' => ?_
      refine Gathers.evaluation (respects_alike.evalConditions conditions (List.Subset.refl _))
        hconditions h'
        fun holds f' g' h' => ?_
      cases holds with
      | true => exact gathers_generate element rest hrest h'
      | false => exact ⟨fun c' hc' => ⟨[], rfl, by cases hc'; rfl, h'⟩, fun _ _ _ => ⟨c, rfl⟩⟩

/-- A comprehension whose names are bound in order gives the elements of the flat-map, if they are
not too many, and fails otherwise. However it ends, the scopes are as they were. -/
theorem comprehension_eq_flatMapped (isList : Bool) (element : Expr) (generators : List Generator)
    (h : InOrder generators) (frame : Frame) :
    (∀ v after, eval (m := Eval) (.comprehension isList element generators) frame = (.ok v, after) ↔
      ∃ vs, flatMapped element generators frame.scopes frame = (.ok vs, after) ∧
        v = Value.ofList vs ∧
        vs.length ≤ maxRange) ∧
    (eval (m := Eval) (.comprehension isList element generators) frame).2.scopes =
      frame.scopes := by
  refine ⟨fun v after => ?_, scopes_eval ..⟩
  have hgathers : Gathers (boundNames generators) frame.scopes frame.scopes {}
      (generate (m := Eval) (counted element (eval element)) generators {}
        { frame with scopes := [] :: frame.scopes })
      (flatMapped element generators frame.scopes frame) :=
    gathers_generate element generators h
      ⟨rfl, rfl, ⟨[], rfl⟩, rfl, fun name _ => lookup_cons_nil name _⟩
  have hscope (x : Eval Collected) : Evaluator.inScope x frame =
      let (r, inner) := x { frame with scopes := [] :: frame.scopes }
      (r, { inner with scopes := inner.scopes.drop 1 }) := rfl
  have hend {inner after : Frame}
      (hfollows : Follows (boundNames generators) frame.scopes frame.scopes inner after) :
      { inner with scopes := inner.scopes.drop 1 } = after := by
    obtain ⟨scope, hinside⟩ := hfollows.inside
    rw [hinside, hfollows.nodes, hfollows.things, List.drop_one, List.tail_cons, ← hfollows.outside]
  rw [eval, bind_run_eq_ok, hscope]
  rcases hrun : generate (m := Eval) (counted element (eval element)) generators {}
    { frame with scopes := [] :: frame.scopes } with ⟨r, inner⟩
  rcases hflat : flatMapped element generators frame.scopes frame with ⟨s, outer⟩
  rw [hrun, hflat] at hgathers
  constructor
  · rintro ⟨c, mid, hc, hv⟩
    cases hc
    cases hv
    obtain ⟨vs, hvs, hitems, hfollows⟩ := hgathers.given c rfl
    have hvs' : c.items.reverse = vs := by simp [hitems]
    refine ⟨vs, Prod.ext hvs (hend hfollows).symm, by rw [hvs'], ?_⟩
    rw [← hvs', List.length_reverse, c.length_eq]
    exact c.within
  · rintro ⟨vs, hvs, rfl, hwithin⟩
    cases hvs
    obtain ⟨c, hc⟩ := hgathers.takes vs rfl (by simpa using hwithin)
    obtain ⟨_, ⟨⟩, hitems, hfollows⟩ := hgathers.given c hc
    refine ⟨c, after, Prod.ext hc (hend hfollows), ?_⟩
    have hvs : c.items.reverse = vs := by simp [hitems]
    rw [hvs]
    rfl

def pairs : List Generator :=
  [.clause (.name "x") (.list [.constant (.bool true), .constant (.bool false)]) [.name "x"] false,
    .clause (.name "y") (.list [.name "x", .constant (.bool false)]) [] false]

/-- The comprehension of pairs gives one pair for each item of the inner source, for the true item
of the outer one. -/
theorem pairs_eq_flatMapped : InOrder pairs ∧ ∃ vs after,
    eval (m := Eval) (.comprehension true (.tuple [.name "x", .name "y"]) pairs) {} =
      (.ok (.ofList vs), after) ∧
      Value.eqv (.ofList vs) (.ofList
        [.ofTuple [.bool true, .bool true], .ofTuple [.bool true, .bool false]]) := by
  have hpairs : InOrder pairs := by
    simp [pairs, InOrder, boundNames, Expr.free, Expr.freeAll, Expr.targetNames]
  have hvalue : ((flatMapped (.tuple [.name "x", .name "y"]) pairs [] {}).1.toOption.any fun vs =>
      decide (vs.length ≤ maxRange) && Value.eqv (.ofList vs)
        (.ofList [.ofTuple [.bool true, .bool true], .ofTuple [.bool true, .bool false]])) =
          true := by decide +kernel
  refine ⟨hpairs, ?_⟩
  rcases hflat : flatMapped (.tuple [.name "x", .name "y"]) pairs [] {} with ⟨_ | vs, after⟩
  · rw [hflat] at hvalue
    cases hvalue
  · rw [hflat, Except.toOption, Option.any_some, Bool.and_eq_true, decide_eq_true_eq] at hvalue
    exact ⟨vs, after, ((comprehension_eq_flatMapped true _ pairs hpairs {}).1 _ _).mpr
      ⟨vs, hflat, rfl, hvalue.1⟩,
      hvalue.2⟩

end Expression

end EffectTree
