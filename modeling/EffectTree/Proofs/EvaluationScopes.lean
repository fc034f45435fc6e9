import EffectTree.Proofs.PlainData
import EffectTree.Proofs.RelatedEvaluations

/-!
# Scopes of evaluations

An evaluation depends on what names stand for and on nothing else in the scopes. It leaves them as
they were, whether it ends with a value or with a fault: names are bound only in scopes that are
left again.
-/
namespace EffectTree.Expression

theorem lookup_cons (name : String) (scope : Table Value) (scopes : List (Table Value)) :
    lookup name (scope :: scopes) = match scope.get? name with
      | some v => .ok v
      | none => lookup name scopes := by
  simp only [lookup, List.findSome?_cons]
  cases scope.get? name <;> rfl

theorem lookup_cons_nil (name : String) (scopes : List (Table Value)) :
    lookup name ([] :: scopes) = lookup name scopes :=
  lookup_cons name [] scopes

theorem lookup_cons_congr {name : String} {scope scope' : Table Value}
    {scopes scopes' : List (Table Value)} (h : scope.get? name = scope'.get? name)
    (hscopes : name ∈ scope.keys ∨ lookup name scopes = lookup name scopes') :
    lookup name (scope :: scopes) = lookup name (scope' :: scopes') := by
  rw [lookup_cons, lookup_cons, ← h]
  cases hget : scope.get? name with
  | some v => rfl
  | none => exact hscopes.resolve_left (Table.get?_eq_none_iff.mp hget)

/-- What values are numbered with when they are put into a scope does not depend on what is
there. -/
theorem place_things (parts : List (String × Value)) (scope scope' : Table Value) (things : Nat) :
    (place parts scope things).2 = (place parts scope' things).2 := by
  induction parts generalizing scope scope' things with
  | nil => rfl
  | cons part parts ih => exact ih ..

/-- What is put into a scope comes before what is there already. -/
theorem get?_place (parts : List (String × Value)) (scope : Table Value) (things : Nat)
    (name : String) :
    (place parts scope things).1.get? name = ((place parts [] things).1.get? name).or
    (scope.get? name) := by
  induction parts generalizing scope things with
  | nil => rfl
  | cons part parts ih =>
    obtain ⟨key, v⟩ := part
    simp only [place]
    rw [ih, ih (Table.put [] key _)]
    by_cases hkey : name = key
    · subst hkey
      simp
    · rw [Table.get?_put_ne _ _ hkey, Table.get?_put_ne _ _ hkey, Table.get?_nil, Option.or_none]

theorem mem_keys_place {parts : List (String × Value)} {things : Nat} {name : String} :
    name ∈ (place parts [] things).1.keys ↔ name ∈ parts.map Prod.fst := by
  induction parts generalizing things with
  | nil => rfl
  | cons part parts ih =>
    obtain ⟨key, v⟩ := part
    simp only [place]
    rw [← Table.get?_isSome, get?_place, Option.isSome_or, Bool.or_eq_true, Table.get?_isSome, ih,
      List.map_cons,
      List.mem_cons, or_comm]
    refine or_congr_left ?_
    by_cases hkey : name = key
    · subst hkey
      simp
    · simp [Table.get?_put_ne _ _ hkey, hkey]

mutual

theorem map_fst_bindTarget {v : Value} {parts : List (String × Value)} : (target : Expr) →
    bindTarget target v = .ok parts → parts.map Prod.fst = target.targetNames
  | .name id, h => by
      cases h
      rfl
  | .tuple targets, h => by
      obtain ⟨vs, -, h⟩ := Except.bind_eq_ok.mp h
      by_cases hlength : vs.length = targets.length
      · rw [if_neg (not_not_intro hlength)] at h
        exact map_fst_bindTargets targets hlength h
      · rw [if_pos hlength] at h
        cases h
  | .constant _, h | .binary .., h | .unary .., h | .logical .., h | .compare .., h
  | .conditional .., h
  | .item .., h | .slice .., h | .field .., h | .call .., h | .list _, h | .set _, h | .dict _, h
  | .text _, h
  | .formatted .., h | .comprehension .., h | .unsupported _, h => nomatch h

theorem map_fst_bindTargets {vs : List Value} {parts : List (String × Value)} :
    (targets : List Expr) →
    vs.length = targets.length → bindTargets targets vs = .ok parts →
      parts.map Prod.fst = Expr.targetNamesAll targets
  | [], _, h => by
      cases h
      rfl
  | t :: ts, hlength, h => by
      cases vs with
      | nil => cases hlength
      | cons v vs =>
        obtain ⟨first, hfirst, h⟩ := Except.bind_eq_ok.mp h
        obtain ⟨others, hothers, h⟩ := Except.bind_eq_ok.mp h
        cases h
        rw [List.map_append, map_fst_bindTarget t hfirst,
          map_fst_bindTargets ts (Nat.succ.inj hlength) hothers]
        rfl

end

variable {α β : Type} {names : List String}

/-- Frames in which names stand for the same. -/
structure Agree (names : List String) (f g : Frame) : Prop where
  nodes : f.nodes = g.nodes
  things : f.things = g.things
  lookups : ∀ name ∈ names, lookup name f.scopes = lookup name g.scopes

/-- Evaluations that give the same where names stand for the same, and leave scopes as they were. -/
def Alike (names : List String) (x y : Eval α) : Prop :=
  ∀ f g, Agree names f g → (x f).1 = (y g).1 ∧ Agree names (x f).2 (y g).2 ∧
    (x f).2.scopes = f.scopes ∧ (y g).2.scopes = g.scopes

/-- Frames with the same innermost scope, in which names stand for the same. -/
structure AgreeInside (names : List String) (scope : Table Value)
    (outer outer' : List (Table Value)) (f g : Frame) :
    Prop where
  nodes : f.nodes = g.nodes
  things : f.things = g.things
  left : f.scopes = scope :: outer
  right : g.scopes = scope :: outer'
  lookups : ∀ name ∈ names, name ∈ scope.keys ∨ lookup name outer = lookup name outer'

/-- Evaluations that give the same where names stand for the same, and do the same to the innermost
scope. -/
def AlikeInside (names : List String) (x y : Eval α) : Prop :=
  ∀ scope outer outer' f g, AgreeInside names scope outer outer' f g → (x f).1 = (y g).1 ∧
    ∃ scope', scope.keys ⊆ scope'.keys ∧ AgreeInside names scope' outer outer' (x f).2 (y g).2

theorem Alike.pure (a : α) : Alike names (Pure.pure a : Eval α) (Pure.pure a) :=
  fun _ _ h => ⟨rfl, h, rfl, rfl⟩

theorem Alike.bind {x y : Eval α} {f g : α → Eval β} (hxy : Alike names x y)
    (hfg : ∀ a, Alike names (f a) (g a)) :
    Alike names (x >>= f) (y >>= g) := by
  intro left right h
  obtain ⟨hresult, hagree, hleft, hright⟩ := hxy left right h
  rw [bind_run, bind_run]
  rcases hx : x left with ⟨r, after⟩
  rcases hy : y right with ⟨r', after'⟩
  rw [hx, hy] at hresult hagree
  rw [hx] at hleft
  rw [hy] at hright
  dsimp only at hresult hagree hleft hright ⊢
  subst hresult
  cases r with
  | error e => exact ⟨rfl, hagree, hleft, hright⟩
  | ok a =>
    obtain ⟨hresult, hagree, hleft', hright'⟩ := hfg a after after' hagree
    exact ⟨hresult, hagree, hleft'.trans hleft, hright'.trans hright⟩

theorem Alike.perform (o : Operation) (hlookup : ∀ name, o = .lookup name → name ∈ names)
    (hbind : ∀ target v, o ≠ .bind target v) : Alike names o.run o.run := by
  intro f g h
  cases o with
  | visit node =>
    simp only [Operation.run, Operation.visited, h.nodes]
    split
    · exact ⟨rfl, h, rfl, rfl⟩
    · exact ⟨rfl, ⟨rfl, h.things, h.lookups⟩, rfl, rfl⟩
  | track v =>
    simp only [Operation.run, Operation.tracked, h.things, true_and, and_true]
    exact ⟨h.nodes, rfl, h.lookups⟩
  | lookup name => exact ⟨h.lookups name (hlookup name rfl), h, rfl, rfl⟩
  | bind target v => exact absurd rfl (hbind target v)
  | _ => exact ⟨rfl, h, rfl, rfl⟩

theorem AlikeInside.follow {x y : Eval α} {f g : α → Eval β} (hxy : AlikeInside names x y)
    (hfg : ∀ a, AlikeInside names (f a) (g a)) : AlikeInside names (x >>= f) (y >>= g) := by
  intro scope outer outer' left right h
  obtain ⟨hresult, scope₁, hkeys, hagree⟩ := hxy scope outer outer' left right h
  rw [bind_run, bind_run]
  rcases hx : x left with ⟨r, after⟩
  rcases hy : y right with ⟨r', after'⟩
  rw [hx, hy] at hresult hagree
  dsimp only at hresult hagree ⊢
  subst hresult
  cases r with
  | error e => exact ⟨rfl, scope₁, hkeys, hagree⟩
  | ok a =>
    obtain ⟨hresult, scope₂, hkeys', hagree⟩ := hfg a scope₁ outer outer' after after' hagree
    exact ⟨hresult, scope₂, fun _ hname => hkeys' (hkeys hname), hagree⟩

theorem Alike.inside {x y : Eval α} (h : Alike names x y) : AlikeInside names x y := by
  intro scope outer outer' f g hframes
  have hagree : Agree names f g := by
    refine ⟨hframes.nodes, hframes.things, fun name hname => ?_⟩
    rw [hframes.left, hframes.right]
    exact lookup_cons_congr rfl (hframes.lookups name hname)
  obtain ⟨hresult, hafter, hleft, hright⟩ := h f g hagree
  exact ⟨hresult, scope, fun _ hname => hname, hafter.nodes, hafter.things,
    hleft.trans hframes.left,
    hright.trans hframes.right, hframes.lookups⟩

theorem AlikeInside.inScope {x y : Eval α} (h : AlikeInside names x y) :
    Alike names (Evaluator.inScope x) (Evaluator.inScope y) := by
  intro f g hframes
  obtain ⟨hresult, scope, -, hafter⟩ := h [] f.scopes g.scopes { f with scopes := [] :: f.scopes }
    { g with scopes := [] :: g.scopes }
    ⟨hframes.nodes, hframes.things, rfl, rfl, fun name hname => .inr (hframes.lookups name hname)⟩
  have hleft : (Evaluator.inScope x f).2.scopes = f.scopes := congrArg (List.drop 1) hafter.left
  have hright : (Evaluator.inScope y g).2.scopes = g.scopes := congrArg (List.drop 1) hafter.right
  refine ⟨hresult, ⟨hafter.nodes, hafter.things, fun name hname => ?_⟩, hleft, hright⟩
  rw [hleft, hright]
  exact hframes.lookups name hname

theorem AlikeInside.binding {x y : Eval α} (target : Expr) (v : Value)
    (h : AlikeInside (target.targetNames ++ names) x y) :
    AlikeInside names (Operation.bound target v >>= fun _ => x)
      (Operation.bound target v >>= fun _ => y) := by
  intro scope outer outer' f g hframes
  rw [bind_run, bind_run]
  simp only [Operation.bound, hframes.left, hframes.right, hframes.things, List.headD_cons,
    List.tail_cons]
  cases hparts : bindTarget target v with
  | error e => exact ⟨rfl, scope, fun _ hname => hname, hframes⟩
  | ok parts =>
    have hkeys : scope.keys ⊆ (place parts scope g.things).1.keys := by
      intro name hname
      rw [← Table.get?_isSome, get?_place, Option.isSome_or, Table.get?_isSome.mpr hname,
        Bool.or_true]
    have hnames : target.targetNames ⊆ (place parts scope g.things).1.keys := by
      intro name hname
      rw [← map_fst_bindTarget target hparts, ← mem_keys_place, ← Table.get?_isSome] at hname
      rw [← Table.get?_isSome, get?_place, Option.isSome_or, hname, Bool.true_or]
    obtain ⟨hresult, scope', hkeys', hafter⟩ := h (place parts scope g.things).1 outer outer'
      { f with
        scopes := (place parts scope g.things).1 :: outer
        things := (place parts scope g.things).2 }
      { g with
        scopes := (place parts scope g.things).1 :: outer'
        things := (place parts scope g.things).2 }
      ⟨hframes.nodes, rfl, rfl, rfl, fun name hname => (List.mem_append.mp hname).elim
        (fun ht => .inl (hnames ht))
        fun hn => (hframes.lookups name hn).imp_left fun hk => hkeys hk⟩
    exact ⟨hresult, scope', fun _ hname => hkeys' (hkeys hname), hafter.nodes, hafter.things,
      hafter.left, hafter.right,
      fun name hname => hafter.lookups name (List.mem_append_right _ hname)⟩

theorem respects_alike : Respects (m := Eval) (n := Eval) (fun names {_} => Alike names)
    (fun names {_} => AlikeInside names) where
  pure _ _ := Alike.pure
  bind := Alike.bind
  perform := Alike.perform
  inScope := AlikeInside.inScope
  within := Alike.inside
  follow := AlikeInside.follow
  binding := AlikeInside.binding

theorem Agree.refl (names : List String) (frame : Frame) : Agree names frame frame :=
  ⟨rfl, rfl, fun _ _ => rfl⟩

/-- However an evaluation ends, the scopes are as they were. -/
theorem scopes_eval (e : Expr) (frame : Frame) :
    (eval (m := Eval) e frame).2.scopes = frame.scopes :=
  (respects_alike.eval e (List.Subset.refl _) frame frame (.refl ..)).2.2.1

end EffectTree.Expression
