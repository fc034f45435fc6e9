import Mathlib
import EffectTree.Descriptor.Coercion
import EffectTree.Operator

/-!
# Plain data

Scalars and new lists of plain data. Operators that are given plain data produce plain data, so a
descriptor of the outcome says all there is to say about it.
-/
namespace EffectTree

theorem Except.bind_eq_ok {ε α β : Type} {x : Except ε α} {f : α → Except ε β} {b : β} :
    (x >>= f) = .ok b ↔ ∃ a, x = .ok a ∧ f a = .ok b := by
  cases x <;> simp [bind, Except.bind]

theorem Except.bind_eq_error {ε α β : Type} {x : Except ε α} {f : α → Except ε β} {e : ε} :
    (x >>= f) = .error e ↔ x = .error e ∨ ∃ a, x = .ok a ∧ f a = .error e := by
  cases x <;> simp [bind, Except.bind]

theorem Except.map_eq_ok {ε α β : Type} {x : Except ε α} {f : α → β} {b : β} :
    x.map f = .ok b ↔ ∃ a, x = .ok a ∧ f a = b := by
  cases x <;> simp [Except.map]

theorem Except.pure_eq_ok {ε α : Type} {a b : α} : (pure a : Except ε α) = .ok b ↔ a = b := by
  simp [pure, Except.pure]

theorem Except.mapM_eq_ok {ε α β : Type} {f : α → Except ε β} {xs : List α} {ys : List β} :
    xs.mapM f = .ok ys ↔ List.Forall₂ (fun x y => f x = .ok y) xs ys := by
  induction xs generalizing ys with
  | nil => cases ys <;> simp [pure, Except.pure]
  | cons x xs ih =>
    rw [List.mapM_cons]
    simp only [Except.bind_eq_ok, Except.pure_eq_ok, ih]
    constructor
    · rintro ⟨y, hy, ys', hys, rfl⟩
      exact .cons hy hys
    · intro h
      cases h with
      | cons hy hys => exact ⟨_, hy, _, hys, rfl⟩

theorem Except.mapM_eq_error {ε α β : Type} {f : α → Except ε β} {xs : List α} {e : ε}
    (h : xs.mapM f = .error e) :
    ∃ before x after ys, xs = before ++ x :: after ∧ before.mapM f = .ok ys ∧ f x = .error e := by
  induction xs with
  | nil => cases h
  | cons x xs ih =>
    rw [List.mapM_cons] at h
    cases hx : f x with
    | error e' =>
      rw [hx] at h
      cases h
      exact ⟨[], x, xs, [], rfl, rfl, hx⟩
    | ok y =>
      rw [hx] at h
      cases hxs : xs.mapM f with
      | ok ys => rw [hxs] at h; cases h
      | error e' =>
        rw [hxs] at h
        cases h
        obtain ⟨before, x', after, ys, rfl, hbefore, hx'⟩ := ih hxs
        refine ⟨x :: before, x', after, y :: ys, rfl, ?_, hx'⟩
        rw [List.mapM_cons, hx, hbefore]
        rfl

theorem Except.exists_mapM_eq_ok {ε α β : Type} {f : α → Except ε β} {xs : List α} :
    (∃ ys, xs.mapM f = .ok ys) ↔ ∀ x ∈ xs, ∃ y, f x = .ok y := by
  induction xs with
  | nil => exact ⟨fun _ _ hx => absurd hx List.not_mem_nil, fun _ => ⟨[], rfl⟩⟩
  | cons x xs ih =>
    simp only [List.mapM_cons, Except.bind_eq_ok, Except.pure_eq_ok, List.forall_mem_cons, ← ih]
    constructor
    · rintro ⟨_, y, hy, ys, hys, -⟩
      exact ⟨⟨y, hy⟩, ys, hys⟩
    · rintro ⟨⟨y, hy⟩, ys, hys⟩
      exact ⟨_, y, hy, ys, hys, rfl⟩

theorem Except.mapM_congr_forall₂ {ε α β γ : Type} {f : α → Except ε γ} {g : β → Except ε γ}
    {xs : List α} {ys : List β} (h : List.Forall₂ (fun x y => f x = g y) xs ys) :
    xs.mapM f = ys.mapM g := by
  induction h with
  | nil => rfl
  | cons hxy _ ih => rw [List.mapM_cons, List.mapM_cons, hxy, ih]

theorem Except.mapM_congr {ε α β : Type} {f g : α → Except ε β} {xs : List α}
    (h : ∀ x ∈ xs, f x = g x) :
    xs.mapM f = xs.mapM g :=
  mapM_congr_forall₂ (List.forall₂_same.mpr h)

/-- A traversal of the second items gives each of the first ones its counterpart. -/
theorem Except.exists_mapM_forall₂ {ε α β γ : Type} {R : α → γ → Prop} {f : β → Except ε γ}
    {xs : List α} {ys : List β} (h : List.Forall₂ (fun x y => ∃ z, f y = .ok z ∧ R x z) xs ys) :
    ∃ zs, ys.mapM f = .ok zs ∧ List.Forall₂ R xs zs := by
  induction h with
  | nil => exact ⟨[], rfl, .nil⟩
  | cons hxy _ ih =>
    obtain ⟨z, hz, hxz⟩ := hxy
    obtain ⟨zs, hzs, hxszs⟩ := ih
    refine ⟨z :: zs, ?_, .cons hxz hxszs⟩
    rw [List.mapM_cons, hz, hzs]
    rfl

theorem Except.mapM_cases {ε α β : Type} (f : α → Except ε β) (xs : List α) :
    (∃ x ∈ xs, ∃ e, f x = .error e ∧ xs.mapM f = .error e) ∨ ∀ x ∈ xs, ∃ y, f x = .ok y := by
  cases hmap : xs.mapM f with
  | ok ys => exact .inr (Except.exists_mapM_eq_ok.mp ⟨ys, hmap⟩)
  | error e =>
    obtain ⟨before, x, after, -, rfl, -, hx⟩ := Except.mapM_eq_error hmap
    exact .inl ⟨x, by simp, e, hx, rfl⟩

theorem Except.foldlM_invariant {ε α β : Type} {f : β → α → Except ε β} {P : β → Prop}
    {Q : α → Prop} (hstep : ∀ b a b', P b → Q a → f b a = .ok b' → P b') {xs : List α} {b b' : β}
    (hb : P b) (hxs : ∀ x ∈ xs, Q x) (h : xs.foldlM f b = .ok b') : P b' := by
  induction xs generalizing b with
  | nil => exact Except.pure_eq_ok.mp h ▸ hb
  | cons x xs ih =>
    rw [List.foldlM_cons, Except.bind_eq_ok] at h
    obtain ⟨c, hc, h⟩ := h
    exact ih (hstep b x c hb (hxs x (by simp)) hc) (fun y hy => hxs y (by simp [hy])) h

namespace Value

/-- Null, truth values, numbers that are not complex and texts. -/
def isScalar : Value → Bool
  | null | bool _ | int .. | float .. | str .. => true
  | _ => false

mutual

/-- Scalars and new lists of plain data. -/
def isPlain : Value → Bool
  | null | bool _ | int .. | float .. | str .. => true
  | list xs mark => mark = .fresh && arePlain xs
  | _ => false

def arePlain : List Value → Bool
  | [] => true
  | x :: xs => isPlain x && arePlain xs

end

@[simp] lemma arePlain_iff {xs : List Value} : arePlain xs = true ↔ ∀ x ∈ xs, x.isPlain = true := by
  induction xs with
  | nil => simp [arePlain]
  | cons x xs ih => simp [arePlain, ih]

@[simp] lemma isPlain_ofList {xs : List Value} :
    (ofList xs).isPlain = true ↔ ∀ x ∈ xs, x.isPlain = true := by
  simp [isPlain]

@[simp] lemma isPlain_ofInt (i : Int) : (ofInt i).isPlain = true := rfl

@[simp] lemma isPlain_ofFloat (x : Float) : (ofFloat x).isPlain = true := rfl

@[simp] lemma isPlain_ofStr (s : String) : (ofStr s).isPlain = true := rfl

@[simp] lemma isPlain_bool (b : Bool) : (bool b).isPlain = true := rfl

lemma isPlain_of_isStr {v : Value} (h : v.isStr = true) : v.isPlain = true := by
  cases v <;> simp_all [isStr, isPlain]

namespace Before

variable {α : Type} {before : Before α} {P : α → Prop}

lemma continued_all {descends : Bool} {x : α} {items run rest : List α} (hitems : ∀ y ∈ items, P y)
    (h : continued before descends x items = .ok (run, rest)) :
    (∀ y ∈ run, P y) ∧ ∀ y ∈ rest, P y := by
  induction items generalizing x run rest with
  | nil =>
    cases h
    simp
  | cons y items ih =>
    have hy := hitems y (by simp)
    have hrest : ∀ z ∈ items, P z := fun z hz => hitems z (by simp [hz])
    obtain ⟨b, -, h⟩ := Except.bind_eq_ok.mp h
    split at h
    · obtain ⟨⟨run', rest'⟩, hrun, h⟩ := Except.bind_eq_ok.mp h
      cases h
      obtain ⟨h1, h2⟩ := ih hrest hrun
      exact ⟨by simpa [hy] using h1, h2⟩
    · cases h
      exact ⟨by simp, hitems⟩

lemma leadingRun_all {items run rest : List α} (hitems : ∀ y ∈ items, P y)
    (h : leadingRun before items = .ok (run, rest)) : (∀ y ∈ run, P y) ∧ ∀ y ∈ rest, P y := by
  unfold leadingRun at h
  split at h
  · rename_i x y items
    obtain ⟨descends, -, h⟩ := Except.bind_eq_ok.mp h
    obtain ⟨⟨run', rest'⟩, hrun, h⟩ := Except.bind_eq_ok.mp h
    obtain ⟨h1, h2⟩ := continued_all (fun z hz => hitems z (by simp [hz])) hrun
    cases h
    have hx := hitems x (by simp)
    have hy := hitems y (by simp)
    refine ⟨fun z hz => ?_, h2⟩
    have hz : z = x ∨ z = y ∨ z ∈ run' := by
      split at hz
      · simpa [or_comm, or_left_comm, or_assoc] using hz
      · simpa using hz
    rcases hz with rfl | rfl | hz
    · exact hx
    · exact hy
    · exact h1 z hz
  · cases h
    exact ⟨hitems, by simp⟩

lemma insert_all {run out : List α} {x : α} (hrun : ∀ y ∈ run, P y) (hx : P x)
    (h : insert before run x = .ok out) : ∀ y ∈ out, P y := by
  obtain ⟨place, -, h⟩ := Except.bind_eq_ok.mp h
  cases h
  intro y hy
  rcases List.mem_append.mp hy with hy | hy
  · exact hrun y (List.mem_of_mem_take hy)
  · rcases List.mem_cons.mp hy with rfl | hy
    · exact hx
    · exact hrun y (List.mem_of_mem_drop hy)

lemma runs_all {least fuel : Nat} {items : List α} {out : List (List α)} (hitems : ∀ y ∈ items, P y)
    (h : runs before least fuel items = .ok out) : ∀ run ∈ out, ∀ y ∈ run, P y := by
  induction fuel generalizing items out with
  | zero =>
    cases h
    simp
  | succ fuel ih =>
    cases items with
    | nil =>
      cases h
      simp
    | cons item items =>
      obtain ⟨⟨run, rest⟩, hrun, h⟩ := Except.bind_eq_ok.mp h
      obtain ⟨hrunAll, hrestAll⟩ := leadingRun_all hitems hrun
      obtain ⟨longer, hlonger, h⟩ := Except.bind_eq_ok.mp h
      obtain ⟨others, hothers, h⟩ := Except.bind_eq_ok.mp h
      cases h
      have hlongerAll : ∀ y ∈ longer, P y :=
        Except.foldlM_invariant (P := fun run : List α => ∀ y ∈ run, P y) (Q := P)
          (fun _ _ _ => insert_all) hrunAll (fun y hy => hrestAll y (List.mem_of_mem_take hy))
          hlonger
      have hothersAll := ih (fun y hy => hrestAll y (List.mem_of_mem_drop hy)) hothers
      intro run' hrun'
      rcases List.mem_cons.mp hrun' with rfl | hrun'
      · exact hlongerAll
      · exact hothersAll run' hrun'

lemma merge_all {fuel : Nat} {xs ys acc out : List α} (hxs : ∀ z ∈ xs, P z) (hys : ∀ z ∈ ys, P z)
    (hacc : ∀ z ∈ acc, P z) (h : merge before fuel xs ys acc = .ok out) : ∀ z ∈ out, P z := by
  fun_induction merge before fuel xs ys acc generalizing out with
  | case1 =>
    cases h
    simpa [or_imp, forall_and] using ⟨hacc, hys⟩
  | case2 =>
    cases h
    simpa [or_imp, forall_and] using ⟨hacc, hxs⟩
  | case3 =>
    cases h
    simp only [List.mem_append, List.mem_reverse]
    rintro z ((hz | hz) | hz)
    · exact hacc z hz
    · exact hxs z hz
    · exact hys z hz
  | case4 fuel x xs y ys acc ih1 ih2 =>
    obtain ⟨b, -, h⟩ := Except.bind_eq_ok.mp h
    have hx := hxs x (by simp)
    have hy := hys y (by simp)
    split at h
    · exact ih1 hxs (fun z hz => hys z (by simp [hz])) (by simpa [hy] using hacc) h
    · exact ih2 (fun z hz => hxs z (by simp [hz])) hys (by simpa [hx] using hacc) h

lemma mergePairs_all {lists out : List (List α)} (hlists : ∀ run ∈ lists, ∀ y ∈ run, P y)
    (h : mergePairs before lists = .ok out) : ∀ run ∈ out, ∀ y ∈ run, P y := by
  fun_induction mergePairs before lists generalizing out with
  | case1 a b rest ih =>
    obtain ⟨run, hrun, h⟩ := Except.bind_eq_ok.mp h
    obtain ⟨others, hothers, h⟩ := Except.bind_eq_ok.mp h
    cases h
    have hrunAll := merge_all (hlists a (by simp)) (hlists b (by simp)) (by simp) hrun
    have hothersAll := ih (fun run hr => hlists run (by simp [hr])) hothers
    simpa using ⟨hrunAll, hothersAll⟩
  | case2 =>
    cases h
    exact hlists

lemma mergeAll_all {fuel : Nat} {lists : List (List α)} {out : List α}
    (hlists : ∀ run ∈ lists, ∀ y ∈ run, P y) (h : mergeAll before fuel lists = .ok out) :
    ∀ y ∈ out, P y := by
  fun_induction mergeAll before fuel lists generalizing out with
  | case1 =>
    cases h
    simp
  | case2 =>
    cases h
    simpa using hlists
  | case3 =>
    cases h
    simpa [List.mem_flatten] using fun y run hr => hlists run hr y
  | case4 _ _ _ _ ih =>
    obtain ⟨pairs, hpairs, h⟩ := Except.bind_eq_ok.mp h
    exact ih pairs (mergePairs_all hlists hpairs) h

lemma sort_all {items out : List α} (hitems : ∀ y ∈ items, P y) (h : sort before items = .ok out) :
    ∀ y ∈ out, P y := by
  obtain ⟨lists, hlists, h⟩ := Except.bind_eq_ok.mp h
  exact mergeAll_all (runs_all hitems hlists) h

end Before

lemma numberPair?_isPlain {a b : Value} {re im re' im' : Float} (ha : a.isPlain = true)
    (hb : b.isPlain = true) :
    numberPair? a b ≠ .ok (some (.complexes re im re' im')) := by
  intro h
  unfold numberPair? at h
  split at h
  · simp [isPlain] at ha
  · simp [isPlain] at ha
  · simp [isPlain] at hb
  · split at h
    · simp at h
    · simp only [Except.bind_eq_ok, Except.pure_eq_ok] at h
      obtain ⟨_, -, _, -, h⟩ := h
      simp at h
    · simp at h

lemma add_isPlain {a b v : Value} (ha : a.isPlain = true) (hb : b.isPlain = true)
    (h : add a b = .ok v) :
    v.isPlain = true := by
  obtain ⟨pair, hpair, h⟩ := Except.bind_eq_ok.mp h
  match pair with
  | some (.ints _ _) => cases h; rfl
  | some (.floats _ _) => cases h; rfl
  | some (.complexes ..) => exact absurd hpair (numberPair?_isPlain ha hb)
  | none =>
    cases a <;> simp only [isPlain, Bool.false_eq_true] at ha <;>
      cases b <;> simp only [isPlain, Bool.false_eq_true] at hb <;> cases h
    · split_ifs <;> rfl
    · simp_all [or_imp]

lemma sub_isPlain {a b v : Value} (ha : a.isPlain = true) (hb : b.isPlain = true)
    (h : sub a b = .ok v) :
    v.isPlain = true := by
  obtain ⟨pair, hpair, h⟩ := Except.bind_eq_ok.mp h
  match pair with
  | some (.ints _ _) => cases h; rfl
  | some (.floats _ _) => cases h; rfl
  | some (.complexes ..) => exact absurd hpair (numberPair?_isPlain ha hb)
  | none =>
    cases a <;> simp only [isPlain, Bool.false_eq_true] at ha <;> cases h

lemma repeatSequence?_isPlain {seq v : Value} {count : Int} (hseq : seq.isPlain = true)
    (h : repeatSequence? seq count = some (.ok v)) : v.isPlain = true := by
  cases seq with
  | str s _ =>
    simp only [repeatSequence?] at h
    split_ifs at h <;> simp at h <;> subst h <;> rfl
  | list xs _ =>
    simp only [repeatSequence?] at h
    split_ifs at h
    · simp only [Option.some.injEq, Except.ok.injEq] at h
      subst h
      simp only [isPlain, Bool.and_eq_true, decide_eq_true_eq, arePlain_iff] at hseq
      simp only [isPlain_ofList, repeated, List.mem_flatten, List.mem_replicate]
      rintro x ⟨xs, ⟨-, rfl⟩, hx⟩
      exact hseq.2 x hx
    · simp at h
  | null | bool | int | float => simp [repeatSequence?] at h
  | complex | bytes | tuple | set | dict | ellipsis | builtin | generic | union | context =>
    simp [isPlain] at hseq

lemma mul_isPlain {a b v : Value} (ha : a.isPlain = true) (hb : b.isPlain = true)
    (h : mul a b = .ok v) :
    v.isPlain = true := by
  obtain ⟨pair, hpair, h⟩ := Except.bind_eq_ok.mp h
  have hrep : ∀ {seq : Value} {n : Int}, seq.isPlain = true →
      (repeatSequence? seq n).getD (.error (.operands "*" a b)) = .ok v → v.isPlain = true := by
    intro seq n hseq hgot
    cases hr : repeatSequence? seq n with
    | none => rw [hr] at hgot; cases hgot
    | some r =>
      rw [hr, Option.getD_some] at hgot
      exact repeatSequence?_isPlain hseq (hgot ▸ hr)
  match pair with
  | some (.ints _ _) => cases h; rfl
  | some (.floats _ _) => cases h; rfl
  | some (.complexes ..) => exact absurd hpair (numberPair?_isPlain ha hb)
  | none =>
    dsimp only at h
    split at h
    · split at h
      · exact hrep ha h
      · cases h
    · split at h
      · split at h
        · exact hrep hb h
        · cases h
      · cases h

lemma divide_isPlain {a b v : Value} (ha : a.isPlain = true) (hb : b.isPlain = true)
    (h : divide a b = .ok v) :
    v.isPlain = true := by
  obtain ⟨pair, hpair, h⟩ := Except.bind_eq_ok.mp h
  match pair with
  | some (.ints _ _) =>
    simp only [divideInts] at h
    split_ifs at h
    cases h
    rfl
  | some (.floats _ _) =>
    dsimp only at h
    split at h
    · cases h
    · cases h
      rfl
  | some (.complexes ..) => exact absurd hpair (numberPair?_isPlain ha hb)
  | none => cases h

lemma modNumbers_isPlain {a b v : Value} (h : modNumbers a b = .ok v) : v.isPlain = true := by
  obtain ⟨pair, -, h⟩ := Except.bind_eq_ok.mp h
  match pair with
  | some (.ints _ _) =>
    dsimp only at h
    split at h
    · cases h
    · split at h
      · cases h
        split_ifs <;> rfl
      · cases h
        rfl
  | some (.floats _ _) =>
    dsimp only at h
    split at h
    · cases h
    · cases h
      rfl
  | some (.complexes ..) => cases h
  | none => cases h

@[simp] lemma isStr_ofStr (s : String) : (ofStr s).isStr = true := rfl

lemma isStr_literalText (v : Value) : v.literalText.isStr = true := by
  cases v <;> rfl

lemma isStr_text (v : Value) : v.text.isStr = true := by
  cases v <;> rfl

lemma Conversion.isStr_laid (c : Conversion) {v : Value} (h : v.isStr = true) :
    (c.laid v).isStr = true := by
  simp only [Conversion.laid]
  split_ifs
  · exact h
  · rfl

lemma Conversion.apply_isStr {c : Conversion} {type : Char} {index : Nat} {v w : Value}
    (h : c.apply type index v = .ok w) : w.isStr = true := by
  unfold Conversion.apply at h
  split at h
  · split at h
    · cases h
      rfl
    · cases h
      refine c.isStr_laid ?_
      split
      · exact isStr_text v
      · exact isStr_literalText v
  split at h
  · cases h
    rfl
  split at h
  · obtain ⟨i, -, h⟩ := Except.bind_eq_ok.mp h
    cases h
    rfl
  split at h
  · split at h
    · obtain ⟨x, -, h⟩ := Except.bind_eq_ok.mp h
      cases h
      rfl
    · cases h
  split at h
  · split at h
    · split at h
      · cases h
        rfl
      · cases h
    · split at h
      · split at h
        · cases h
        · cases h
          rfl
      · cases h
  · cases h

lemma formatOne_isStr {total : Nat} {args args' : Arguments} {cs rest : List Char} {v : Value}
    (h : formatOne textStyle total args cs = .ok (v, args', rest)) : v.isStr = true := by
  obtain ⟨⟨args1, cs1⟩, -, h⟩ := Except.bind_eq_ok.mp h
  obtain ⟨⟨width, args2, cs2⟩, -, h⟩ := Except.bind_eq_ok.mp h
  obtain ⟨⟨precision, args3, cs3⟩, -, h⟩ := Except.bind_eq_ok.mp h
  dsimp only at h
  unfold writeArgument at h
  split at h
  · cases h
  · obtain ⟨⟨arg, args4⟩, -, h⟩ := Except.bind_eq_ok.mp h
    obtain ⟨text, htext, h⟩ := Except.bind_eq_ok.mp h
    cases h
    exact Conversion.apply_isStr htext

lemma formatPieces_isStr {total fuel : Nat} {args args' : Arguments} {cs : List Char}
    {acc pieces : List Value} (hacc : ∀ v ∈ acc, v.isStr = true)
    (h : formatPieces textStyle total fuel args cs acc = .ok (args', pieces)) :
    ∀ v ∈ pieces, v.isStr = true := by
  fun_induction formatPieces textStyle total fuel args cs acc with
  | case1 => cases h; exact hacc
  | case2 => cases h; exact hacc
  | case3 _ _ _ _ ih => exact ih (by simpa using hacc) h
  | case4 _ _ _ _ _ ih =>
    obtain ⟨⟨text, args1, rest⟩, htext, h⟩ := Except.bind_eq_ok.mp h
    exact ih text args1 rest (by simpa using ⟨formatOne_isStr htext, hacc⟩) h
  | case5 _ _ _ _ _ _ _ _ ih => exact ih (by simpa using hacc) h

lemma filled_isStr {cs : List Char} {v w : Value} (h : filled textStyle cs v = .ok w) :
    w.isStr = true := by
  obtain ⟨⟨args, pieces⟩, hpieces, h⟩ := Except.bind_eq_ok.mp h
  have hall := formatPieces_isStr (by simp) hpieces
  dsimp only at h
  split at h
  · cases h
  · cases h
    unfold joinPieces
    split
    · rfl
    · split
      · exact hall _ (by simp)
      · rfl

lemma mod_isPlain {a b v : Value} (ha : a.isPlain = true) (h : mod a b = .ok v) :
    v.isPlain = true := by
  cases a with
  | str s m =>
    obtain ⟨text, htext, rfl⟩ := Except.map_eq_ok.mp h
    split_ifs
    · exact isPlain_of_isStr (filled_isStr htext)
    · rfl
  | null | bool | int | float | list => exact modNumbers_isPlain h
  | complex | bytes | tuple | set | dict | ellipsis | builtin | generic | union | context =>
    simp [isPlain] at ha

lemma items_isPlain {v : Value} {xs : List Value} (hv : v.isPlain = true) (h : v.items = .ok xs) :
    ∀ x ∈ xs, x.isPlain = true := by
  cases v with
  | str s m =>
    cases h
    simp
  | list ys m =>
    cases h
    simp only [isPlain, Bool.and_eq_true, arePlain_iff] at hv
    exact hv.2
  | null | bool | int | float => cases h
  | complex | bytes | tuple | set | dict | ellipsis | builtin | generic | union | context =>
    simp [isPlain] at hv

end Value

namespace Operator

open Value

lemma quotient_isPlain {a b v : Value} (ha : a.isPlain = true) (hb : b.isPlain = true)
    (h : quotient a b = .ok v) : v.isPlain = true := by
  obtain ⟨w, hw, rfl⟩ := Except.map_eq_ok.mp h
  have hplain := divide_isPlain ha hb hw
  split
  · split_ifs
    · exact isPlain_ofInt _
    · rfl
  · exact hplain

lemma splitText_isPlain {s : String} {sep v : Value} (h : splitText s sep = .ok v) :
    v.isPlain = true := by
  unfold splitText at h
  split at h
  · cases h
    simp
  · split_ifs at h
    · cases h
      simp
  · cases h

lemma unary_eq_ok {name : String} {f : Value → Except Fault Value} {vs : List Value} {v : Value}
    (h : unary name f vs = .ok v) : ∃ a, vs = [a] ∧ f a = .ok v := by
  unfold unary at h
  split at h
  · exact ⟨_, rfl, h⟩
  · cases h

lemma binary_eq_ok {function first second : String} {f : Value → Value → Except Fault Value}
    {vs : List Value} {v : Value} (h : binary function first second f vs = .ok v) :
    ∃ a b, vs = [a, b] ∧ f a b = .ok v := by
  unfold binary at h
  split at h
  · exact ⟨_, _, rfl, h⟩
  · cases h

lemma textMethod_eq_ok {name : String} {f : String → Except Fault Value} {v w : Value}
    (h : textMethod name f v = .ok w) : ∃ s, f s = .ok w := by
  unfold textMethod at h
  split at h
  · exact ⟨_, h⟩
  · cases h

/-- Operators that are given plain data produce plain data. -/
theorem apply_isPlain {operator : Operator} {vs : List Value} {v : Value}
    (hvs : ∀ x ∈ vs, x.isPlain = true) (h : operator.apply vs = .ok v) : v.isPlain = true := by
  cases operator with
  | add =>
    simp only [apply] at h
    split at h
    · obtain ⟨s, -, rfl⟩ := Except.map_eq_ok.mp h
      rfl
    · exact Except.foldlM_invariant (fun _ _ _ => add_isPlain) (isPlain_ofInt 0) hvs h
  | mul => exact Except.foldlM_invariant (fun _ _ _ => mul_isPlain) (isPlain_ofInt 1) hvs h
  | sub =>
    obtain ⟨a, b, rfl, h⟩ := binary_eq_ok h
    exact sub_isPlain (hvs a (by simp)) (hvs b (by simp)) h
  | div =>
    obtain ⟨a, b, rfl, h⟩ := binary_eq_ok h
    exact quotient_isPlain (hvs a (by simp)) (hvs b (by simp)) h
  | mod =>
    obtain ⟨a, b, rfl, h⟩ := binary_eq_ok h
    exact mod_isPlain (hvs a (by simp)) h
  | concat =>
    obtain ⟨s, -, rfl⟩ := Except.map_eq_ok.mp h
    rfl
  | eq | ne =>
    obtain ⟨a, b, rfl, h⟩ := binary_eq_ok h
    cases h
    rfl
  | lt | le | gt | ge =>
    obtain ⟨a, b, rfl, h⟩ := binary_eq_ok h
    obtain ⟨c, -, rfl⟩ := Except.map_eq_ok.mp h
    rfl
  | not =>
    obtain ⟨a, rfl, h⟩ := unary_eq_ok h
    cases h
    rfl
  | and | or =>
    cases h
    rfl
  | length =>
    simp only [apply, length1] at h
    split at h
    · split at h
      · cases h
        exact isPlain_ofInt _
      · cases h
    · cases h
  | json =>
    obtain ⟨a, rfl, h⟩ := unary_eq_ok h
    obtain ⟨s, -, rfl⟩ := Except.map_eq_ok.mp h
    rfl
  | keys =>
    obtain ⟨a, rfl, h⟩ := unary_eq_ok h
    obtain ⟨items, hitems, h⟩ := Except.bind_eq_ok.mp h
    obtain ⟨sorted, hsorted, h⟩ := Except.bind_eq_ok.mp h
    cases h
    exact isPlain_ofList.mpr (Before.sort_all (items_isPlain (hvs a (by simp)) hitems) hsorted)
  | upper | lower | trim =>
    obtain ⟨a, rfl, h⟩ := unary_eq_ok h
    obtain ⟨s, h⟩ := textMethod_eq_ok h
    cases h
    rfl
  | split =>
    obtain ⟨a, sep, rfl, h⟩ := binary_eq_ok h
    obtain ⟨s, h⟩ := textMethod_eq_ok h
    exact splitText_isPlain h

end Operator

end EffectTree
