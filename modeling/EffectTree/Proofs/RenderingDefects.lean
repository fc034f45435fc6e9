import EffectTree.Proofs.PlainData
import EffectTree.Resolution.Render

/-!
# What rendering looks at

Rendering finds the head of a descriptor and goes on with its parts, all of them, whether or not
anything else ever asks for them. It fails just if something that it looks at has a defect.
-/
namespace EffectTree

namespace Resolution

/-- The parts of a head that are rendered with it. -/
def renderedParts : Descriptor → List Descriptor
  | .tuple items => items
  | .record fields => fields.map (·.2)
  | .effect _ args => args
  | .op _ args => args
  | _ => []

theorem surroundings_of_ne_ref {seen : List Value} {d : Descriptor} (href : ∀ name, d ≠ .ref name) :
    surroundings seen d = .ok (.inr seen) := by
  cases d with
  | ref name => exact absurd rfl (href name)
  | _ => rfl

theorem renderAt_of_inside {r : Resolver} {levels : Nat} {seen inner : List Value} {d : Descriptor}
    (h : surroundings seen d = .ok (.inr inner)) :
    renderAt r (levels + 1) seen d = (r.head d).bind (renderHead (renderAt r levels inner)) := by
  simp only [renderAt, h]
  cases r.head d <;> rfl

/-- A descriptor that is rendered down to some number of levels, with the names of the definitions
around it. -/
structure View where
  levels : Nat
  seen : List Value
  d : Descriptor

def View.render (r : Resolver) (v : View) : Except Fault Value := renderAt r v.levels v.seen v.d

/-- Rendering looks at the head of a descriptor. -/
inductive Opens (r : Resolver) : View → Nat → List Value → Descriptor → Prop
  | intro {levels : Nat} {seen inner : List Value} {d head : Descriptor}
      (hseen : surroundings seen d = .ok (.inr inner)) (hhead : r.head d = .ok head) :
        Opens r ⟨levels + 1, seen, d⟩ levels inner head

/-- From a descriptor rendering goes on to a part of its head. -/
inductive Looks (r : Resolver) : View → View → Prop
  | intro {v : View} {levels : Nat} {inner : List Value} {head part : Descriptor}
      (h : Opens r v levels inner head)
      (hpart : part ∈ renderedParts head) : Looks r v ⟨levels, inner, part⟩

/-- Why a descriptor cannot be rendered although all its parts can. -/
inductive Defect (r : Resolver) : View → Fault → Prop
  | deep {seen : List Value} {d : Descriptor} : Defect r ⟨0, seen, d⟩ .recursion
  | name {levels : Nat} {seen : List Value} {d : Descriptor} {e : Fault}
      (h : surroundings seen d = .error e) :
      Defect r ⟨levels + 1, seen, d⟩ e
  | head {levels : Nat} {seen inner : List Value} {d : Descriptor} {e : Fault}
      (hseen : surroundings seen d = .ok (.inr inner)) (h : r.head d = .error e) :
        Defect r ⟨levels + 1, seen, d⟩ e
  | text {v : View} {levels : Nat} {inner : List Value} {head : Descriptor} {e : Fault}
      (hopens : Opens r v levels inner head)
      (hparts : ∀ part ∈ renderedParts head, ∃ text, renderAt r levels inner part = .ok text)
      (h : renderHead (renderAt r levels inner) head = .error e) : Defect r v e

section Heads

variable (render : Descriptor → Except Fault Value)

theorem renderParts_cases (parts : List Descriptor) :
    (∃ part ∈ parts, ∃ e, render part = .error e ∧ renderParts render parts = .error e) ∨
      ∀ part ∈ parts, ∃ text, render part = .ok text := by
  rcases Except.mapM_cases render parts with ⟨part, hpart, e, he, hmap⟩ | hparts
  · exact .inl ⟨part, hpart, e, he, by rw [renderParts, hmap]; rfl⟩
  · exact .inr hparts

/-- A head has the fault of a part that cannot be rendered, or all its parts can. -/
theorem renderHead_cases (head : Descriptor) :
    (∃ part ∈ renderedParts head, ∃ e, render part = .error e ∧ renderHead render head = .error e) ∨
      ∀ part ∈ renderedParts head, ∃ text, render part = .ok text := by
  cases head with
  | tuple items =>
    rcases renderParts_cases render items with ⟨part, hpart, e, he, hparts⟩ | hparts
    · exact .inl ⟨part, hpart, e, he, by rw [renderHead, hparts]; rfl⟩
    · exact .inr hparts
  | op name args =>
    rcases renderParts_cases render args with ⟨part, hpart, e, he, hparts⟩ | hparts
    · exact .inl ⟨part, hpart, e, he, by rw [renderHead, hparts]; rfl⟩
    · exact .inr hparts
  | effect tag args =>
    rcases renderParts_cases render args with ⟨part, hpart, e, he, hparts⟩ | hparts
    · cases args with
      | nil => cases hpart
      | cons first rest => exact .inl ⟨part, hpart, e, he, by simp only [renderHead, hparts]; rfl⟩
    · exact .inr hparts
  | record fields =>
    rcases Except.mapM_cases (renderMember render) fields with
      ⟨entry, hentry, e, he, hmap⟩ | hmembers
    · refine .inl ⟨entry.2, List.mem_map_of_mem hentry, e, ?_, ?_⟩
      · rw [renderMember] at he
        cases hvalue : render entry.2 with
        | ok value => rw [hvalue] at he; cases he
        | error e' => rw [hvalue] at he; cases he; rfl
      · cases fields with
        | nil => cases hentry
        | cons first rest => simp only [renderHead, hmap]; rfl
    · refine .inr fun part hpart => ?_
      obtain ⟨entry, hentry, rfl⟩ := List.mem_map.mp hpart
      obtain ⟨member, hmember⟩ := hmembers entry hentry
      obtain ⟨value, hvalue, -⟩ := Except.map_eq_ok.mp hmember
      exact ⟨value, hvalue⟩
  | _ => exact .inr fun part hpart => absurd hpart List.not_mem_nil

end Heads

variable {r : Resolver} {v w : View} {e : Fault}

theorem Opens.render_eq {levels : Nat} {inner : List Value} {head : Descriptor}
    (h : Opens r v levels inner head) :
    v.render r = renderHead (renderAt r levels inner) head := by
  obtain ⟨hseen, hhead⟩ := h
  simp only [View.render, renderAt, hseen, hhead]

theorem Defect.render_eq (h : Defect r v e) : v.render r = .error e := by
  cases h with
  | deep => rfl
  | name h => simp only [View.render, renderAt, h]
  | head hseen h => simp only [View.render, renderAt, hseen, h]
  | text hopens _ h => rw [hopens.render_eq, h]

theorem Looks.render_error (h : Looks r v w) (hw : w.render r = .error e) :
    ∃ e', v.render r = .error e' := by
  obtain ⟨hopens, hpart⟩ := h
  rename_i levels inner head part
  rcases renderHead_cases (renderAt r levels inner) head with ⟨-, -, e', -, he'⟩ | hparts
  · exact ⟨e', hopens.render_eq.trans he'⟩
  · obtain ⟨text, htext⟩ := hparts part hpart
    cases hw.symm.trans htext

/-- What fails has a defect itself, or there is a part in it that fails in the same way. -/
theorem defect_or_looks (h : v.render r = .error e) :
    Defect r v e ∨ ∃ w, Looks r v w ∧ w.render r = .error e := by
  obtain ⟨levels, seen, d⟩ := v
  cases levels with
  | zero =>
    cases h
    exact .inl .deep
  | succ levels =>
    cases hseen : surroundings seen d with
    | error e' =>
      simp only [View.render, renderAt, hseen] at h
      cases h
      exact .inl (.name hseen)
    | ok around =>
      cases around with
      | inl name =>
        simp only [View.render, renderAt, hseen] at h
        cases h
      | inr inner =>
        cases hhead : r.head d with
        | error e' =>
          simp only [View.render, renderAt, hseen, hhead] at h
          cases h
          exact .inl (.head hseen hhead)
        | ok head =>
          have hopens : Opens r ⟨levels + 1, seen, d⟩ levels inner head := .intro hseen hhead
          rw [hopens.render_eq] at h
          rcases renderHead_cases (renderAt r levels inner) head with
            ⟨part, hpart, e', he', hfails⟩ | hparts
          · cases h.symm.trans hfails
            exact .inr ⟨⟨levels, inner, part⟩, .intro hopens hpart, he'⟩
          · exact .inl (.text hopens hparts h)

theorem Looks.levels_lt (h : Looks r v w) : w.levels < v.levels := by
  obtain ⟨⟨-, -⟩, -⟩ := h
  exact Nat.lt_succ_self _

/-- The descriptors that rendering comes to. -/
abbrev Visits (r : Resolver) : View → View → Prop := Relation.ReflTransGen (Looks r)

theorem exists_defect (h : v.render r = .error e) : ∃ w, Visits r v w ∧ Defect r w e := by
  -- On the levels that are left: each part has fewer of them.
  induction hn : v.levels using Nat.strong_induction_on generalizing v with
  | _ n ih =>
    rcases defect_or_looks h with hdefect | ⟨w, hlooks, hw⟩
    · exact ⟨v, .refl, hdefect⟩
    · obtain ⟨w', hvisits, hdefect⟩ := ih w.levels (hn ▸ hlooks.levels_lt) hw rfl
      exact ⟨w', .head hlooks hvisits, hdefect⟩

theorem Visits.render_error (h : Visits r v w) (hw : w.render r = .error e) :
    ∃ e', v.render r = .error e' := by
  induction h using Relation.ReflTransGen.head_induction_on with
  | refl => exact ⟨e, hw⟩
  | head hlooks _ ih =>
    obtain ⟨e', he'⟩ := ih
    exact hlooks.render_error he'

/-- A descriptor has a text just if nothing that rendering comes to has a defect. -/
theorem renders_iff : (∃ text, v.render r = .ok text) ↔ ∀ w e, Visits r v w → ¬ Defect r w e := by
  constructor
  · rintro ⟨text, htext⟩ w e hvisits hdefect
    obtain ⟨e', he'⟩ := hvisits.render_error hdefect.render_eq
    cases htext.symm.trans he'
  · intro h
    cases hrender : v.render r with
    | ok text => exact ⟨text, rfl⟩
    | error e =>
      obtain ⟨w, hvisits, hdefect⟩ := exists_defect hrender
      exact absurd hdefect (h w e hvisits)

end Resolution

end EffectTree
