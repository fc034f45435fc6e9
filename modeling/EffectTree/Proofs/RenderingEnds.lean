import EffectTree.Proofs.CoercedValues
import EffectTree.Proofs.RenderingDefects

/-!
# Rendering recursive definitions

Definitions may refer to themselves and to each other. Rendering writes a name that it is inside
already and opens any other one, so on each path there is a definition less to open or a part less
high to write. So many levels are enough, however long the chains of references are that the
searches for heads go through.
-/
namespace EffectTree

namespace Descriptor

/-- Made of literals, unknowns, tuples, records, effects, variables and references, with texts for
names and tags. -/
inductive Elementary : Descriptor → Prop
  | literal {v : Value} (h : v.IsJson) : Elementary (.literal v)
  | unknown : Elementary .unknown
  | tuple {items : List Descriptor} (h : ∀ d ∈ items, Elementary d) : Elementary (.tuple items)
  | record {fields : List (String × Descriptor)} (h : ∀ entry ∈ fields, Elementary entry.2) :
      Elementary (.record fields)
  | effect {tag : Value} {args : List Descriptor} (htag : tag = .null ∨ tag.isStr = true)
      (h : ∀ d ∈ args, Elementary d) : Elementary (.effect tag args)
  | var {name : String} {mark : Mark} : Elementary (.var (.str name mark))
  | ref {name : String} {mark : Mark} : Elementary (.ref (.str name mark))

mutual

def height : Descriptor → Nat
  | tuple items => heightOfItems items
  | record fields => heightOfFields fields
  | effect _ args => heightOfItems args
  | _ => 0

def heightOfItems : List Descriptor → Nat
  | [] => 0
  | d :: ds => max (height d + 1) (heightOfItems ds)

def heightOfFields : List (String × Descriptor) → Nat
  | [] => 0
  | (_, d) :: rest => max (height d + 1) (heightOfFields rest)

end

theorem height_lt_heightOfItems {d : Descriptor} {ds : List Descriptor} (h : d ∈ ds) :
    d.height < heightOfItems ds := by
  induction ds with
  | nil => cases h
  | cons e ds ih =>
    rw [heightOfItems]
    rcases List.mem_cons.mp h with rfl | h
    · exact lt_max_of_lt_left (Nat.lt_succ_self _)
    · exact lt_max_of_lt_right (ih h)

theorem height_lt_heightOfFields {d : Descriptor} {fields : List (String × Descriptor)}
    (h : d ∈ fields.map (·.2)) :
    d.height < heightOfFields fields := by
  induction fields with
  | nil => cases h
  | cons entry fields ih =>
    rw [heightOfFields]
    rcases List.mem_cons.mp h with rfl | h
    · exact lt_max_of_lt_left (Nat.lt_succ_self _)
    · exact lt_max_of_lt_right (ih h)

end Descriptor

open Descriptor

theorem Value.agrees_str_iff {v : Value} {text : String} {mark : Mark} :
    v.agrees (.str text mark) = true ↔ ∃ mark', v = .str text mark' := by
  cases v <;> simp [agrees, eqv, sameUndefined, numbersEqv, parts?, real?]

namespace Resolution

theorem height_lt_of_mem_renderedParts {head part : Descriptor} (h : head.Elementary)
    (hpart : part ∈ renderedParts head) : part.height < head.height := by
  cases h with
  | tuple => exact height_lt_heightOfItems hpart
  | record => exact height_lt_heightOfFields hpart
  | effect => exact height_lt_heightOfItems hpart
  | _ => cases hpart

theorem elementary_of_mem_renderedParts {head part : Descriptor} (h : head.Elementary)
    (hpart : part ∈ renderedParts head) : part.Elementary := by
  cases h with
  | tuple h => exact h part hpart
  | record h =>
    obtain ⟨entry, hentry, rfl⟩ := List.mem_map.mp hpart
    exact h entry hentry
  | effect _ h => exact h part hpart
  | _ => cases hpart

/-- The head of an elementary descriptor: itself, what a definition leads to, or a fault of the
search. -/
inductive Found (r : Resolver) : Descriptor → Except Fault Descriptor → Prop
  | itself {d : Descriptor} (h : ∀ name, d ≠ .ref name) : Found r d (.ok d)
  | defined {name : String} {mark : Mark} {entry : String × Descriptor}
      (hname : r.definitions.has name = true)
      (hentry : entry ∈ r.definitions) (h : ∀ name, entry.2 ≠ .ref name) :
        Found r (.ref (.str name mark)) (.ok entry.2)
  | fault {d : Descriptor} {e : Fault} (h : e.kind = .resolution) : Found r d (.error e)

variable {r : Resolver} (hdefinitions : ∀ entry ∈ r.definitions, entry.2.Elementary)
include hdefinitions

/-- The search for the head of an elementary descriptor makes no other searches. -/
theorem exists_iterate_eq {d : Descriptor} (hd : d.Elementary) (k : Nat) :
    ∃ found, Found r d found ∧ ∀ head, iterate r.maxSteps (step r head) k d = found := by
  induction k generalizing d with
  | zero => exact ⟨_, .fault rfl, fun _ => rfl⟩
  | succ k ih =>
    cases hd with
    | @ref name mark =>
      cases hname : r.definitions.get? name with
      | none =>
        refine ⟨.error (.unknownDefinition (.str name mark)), .fault rfl,
          fun head => iterate_error ?_⟩
        simp only [step, named, hname]
      | some target =>
        have hmem := Table.mem_of_get? hname
        have hdefined : r.definitions.has name = true :=
          Table.has_iff_mem_keys.mpr (Table.get?_isSome.mp (by simp [hname]))
        cases hself : refersTo (.str name mark) target with
        | true =>
          refine ⟨.error (.cyclicDefinition (.str name mark)), .fault rfl,
            fun head => iterate_error ?_⟩
          simp only [step, named, hname, hself, if_true]
        | false =>
          have hnext (head : Descriptor → Except Fault Descriptor) :
              step r head (.ref (.str name mark)) = .ok (.next target) := by
            simp [step, named, hname, hself]
          obtain ⟨found, hfound, hiterate⟩ := ih (hdefinitions _ hmem)
          refine ⟨found, ?_, fun head => (iterate_next (hnext head)).trans (hiterate head)⟩
          cases hfound with
          | itself h => exact .defined hdefined hmem h
          | defined _ hentry h => exact .defined hdefined hentry h
          | fault h => exact .fault h
    | _ => exact ⟨_, .itself (by simp), fun head => iterate_stable rfl⟩

omit hdefinitions

/-- Rendering ends with a text or with a fault of a search. -/
inductive EndsWell : Except Fault Value → Prop
  | text {text : String} {mark : Mark} : EndsWell (.ok (.str text mark))
  | fault {e : Fault} (h : e.kind = .resolution) : EndsWell (.error e)

theorem exists_printItems {vs : List Value} (h : ∀ v ∈ vs, ∃ text, Json.print v = .ok text) :
    ∃ texts, Json.printItems vs = .ok texts := by
  induction vs with
  | nil => exact ⟨[], rfl⟩
  | cons v vs ih =>
    rw [List.forall_mem_cons] at h
    obtain ⟨text, htext⟩ := h.1
    obtain ⟨texts, htexts⟩ := ih h.2
    exact ⟨text :: texts, by simp [Json.printItems, htext, htexts, Except.map]⟩

theorem exists_printEntries {es : List (Value × Value)}
    (hkeys : ∀ entry ∈ es, ∃ name mark, entry.1 = .str name mark)
    (h : ∀ entry ∈ es, ∃ text, Json.print entry.2 = .ok text) :
    ∃ texts, Json.printEntries es = .ok texts := by
  induction es with
  | nil => exact ⟨[], rfl⟩
  | cons entry es ih =>
    obtain ⟨key, v⟩ := entry
    rw [List.forall_mem_cons] at hkeys h
    obtain ⟨⟨name, mark, rfl⟩, hkeys⟩ := hkeys
    obtain ⟨⟨text, htext⟩, h⟩ := h
    obtain ⟨texts, htexts⟩ := ih hkeys h
    exact ⟨(Json.stringText name ++ ": " ++ text) :: texts, by
      simp [Json.printEntries, Json.keyText, htext, htexts, Except.map]⟩

theorem exists_print {v : Value} (h : v.IsJson) : ∃ text, Json.print v = .ok text := by
  induction h with
  | list _ ih =>
    obtain ⟨texts, htexts⟩ := exists_printItems ih
    exact ⟨_, by rw [Json.print, htexts]; rfl⟩
  | dict hkeys _ _ ih =>
    obtain ⟨texts, htexts⟩ := exists_printEntries (fun entry hentry => by
      obtain ⟨name, mark, hname, -⟩ := hkeys entry hentry
      exact ⟨name, mark, hname⟩) ih
    exact ⟨_, by rw [Json.print, htexts]; rfl⟩
  | _ => exact ⟨_, rfl⟩

theorem exists_joinTexts {separator : String} {parts : List Value}
    (h : ∀ v ∈ parts, v.isStr = true) :
    ∃ text, joinTexts separator parts = .ok text := by
  have hgo (i : Nat) : ∃ texts, joinTexts.go i parts = .ok texts := by
    induction parts generalizing i with
    | nil => exact ⟨[], rfl⟩
    | cons v rest ih =>
      rw [List.forall_mem_cons] at h
      obtain ⟨texts, htexts⟩ := ih h.2 (i + 1)
      cases v with
      | str text => exact ⟨text :: texts, by rw [joinTexts.go, htexts]; rfl⟩
      | _ => cases h.1
  obtain ⟨texts, htexts⟩ := hgo 0
  exact ⟨separator.intercalate texts, by rw [joinTexts, htexts]; rfl⟩

theorem exists_renderParts {render : Descriptor → Except Fault Value} {parts : List Descriptor}
    (h : ∀ part ∈ parts, ∃ text mark, render part = .ok (.str text mark)) :
    ∃ text, renderParts render parts = .ok text := by
  obtain ⟨texts, htexts, hstr⟩ : ∃ texts, parts.mapM render = .ok texts ∧
      ∀ v ∈ texts, v.isStr = true := by
    induction parts with
    | nil => exact ⟨[], rfl, by simp⟩
    | cons part rest ih =>
      rw [List.forall_mem_cons] at h
      obtain ⟨text, mark, htext⟩ := h.1
      obtain ⟨texts, htexts, hstr⟩ := ih h.2
      refine ⟨.str text mark :: texts, ?_, List.forall_mem_cons.mpr ⟨rfl, hstr⟩⟩
      rw [List.mapM_cons, htext, htexts]
      rfl
  obtain ⟨text, htext⟩ : ∃ text, joinTexts ", " texts = .ok text := exists_joinTexts hstr
  exact ⟨text, by rw [renderParts, htexts]; exact htext⟩

theorem exists_members {render : Descriptor → Except Fault Value}
    {fields : List (String × Descriptor)}
    (h : ∀ entry ∈ fields, ∃ text mark, render entry.2 = .ok (.str text mark)) :
    ∃ members, fields.mapM (renderMember render) = .ok members := by
  refine Except.exists_mapM_eq_ok.mpr fun entry hentry => ?_
  obtain ⟨text, mark, htext⟩ := h entry hentry
  exact ⟨_, by rw [renderMember, htext]; rfl⟩

theorem exists_tag {tag : Value} (htag : tag = .null ∨ tag.isStr = true) :
    ∃ name mark, (if tag.truthy then tag else .ofStr "anonymous") = Value.str name mark := by
  rcases htag with rfl | htag
  · exact ⟨_, _, rfl⟩
  · cases tag with
    | str name mark =>
      split
      · exact ⟨name, mark, rfl⟩
      · exact ⟨_, _, rfl⟩
    | _ => cases htag

theorem endsWell_of_texts {render : Descriptor → Except Fault Value} {head : Descriptor}
    (hhead : head.Elementary) (href : ∀ name, head ≠ .ref name)
    (htexts : ∀ part ∈ renderedParts head, ∃ text mark, render part = .ok (.str text mark)) :
    EndsWell (renderHead render head) := by
  cases hhead with
  | literal hjson =>
    obtain ⟨text, htext⟩ := exists_print hjson
    rw [renderHead, htext]
    exact .text
  | unknown => exact .text
  | @tuple items =>
    obtain ⟨text, htext⟩ : ∃ text, renderParts render items = .ok text := exists_renderParts htexts
    rw [renderHead, htext]
    exact .text
  | @record fields =>
    obtain ⟨members, hmembers⟩ : ∃ members, fields.mapM (renderMember render) = .ok members :=
      exists_members fun entry hentry => htexts entry.2 (List.mem_map_of_mem hentry)
    cases fields with
    | nil => exact .text
    | cons entry rest =>
      simp only [renderHead, hmembers]
      exact .text
  | @effect tag args htag =>
    obtain ⟨text, htext⟩ : ∃ text, renderParts render args = .ok text := exists_renderParts htexts
    obtain ⟨name, mark, hname⟩ := exists_tag htag
    simp only [renderHead, htext, hname]
    split
    · exact .text
    · exact .text
  | var => exact .text
  | ref => exact absurd rfl (href _)

theorem endsWell_renderHead {render : Descriptor → Except Fault Value} {head : Descriptor}
    (hhead : head.Elementary) (h : ∀ part ∈ renderedParts head, EndsWell (render part))
    (href : ∀ name, head ≠ .ref name) :
    EndsWell (renderHead render head) := by
  rcases renderHead_cases render head with ⟨part, hpart, e, he, hfails⟩ | hparts
  · have hends := h part hpart
    rw [he] at hends
    cases hends with
    | fault hkind =>
      rw [hfails]
      exact .fault hkind
  · refine endsWell_of_texts hhead href fun part hpart => ?_
    obtain ⟨v, hv⟩ := hparts part hpart
    have hends := h part hpart
    rw [hv] at hends
    cases hends with
    | text => exact ⟨_, _, hv⟩

theorem renderParts_congr {render render' : Descriptor → Except Fault Value}
    {parts : List Descriptor} (h : ∀ part ∈ parts, render part = render' part) :
    renderParts render parts = renderParts render' parts := by
  rw [renderParts, renderParts, Except.mapM_congr h]

theorem renderHead_congr {render render' : Descriptor → Except Fault Value} {head : Descriptor}
    (h : ∀ part ∈ renderedParts head, render part = render' part) :
    renderHead render head = renderHead render' head := by
  cases head with
  | tuple items =>
    have hparts : renderParts render items = renderParts render' items := renderParts_congr h
    rw [renderHead, renderHead, hparts]
  | effect tag args =>
    have hparts : renderParts render args = renderParts render' args := renderParts_congr h
    simp only [renderHead, hparts]
  | op name args =>
    have hparts : renderParts render args = renderParts render' args := renderParts_congr h
    rw [renderHead, renderHead, hparts]
  | record fields =>
    have hmembers : fields.mapM (renderMember render) = fields.mapM (renderMember render') :=
      Except.mapM_congr fun entry hentry =>
        by rw [renderMember, renderMember, h entry.2 (List.mem_map_of_mem hentry)]
    cases fields with
    | nil => rfl
    | cons entry rest => simp only [renderHead, hmembers]
  | _ => rfl

theorem any_agrees_iff {seen : List Value} {name : String} {mark : Mark} :
    seen.any (·.agrees (.str name mark)) = true ↔ ∃ mark', .str name mark' ∈ seen := by
  simp only [List.any_eq_true, Value.agrees_str_iff]
  constructor
  · rintro ⟨_, hmem, mark', rfl⟩
    exact ⟨mark', hmem⟩
  · rintro ⟨mark', hmem⟩
    exact ⟨_, hmem, mark', rfl⟩

/-- The definitions that rendering is not inside of. -/
def unopened (r : Resolver) (seen : List Value) : Table Descriptor :=
  r.definitions.filter fun entry => !seen.any (·.agrees (.ofStr entry.1))

theorem length_unopened_cons_lt {name : String} {mark : Mark} {seen : List Value}
    (hdefined : r.definitions.has name = true)
    (hseen : ¬ seen.any (·.agrees (.str name mark)) = true) :
    (unopened r (.str name mark :: seen)).length < (unopened r seen).length := by
  obtain ⟨entry, hentry, rfl⟩ := List.mem_map.mp (Table.has_iff_mem_keys.mp hdefined)
  have hunopened : entry ∈ unopened r seen := by
    refine List.mem_filter.mpr ⟨hentry, ?_⟩
    rw [Bool.not_eq_true', Bool.eq_false_iff, Value.ofStr, Ne, any_agrees_iff]
    rwa [any_agrees_iff] at hseen
  have hless : unopened r (.str entry.1 mark :: seen) =
      (unopened r seen).filter fun other => !(Value.str entry.1 mark).agrees (.ofStr other.1) := by
    simp only [unopened, List.filter_filter, List.any_cons, Bool.not_or]
  have hagrees : (Value.str entry.1 mark).agrees (.ofStr entry.1) = true :=
    Value.agrees_str_iff.mpr ⟨mark, rfl⟩
  rw [hless, List.length_filter_lt_length_iff_exists]
  exact ⟨entry, hunopened, by simp [hagrees]⟩

theorem surroundings_of_seen {seen : List Value} {name : String} {mark : Mark}
    (hseen : seen.any (·.agrees (.str name mark)) = true) :
    surroundings seen (.ref (.str name mark)) = .ok (.inl (.str name mark)) := by
  simp [surroundings, Value.requireHashable, Value.unhashable?, Except.map, hseen]

theorem surroundings_of_unseen {seen : List Value} {name : String} {mark : Mark}
    (hseen : ¬ seen.any (·.agrees (.str name mark)) = true) :
    surroundings seen (.ref (.str name mark)) = .ok (.inr (.str name mark :: seen)) := by
  simp [surroundings, Value.requireHashable, Value.unhashable?, Except.map, hseen]

theorem seen_or_surroundings {d : Descriptor} (hd : d.Elementary) (seen : List Value) :
    (∃ name mark, d = .ref (.str name mark) ∧ seen.any (·.agrees (.str name mark)) = true) ∨
      ∃ inner, surroundings seen d = .ok (.inr inner) := by
  cases hd with
  | @ref name mark =>
    by_cases hseen : seen.any (·.agrees (.str name mark)) = true
    · exact .inl ⟨name, mark, rfl, hseen⟩
    · exact .inr ⟨_, surroundings_of_unseen hseen⟩
  | _ => exact .inr ⟨_, rfl⟩

/-- With so much room, or more, a descriptor is rendered with the same outcome, and it ends well. -/
def Settles (r : Resolver) (room : Nat) (seen : List Value) (d : Descriptor) : Prop :=
  ∃ outcome, EndsWell outcome ∧
    ∀ nesting levels, room ≤ levels →
      renderAt { r with nesting := nesting + 1 } levels seen d = outcome

/-- A level more settles what ends well with all the levels below it. -/
theorem settles_of_levels {room : Nat} {seen : List Value} {d : Descriptor}
    {outcome : Except Fault Value}
    (hends : EndsWell outcome)
    (h : ∀ nesting levels, room ≤ levels →
      renderAt { r with nesting := nesting + 1 } (levels + 1) seen d = outcome) :
    Settles r (room + 1) seen d := by
  refine ⟨outcome, hends, fun nesting levels hlevels => ?_⟩
  obtain ⟨levels, rfl⟩ := Nat.exists_eq_succ_of_ne_zero (Nat.ne_of_gt (Nat.zero_lt_of_lt hlevels))
  exact h nesting levels (Nat.le_of_succ_le_succ hlevels)

theorem settles_of_parts {room : Nat} {seen inner : List Value} {d head : Descriptor}
    (hseen : surroundings seen d = .ok (.inr inner))
    (hfound : ∀ nesting, { r with nesting := nesting + 1 : Resolver }.head d = .ok head)
    (hhead : head.Elementary) (href : ∀ name, head ≠ .ref name)
    (hparts : ∀ part ∈ renderedParts head, Settles r room inner part) :
    Settles r (room + 1) seen d := by
  have hends : EndsWell (renderHead (renderAt { r with nesting := 1 } room inner) head) := by
    refine endsWell_renderHead hhead (fun part hpart => ?_) href
    obtain ⟨outcome, hends, houtcome⟩ := hparts part hpart
    rwa [houtcome 0 room le_rfl]
  refine settles_of_levels hends fun nesting levels hlevels => ?_
  simp only [renderAt, hseen, hfound]
  refine renderHead_congr fun part hpart => ?_
  obtain ⟨outcome, -, houtcome⟩ := hparts part hpart
  rw [houtcome nesting levels hlevels, houtcome 0 room le_rfl]

theorem settles_of_fault {room : Nat} {seen inner : List Value} {d : Descriptor} {e : Fault}
    (hseen : surroundings seen d = .ok (.inr inner))
    (hfound : ∀ nesting, { r with nesting := nesting + 1 : Resolver }.head d = .error e)
    (he : e.kind = .resolution) :
    Settles r (room + 1) seen d :=
  settles_of_levels (.fault he) fun _ _ _ => by simp only [renderAt, hseen, hfound]

theorem settles_of_seen {room : Nat} {seen : List Value} {name : String} {mark : Mark}
    (hseen : seen.any (·.agrees (.str name mark)) = true) :
    Settles r (room + 1) seen (.ref (.str name mark)) :=
  settles_of_levels .text fun _ _ _ => by rw [renderAt, surroundings_of_seen hseen]

variable {highest : Nat} (hheights : ∀ entry ∈ r.definitions, entry.2.height ≤ highest)
include hdefinitions hheights

/-- Each part is less high, or a definition less is left to open. -/
theorem settles {room : Nat} {seen : List Value} {d : Descriptor} (hd : d.Elementary)
    (hroom : (unopened r seen).length * (highest + 1) + d.height < room) :
    Settles r room seen d := by
  induction room generalizing seen d with
  | zero => exact absurd hroom (Nat.not_lt_zero _)
  | succ room ih =>
    obtain ⟨found, hfound, hiterate⟩ := exists_iterate_eq hdefinitions hd r.maxSteps.toNat
    have hhead (nesting : Nat) : { r with nesting := nesting + 1 : Resolver }.head d = found :=
      hiterate (headAt { r with nesting := nesting + 1 } nesting)
    cases hfound with
    | itself href =>
      refine settles_of_parts (surroundings_of_ne_ref href) hhead hd href fun part hpart => ?_
      have hlower := height_lt_of_mem_renderedParts hd hpart
      exact ih (elementary_of_mem_renderedParts hd hpart) (by omega)
    | @defined name mark entry hname hentry href =>
      by_cases hseen : seen.any (·.agrees (.str name mark)) = true
      · exact settles_of_seen hseen
      · have hentryElementary := hdefinitions entry hentry
        refine settles_of_parts (surroundings_of_unseen hseen) hhead hentryElementary href
          fun part hpart => ?_
        have hlower := height_lt_of_mem_renderedParts hentryElementary hpart
        have hhighest := hheights entry hentry
        have hfewer := Nat.mul_le_mul_right (highest + 1)
          (Nat.succ_le_of_lt (length_unopened_cons_lt hname hseen))
        rw [Nat.succ_mul] at hfewer
        exact ih (elementary_of_mem_renderedParts hentryElementary hpart) (by omega)
    | fault he =>
      rcases seen_or_surroundings hd seen with ⟨name, mark, rfl, hseen⟩ | ⟨inner, hinner⟩
      · exact settles_of_seen hseen
      · exact settles_of_fault hinner hhead he

end Resolution

namespace Resolver

open Resolution

def highest (r : Resolver) : Nat := (r.definitions.map fun entry => entry.2.height).foldr max 0

theorem height_le_highest (r : Resolver) {entry : String × Descriptor} (h : entry ∈ r.definitions) :
    entry.2.height ≤ r.highest :=
  List.le_max_of_le' 0 (List.mem_map_of_mem h) le_rfl

/-- As many levels as a path needs that goes through every definition once, and through all levels
of it. -/
def roomFor (r : Resolver) (d : Descriptor) : Nat :=
  r.definitions.length * (r.highest + 1) + d.height + 1

/-- With room for every definition inside of every other one, rendering ends: with a text, or with a
fault of a search. The outcome is the same for more room. -/
theorem rendering_ends (r : Resolver) (d : Descriptor)
    (hdefinitions : ∀ entry ∈ r.definitions, entry.2.Elementary) (hd : d.Elementary) :
    ∃ outcome, EndsWell outcome ∧ ∀ nesting, r.roomFor d ≤ nesting →
      { r with nesting }.render d = outcome := by
  have hunopened : (unopened r []).length ≤ r.definitions.length := List.length_filter_le ..
  have hroom : (unopened r []).length * (r.highest + 1) + d.height < r.roomFor d :=
    Nat.lt_succ_of_le (Nat.add_le_add_right (Nat.mul_le_mul_right _ hunopened) _)
  obtain ⟨outcome, hends, houtcome⟩ := settles hdefinitions (fun _ => r.height_le_highest) hd hroom
  refine ⟨outcome, hends, fun nesting hnesting => ?_⟩
  obtain ⟨nesting, rfl⟩ := Nat.exists_eq_succ_of_ne_zero (Nat.ne_of_gt (Nat.zero_lt_of_lt hnesting))
  exact houtcome nesting _ hnesting

/-- Definitions with each other inside, one of them under two names. -/
def entangled : Resolver where
  definitions :=
    [("Tree", .record [("children", .ref (.ofStr "Forest")), ("parent", .ref (.ofStr "Tree"))]),
      ("Forest", .tuple [.ref (.ofStr "Tree"), .effect .null [.ref (.ofStr "Wood")]]),
      ("Wood", .ref (.ofStr "Forest"))]

example : entangled.render (.ref (.ofStr "Tree")) =
    .ok (.ofStr
      "\x7b children: [Tree, anonymous<[Tree, anonymous<Wood>]>]; parent: Tree \x7d") := by
  cbv

theorem entangled_rendering_ends :
    (∀ entry ∈ entangled.definitions, entry.2.Elementary) ∧
    (Descriptor.ref (.ofStr "Tree")).Elementary ∧
      ∃ outcome, EndsWell outcome ∧
        ∀ nesting, entangled.roomFor (.ref (.ofStr "Tree")) ≤ nesting →
          { entangled with nesting }.render (.ref (.ofStr "Tree")) = outcome := by
  have hdefinitions : ∀ entry ∈ entangled.definitions, entry.2.Elementary := by
    have htree :
        (Descriptor.record [("children", .ref (.ofStr "Forest")),
          ("parent", .ref (.ofStr "Tree"))]).Elementary :=
      .record (by simpa using ⟨.ref, .ref⟩)
    have hforest : (Descriptor.tuple
        [.ref (.ofStr "Tree"), .effect .null [.ref (.ofStr "Wood")]]).Elementary :=
      .tuple (by simpa using ⟨.ref, .effect (.inl rfl) (by simpa using .ref)⟩)
    have hwood : (Descriptor.ref (.ofStr "Forest")).Elementary := .ref
    simpa [entangled] using ⟨htree, hforest, hwood⟩
  exact ⟨hdefinitions, .ref, rendering_ends entangled _ hdefinitions .ref⟩

end Resolver

end EffectTree
