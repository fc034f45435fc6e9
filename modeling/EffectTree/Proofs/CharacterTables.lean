import EffectTree.Text.Property
import Mathlib.Order.Basic

/-!
# Character tables

The bisection of a table finds the run that holds a character, since runs read from gaps and lengths
ascend. So what the tables say about one another can be seen from their runs: no blank is a digit or
part of a word, and decimal digits are digits.
-/
namespace EffectTree.Text

namespace CodePoints

/-- The run holds the code point. -/
def Holds (point : Nat) (run : Nat × Nat) : Prop := run.1 ≤ point ∧ point ≤ run.2

/-- No run is empty, and each ends before the runs after it begin. -/
structure Ascending (runs : List (Nat × Nat)) : Prop where
  le : ∀ run ∈ runs, run.1 ≤ run.2
  lt : runs.Pairwise fun run later => run.2 < later.1

variable {runs : Array (Nat × Nat)} {point : Nat}

theorem exists_holds_of_search {fuel lo hi : Nat} (h : search runs point fuel lo hi = true) :
    ∃ run ∈ runs, Holds point run := by
  induction fuel generalizing lo hi with
  | zero => cases h
  | succ fuel ih =>
    unfold search at h
    split at h
    · dsimp only at h
      split at h
      · cases h
      · rename_i first last hrun
        have hmem : (first, last) ∈ runs := Array.mem_of_getElem? hrun
        split at h
        · exact ih h
        · split at h
          · exact ih h
          · exact ⟨_, hmem, Nat.not_lt.mp ‹_›, Nat.not_lt.mp ‹_›⟩
    · cases h

theorem Ascending.getElem_lt (h : Ascending runs.toList) {i j : Nat} (hj : j < runs.size)
    (hij : i < j) :
    runs[i].2 < runs[j].1 := by
  have hlt := List.pairwise_iff_getElem.mp h.lt i j (by simp; omega) (by simpa using hj) hij
  simpa only [Array.getElem_toList] using hlt

theorem Ascending.getElem_le (h : Ascending runs.toList) {i : Nat} (hi : i < runs.size) :
    runs[i].1 ≤ runs[i].2 :=
  h.le _ (by simp)

/-- The runs before and after one that holds a point lie on their side of it, so the window keeps
that run. -/
theorem search_of_holds (h : Ascending runs.toList) {i : Nat} (hrun : i < runs.size)
    (hholds : Holds point runs[i]) {fuel lo hi : Nat} (hlo : lo ≤ i) (hhi : i < hi)
    (hsize : hi ≤ runs.size) (hfuel : hi - lo < fuel) :
    search runs point fuel lo hi = true := by
  induction fuel generalizing lo hi with
  | zero => omega
  | succ fuel ih =>
    obtain ⟨hfirst, hlast⟩ := hholds
    have hmid : (lo + hi) / 2 < runs.size := by omega
    have hle := h.getElem_le hmid
    rw [search, if_pos (by omega)]
    simp only [Array.getElem?_eq_getElem hmid]
    rcases Nat.lt_trichotomy ((lo + hi) / 2) i with hlt | heq | hgt
    · have hbefore := h.getElem_lt hrun hlt
      rw [if_neg (by omega), if_pos (by omega)]
      exact ih (by omega) hhi hsize (by omega)
    · subst heq
      rw [if_neg (by omega), if_neg (by omega)]
    · have hafter := h.getElem_lt hmid hgt
      rw [if_pos (by omega)]
      exact ih hlo hgt (by omega) (by omega)

theorem ofGaps_ascending (start : Nat) (gaps : List Int) :
    Ascending (ofGaps start gaps) ∧ ∀ run ∈ ofGaps start gaps, start ≤ run.1 := by
  fun_induction ofGaps start gaps with
  | case1 start gap size rest lo hi ih =>
    obtain ⟨hrest, hstart⟩ := ih
    have hlo : start ≤ lo := Nat.le_add_right _ _
    have hhi : lo ≤ hi := Nat.le_add_right _ _
    refine ⟨⟨List.forall_mem_cons.mpr ⟨hhi, hrest.le⟩, List.pairwise_cons.mpr ⟨hstart, hrest.lt⟩⟩,
      List.forall_mem_cons.mpr ⟨hlo, fun run hrun => ?_⟩⟩
    have hafter := hstart run hrun
    omega
  | case2 => exact ⟨⟨by simp, .nil⟩, by simp⟩

/-- The octets of a row can be had from its characters one by one, which takes fewer steps than its
array does. -/
theorem numbers_ofList_cons (cs : List Char) (rows : List String) :
    numbers (String.ofList cs :: rows) = numbersFrom false 0 (cs.flatMap String.utf8EncodeChar) ++
      numbers rows := by
  simp [numbers, List.utf8Encode]

theorem toList_ofRows (rows : List String) : (ofRows rows).runs.toList = ofGaps 0 (numbers rows) :=
  rfl

theorem ofRows_ascending (rows : List String) : Ascending (ofRows rows).runs.toList :=
  (ofGaps_ascending 0 (numbers rows)).1

variable {points : CodePoints} {c : Char}

theorem contains_iff (h : Ascending points.runs.toList) :
    points.contains c = true ↔ ∃ run ∈ points.runs.toList, Holds c.toNat run := by
  constructor
  · intro hcontains
    obtain ⟨run, hrun, hholds⟩ := exists_holds_of_search hcontains
    exact ⟨run, by simpa using hrun, hholds⟩
  · rintro ⟨run, hrun, hholds⟩
    obtain ⟨i, hi, rfl⟩ := List.mem_iff_getElem.mp hrun
    rw [Array.getElem_toList] at hholds
    exact search_of_holds h (by simpa using hi) hholds (Nat.zero_le i) (by simpa using hi)
      (Nat.le_refl _) (by omega)

def Apart (run other : Nat × Nat) : Prop := run.2 < other.1 ∨ other.2 < run.1

def Within (run other : Nat × Nat) : Prop := other.1 ≤ run.1 ∧ run.2 ≤ other.2

instance (run other : Nat × Nat) : Decidable (Apart run other) :=
  inferInstanceAs (Decidable (_ ∨ _))

instance (run other : Nat × Nat) : Decidable (Within run other) :=
  inferInstanceAs (Decidable (_ ∧ _))

theorem contains_eq_false_of_apart {others : CodePoints} (hpoints : Ascending points.runs.toList)
    (hothers : Ascending others.runs.toList)
    (hapart : ∀ run ∈ points.runs.toList, ∀ other ∈ others.runs.toList, Apart run other)
    (h : others.contains c = true) : points.contains c = false := by
  refine eq_false_of_ne_true fun hcontains => ?_
  obtain ⟨run, hrun, hholds⟩ := (contains_iff hpoints).mp hcontains
  obtain ⟨other, hother, hholds'⟩ := (contains_iff hothers).mp h
  have hdistinct := hapart run hrun other hother
  unfold Apart at hdistinct
  unfold Holds at hholds hholds'
  omega

end CodePoints

open CodePoints

variable {c : Char}

theorem isDigit_iff_of_ascii (h : c.toNat < 128) :
    isDigit c = true ↔ 48 ≤ c.toNat ∧ c.toNat ≤ 57 := by
  rw [isDigit, if_pos h]
  exact Char.isDigit_iff_toNat

theorem isDigit_iff_of_large (h : ¬ c.toNat < 128) :
    isDigit c = true ↔ ∃ run ∈ digitPoints.runs.toList, Holds c.toNat run := by
  rw [isDigit, if_neg h]
  exact contains_iff (ofRows_ascending _)

theorem blanks_apart_from_digits :
    ∀ run ∈ blankPoints.runs.toList, ∀ other ∈ digitPoints.runs.toList, Apart run other := by
  rw [blankPoints, digitPoints, toList_ofRows, toList_ofRows]
  repeat rw [numbers_ofList_cons]
  decide +kernel

theorem blanks_apart_from_words :
    ∀ run ∈ blankPoints.runs.toList, ∀ other ∈ wordPoints.runs.toList, Apart run other := by
  rw [blankPoints, wordPoints, toList_ofRows, toList_ofRows]
  repeat rw [numbers_ofList_cons]
  decide +kernel

theorem decimals_within_digits :
    ∀ run ∈ decimalPoints.runs.toList, ∃ other ∈ digitPoints.runs.toList, Within run other := by
  rw [decimalPoints, digitPoints, toList_ofRows, toList_ofRows]
  repeat rw [numbers_ofList_cons]
  decide +kernel

theorem isBlank_of_isDigit (h : isDigit c = true) : isBlank c = false := by
  unfold isBlank
  split
  · rename_i hsmall
    have hrange := (isDigit_iff_of_ascii hsmall).mp h
    simp
    omega
  · rename_i hlarge
    rw [isDigit, if_neg hlarge] at h
    exact contains_eq_false_of_apart (ofRows_ascending _) (ofRows_ascending _)
      blanks_apart_from_digits h

theorem toNat_of_isAlphanum (h : c.isAlphanum = true) : 48 ≤ c.toNat ∧ c.toNat < 128 := by
  rcases Bool.or_eq_true_iff.mp h with halpha | hdigit
  · rcases Bool.or_eq_true_iff.mp halpha with hupper | hlower
    · have hrange : 65 ≤ c.toNat ∧ c.toNat ≤ 90 := of_decide_eq_true hupper
      omega
    · obtain ⟨hleast, hmost⟩ := Bool.and_eq_true_iff.mp hlower
      have hrange : 97 ≤ c.toNat ∧ c.toNat ≤ 122 :=
        ⟨of_decide_eq_true hleast, of_decide_eq_true hmost⟩
      omega
  · have hrange : 48 ≤ c.toNat ∧ c.toNat ≤ 57 := Char.isDigit_iff_toNat.mp hdigit
    omega

def isAsciiWord (c : Char) : Bool := c.isAlphanum || c = '_'

theorem toNat_of_isAsciiWord (h : isAsciiWord c = true) : 48 ≤ c.toNat ∧ c.toNat < 128 := by
  rcases Bool.or_eq_true_iff.mp h with halphanum | hline
  · exact toNat_of_isAlphanum halphanum
  · rw [of_decide_eq_true hline]
    decide

theorem isWordChar_of_isAsciiWord (h : isAsciiWord c = true) : isWordChar c = true := by
  rw [isWordChar, if_pos (toNat_of_isAsciiWord h).2]
  exact h

theorem isBlank_of_isWordChar (h : isWordChar c = true) : isBlank c = false := by
  unfold isWordChar at h
  unfold isBlank
  split at h
  · rename_i hsmall
    rw [if_pos hsmall]
    have hrange := (toNat_of_isAsciiWord h).1
    simp
    omega
  · rename_i hlarge
    rw [if_neg hlarge]
    exact contains_eq_false_of_apart (ofRows_ascending _) (ofRows_ascending _)
      blanks_apart_from_words h

theorem isDigit_of_decimalDigit? (h : (decimalDigit? c).isSome = true) : isDigit c = true := by
  unfold decimalDigit? at h
  split at h
  · rename_i hdigit
    have hrange : 48 ≤ c.toNat ∧ c.toNat ≤ 57 := Char.isDigit_iff_toNat.mp hdigit
    exact (isDigit_iff_of_ascii (by omega)).mpr hrange
  · split at h
    · cases h
    · rename_i hlarge
      obtain ⟨d, hd⟩ := Option.isSome_iff_exists.mp h
      obtain ⟨run, hrun, hsome⟩ := Array.exists_of_findSome?_eq_some hd
      split at hsome
      · rename_i hinside
        simp only [Bool.and_eq_true, decide_eq_true_eq] at hinside
        obtain ⟨other, hother, hwithin⟩ := decimals_within_digits run (by simpa using hrun)
        unfold Within at hwithin
        exact (isDigit_iff_of_large hlarge).mpr ⟨other, hother, by unfold Holds; omega⟩
      · cases hsome

end EffectTree.Text
