import Mathlib
import EffectTree.Evaluation.World

/-!
# Keys do not repeat

A key spells its number, so two numbers never have the same key. A new result gets the first key
from the next one on that names no result; there is one, since keys that differ cannot all be those
of fewer results.
-/
namespace EffectTree.Store
open Text

theorem hexDigit_injOn : ∀ a < 16, ∀ b < 16, hexDigit a = hexDigit b → a = b := by decide

theorem hexDigit_ne_hyphen : ∀ a < 16, hexDigit a ≠ '-' := by decide

@[simp] theorem length_hexDigits (width n : Nat) : (hexDigits width n).length = width := by
  induction width generalizing n with
  | zero => rfl
  | succ width ih => simp [hexDigits, ih]

theorem hyphen_notMem_hexDigits (width n : Nat) : '-' ∉ hexDigits width n := by
  induction width generalizing n with
  | zero => simp [hexDigits]
  | succ width ih =>
    have hlast := hexDigit_ne_hyphen (n % 16) (Nat.mod_lt _ (by decide))
    simp [hexDigits, ih, hlast.symm]

/-- Digits of the same width tell numbers apart that fit into them. -/
theorem hexDigits_inj {width n m : Nat} (hn : n < 16 ^ width) (hm : m < 16 ^ width)
    (h : hexDigits width n = hexDigits width m) : n = m := by
  induction width generalizing n m with
  | zero => simp at hn hm; omega
  | succ width ih =>
    obtain ⟨hhigh, hlow⟩ := List.append_inj' h rfl
    have hquot : n / 16 = m / 16 := by
      apply ih _ _ hhigh
      · rw [pow_succ] at hn; omega
      · rw [pow_succ] at hm; omega
    have hrest : n % 16 = m % 16 :=
      hexDigit_injOn _ (Nat.mod_lt _ (by decide)) _ (Nat.mod_lt _ (by decide)) (by simpa using hlow)
    omega

theorem lt_pow_keyWidth (n : Nat) : n < 16 ^ keyWidth n := by
  have hlog : n.log2 + 1 ≤ 4 * keyWidth n := by unfold keyWidth; omega
  calc n < 2 ^ (n.log2 + 1) := Nat.lt_log2_self
    _ ≤ 2 ^ (4 * keyWidth n) := Nat.pow_le_pow_right (by decide) hlog
    _ = 16 ^ keyWidth n := by rw [pow_mul]; norm_num

/-- Taking the hyphens out of grouped text gives the text back. -/
theorem filter_intercalate_groups (sizes : List Nat) {cs : List Char} (h : '-' ∉ cs) :
    ("-".intercalate (groups sizes cs)).toList.filter (· ≠ '-') = cs := by
  have hself : ∀ {ds : List Char}, '-' ∉ ds → ds.filter (· ≠ '-') = ds := by
    intro ds hds
    rw [List.filter_eq_self]
    intro c hc
    have hne : c ≠ '-' := fun he => hds (he ▸ hc)
    simpa using hne
  induction sizes generalizing cs with
  | nil => simpa [groups, String.toList_intercalate] using hself h
  | cons n sizes ih =>
    have hne : groups sizes (cs.drop n) ≠ [] := by cases sizes <;> simp [groups]
    have htake : '-' ∉ cs.take n := fun hc => h (List.mem_of_mem_take hc)
    have hdrop : '-' ∉ cs.drop n := fun hc => h (List.mem_of_mem_drop hc)
    rw [groups, String.intercalate_cons_of_ne_nil hne]
    simp only [String.toList_append, List.filter_append, String.toList_ofList, hself htake,
      ih hdrop]
    simp

theorem keyText_injective : Function.Injective keyText := by
  intro n m h
  have hdigits : hexDigits (keyWidth n) n = hexDigits (keyWidth m) m := by
    rw [← filter_intercalate_groups [8, 4, 4, 4] (hyphen_notMem_hexDigits (keyWidth n) n),
      ← filter_intercalate_groups [8, 4, 4, 4] (hyphen_notMem_hexDigits (keyWidth m) m)]
    exact congrArg (fun s : String => s.toList.filter (· ≠ '-')) h
  have hwidth : keyWidth n = keyWidth m := by simpa using congrArg List.length hdigits
  rw [hwidth] at hdigits
  exact hexDigits_inj (hwidth ▸ lt_pow_keyWidth n) (lt_pow_keyWidth m) hdigits

end EffectTree.Store

namespace EffectTree.Evaluation.World
open Store

/-- What is passed over is taken, and so is what the search ends with only if its tries are used
up. -/
theorem unusedFrom_spec (results : Results) (tries n : Nat) :
    n ≤ unusedFrom results tries n ∧
      (∀ k, n ≤ k → k < unusedFrom results tries n → keyText k ∈ results.keys) ∧
      (keyText (unusedFrom results tries n) ∈ results.keys →
        unusedFrom results tries n = n + tries) := by
  have htaken (k : Nat) : results.has (.ofStr (keyText k)) = true ↔ keyText k ∈ results.keys :=
    Table.get?_isSome
  induction tries generalizing n with
  | zero => exact ⟨le_rfl, fun k hk hlt => absurd hlt (not_lt.mpr hk), fun _ => rfl⟩
  | succ tries ih =>
    rw [unusedFrom]
    split
    · rename_i hn
      obtain ⟨hle, hpassed, hused⟩ := ih (n + 1)
      refine ⟨by omega, fun k hk hlt => ?_, fun h => by rw [hused h]; omega⟩
      rcases Nat.eq_or_lt_of_le hk with rfl | hk
      · exact (htaken _).mp hn
      · exact hpassed k hk hlt
    · rename_i hn
      exact ⟨le_rfl, fun k hk hlt => absurd hlt (not_lt.mpr hk),
        fun h => absurd ((htaken n).mpr h) hn⟩

variable (w : World)

theorem issued_lt_nextUnused : w.issued < w.nextUnused :=
  (unusedFrom_spec w.results w.results.size (w.issued + 1)).1

/-- The key of a new result names no result yet. -/
theorem nextUnused_notMem : keyText w.nextUnused ∉ w.results.keys := by
  intro hmem
  obtain ⟨-, hpassed, hused⟩ := unusedFrom_spec w.results w.results.size (w.issued + 1)
  have hlast : w.nextUnused = w.issued + 1 + w.results.size := hused hmem
  have hsubset : (List.range (w.results.size + 1)).map (fun i => keyText (w.issued + 1 + i)) ⊆
      w.results.keys := by
    intro key hkey
    obtain ⟨i, hi, rfl⟩ := List.mem_map.mp hkey
    have hi' := List.mem_range.mp hi
    have hle : w.issued + 1 + i ≤ w.nextUnused := by omega
    rcases Nat.lt_or_eq_of_le hle with hlt | heq
    · exact hpassed _ (Nat.le_add_right _ _) hlt
    · rw [heq]
      exact hmem
  have hnodup : ((List.range (w.results.size + 1)).map fun i => keyText (w.issued + 1 + i)).Nodup :=
    List.nodup_range.map (keyText_injective.comp (add_right_injective (w.issued + 1)))
  have hlength := (hnodup.subperm hsubset).length_le
  simp [Results.keys, Table.keys, Results.size] at hlength

/-- No number before that of the new key would have done. -/
theorem nextUnused_le {w : World} {n : Nat} (hn : w.issued < n) (h : keyText n ∉ w.results.keys) :
    w.nextUnused ≤ n := by
  obtain ⟨-, hpassed, -⟩ := unusedFrom_spec w.results w.results.size (w.issued + 1)
  exact not_lt.mp fun hlt => h (hpassed n hn hlt)

/-- Where the next key names no result, it is the one. -/
theorem nextUnused_eq {w : World} (h : keyText (w.issued + 1) ∉ w.results.keys) :
    w.nextUnused = w.issued + 1 :=
  le_antisymm (nextUnused_le (Nat.lt_succ_self _) h) w.issued_lt_nextUnused

/-- Worlds give out the same key if the same keys yet to be issued are taken in both. -/
theorem nextUnused_congr {w w' : World} (hissued : w'.issued = w.issued)
    (h : ∀ n > w.issued, keyText n ∈ w'.results.keys ↔ keyText n ∈ w.results.keys) :
    w'.nextUnused = w.nextUnused := by
  have hlt := w.issued_lt_nextUnused
  have hlt' := hissued ▸ w'.issued_lt_nextUnused
  refine le_antisymm (nextUnused_le (hissued ▸ hlt) fun hmem => ?_)
    (nextUnused_le hlt' fun hmem => ?_)
  · exact w.nextUnused_notMem ((h _ hlt).mp hmem)
  · exact w'.nextUnused_notMem ((h _ hlt').mpr hmem)

end EffectTree.Evaluation.World
