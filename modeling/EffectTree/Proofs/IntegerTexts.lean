import EffectTree.Number.Reading
import Mathlib.Data.List.TakeWhile

/-!
# Texts of integers

Which texts are read as integers in base ten: after padding has been cut off there is a sign, if
any, and decimal digits with single underscores between them. A second sign, another character or
another blank makes it no integer.
-/
namespace EffectTree.Number

open Text

theorem toNat_of_isDigit {c : Char} (h : c.isDigit = true) : 48 ≤ c.toNat ∧ c.toNat ≤ 57 :=
  Char.isDigit_iff_toNat.mp h

theorem toNat_of_isLower {c : Char} (h : c.isLower = true) : 97 ≤ c.toNat :=
  of_decide_eq_true (Bool.and_eq_true_iff.mp h).1

theorem toNat_of_isUpper {c : Char} (h : c.isUpper = true) : 65 ≤ c.toNat :=
  (of_decide_eq_true h).1

theorem decimalDigit?_of_isDigit {c : Char} (h : c.isDigit = true) :
    decimalDigit? c = some (c.toNat - 48) := if_pos h

theorem decimalDigit?_lt {c : Char} {d : Nat} (h : decimalDigit? c = some d) : d < 10 := by
  unfold decimalDigit? at h
  split at h
  · rename_i hdigit
    have hle := (toNat_of_isDigit hdigit).2
    obtain rfl := Option.some.inj h
    omega
  · split at h
    · cases h
    · obtain ⟨run, -, hrun⟩ := Array.exists_of_findSome?_eq_some h
      split at hrun
      · obtain rfl := Option.some.inj hrun
        exact Nat.mod_lt _ (by decide)
      · cases hrun

theorem isDigit_of_digitValue?_lt {c : Char} {d : Nat} (h : digitValue? c = some d) (hlt : d < 10) :
    c.isDigit = true := by
  unfold digitValue? at h
  split at h
  · assumption
  · split at h
    · rename_i hlower
      have hle := toNat_of_isLower hlower
      obtain rfl := Option.some.inj h
      omega
    · split at h
      · rename_i hupper
        have hle := toNat_of_isUpper hupper
        obtain rfl := Option.some.inj h
        omega
      · cases h

/-- A plain digit for each digit, with the same value. -/
theorem plainDigits_eq_map {cs : List Char} (h : ∀ c ∈ cs, (decimalDigit? c).isSome = true) :
    plainDigits cs = cs.map fun c => Char.ofNat (48 + (decimalDigit? c).getD 0) := by
  refine List.map_congr_left fun c hc => ?_
  obtain ⟨d, hd⟩ := Option.isSome_iff_exists.mp (h c hc)
  simp [hd]

/-- Digits, signs and underscores are made of nothing else. -/
theorem decimalDigit?_of_mem_plainDigits {cs : List Char} {signs : List Char}
    (h : ∀ c ∈ plainDigits cs, c ∈ signs ∨ c.isDigit = true) {c : Char} (hc : c ∈ cs) :
    c ∈ signs ∨ (decimalDigit? c).isSome = true := by
  cases hd : decimalDigit? c with
  | some d => exact .inr rfl
  | none =>
    have hmem : c ∈ plainDigits cs := List.mem_map.mpr ⟨c, hc, by simp [hd]⟩
    refine (h c hmem).imp_right fun hdigit => ?_
    rw [decimalDigit?_of_isDigit hdigit] at hd
    cases hd

theorem readMagnitude_ten (cs : List Char) : readMagnitude 10 cs = readDigits 10 false 0 cs := by
  have hmark : markedBase? cs ≠ some 10 := by
    unfold markedBase?
    (repeat' split) <;> simp
  simp [readMagnitude, hmark]

theorem mem_of_readDigits {afterDigit : Bool} {acc n : Nat} {cs : List Char}
    (h : readDigits 10 afterDigit acc cs = some n) : ∀ c ∈ cs, c = '_' ∨ c.isDigit = true := by
  induction cs generalizing afterDigit acc with
  | nil => simp
  | cons c cs ih =>
    rw [List.forall_mem_cons]
    unfold readDigits at h
    split at h
    · cases ‹c :: cs = []›
    · rename_i hcons
      cases hcons
      split at h
      · exact ⟨.inl rfl, ih h⟩
      · cases h
    · rename_i hcons
      cases hcons
      split at h
      · rename_i d hd
        split at h
        · exact ⟨.inr (isDigit_of_digitValue?_lt hd ‹_›), ih h⟩
        · cases h
      · cases h

/-- The number that digits of any script spell. -/
def decimalValue (cs : List Char) : Nat := cs.foldl (fun n c => n * 10 + (decimalDigit? c).getD 0) 0

theorem readDigits_digit {c : Char} {d : Nat} (hd : digitValue? c = some d) (hlt : d < 10)
    (afterDigit : Bool) (acc : Nat) (cs : List Char) :
    readDigits 10 afterDigit acc (c :: cs) = readDigits 10 true (acc * 10 + d) cs := by
  have hc : c ≠ '_' := by
    rintro rfl
    cases hd
  rw [readDigits, hd]
  · exact if_pos hlt
  · exact hc

theorem digitValue?_plain {d : Nat} (h : d < 10) : digitValue? (Char.ofNat (48 + d)) = some d := by
  revert d
  decide

theorem readDigits_plain {cs : List Char} (h : ∀ c ∈ cs, (decimalDigit? c).isSome = true)
    (afterDigit : Bool) (acc : Nat) (hne : afterDigit = true ∨ cs ≠ []) :
    readDigits 10 afterDigit acc (plainDigits cs) =
      some (cs.foldl (fun n c => n * 10 + (decimalDigit? c).getD 0) acc) := by
  rw [plainDigits_eq_map h]
  induction cs generalizing afterDigit acc with
  | nil =>
    obtain rfl : afterDigit = true := hne.resolve_right (absurd rfl)
    rfl
  | cons c cs ih =>
    rw [List.forall_mem_cons] at h
    obtain ⟨d, hd⟩ := Option.isSome_iff_exists.mp h.1
    have hlt := decimalDigit?_lt hd
    rw [List.map_cons, List.foldl_cons, hd, Option.getD_some,
      readDigits_digit (digitValue?_plain hlt) hlt]
    exact ih h.2 true _ (.inl rfl)

theorem mem_of_readMagnitude {cs : List Char} {n : Nat} (h : readMagnitude 10 cs = some n) :
    ∀ c ∈ cs, c = '_' ∨ c.isDigit = true := by
  rw [readMagnitude_ten] at h
  exact mem_of_readDigits h

variable {s : String}

/-- All that is not padding is a sign, an underscore or a digit. -/
theorem mem_of_readInt? {i : Int} (h : readInt? 10 s = some i) {c : Char}
    (hc : c ∈ trimPadding s.toList) :
    c ∈ ['-', '+', '_'] ∨ (decimalDigit? c).isSome = true := by
  refine decimalDigit?_of_mem_plainDigits ?_ hc
  unfold readInt? at h
  split at h
  · rename_i rest hcs
    obtain ⟨n, hn, -⟩ := Option.map_eq_some_iff.mp h
    rw [hcs, List.forall_mem_cons]
    exact ⟨by simp, fun d hd => (mem_of_readMagnitude hn d hd).imp_left fun heq => by simp [heq]⟩
  · rename_i rest hcs
    obtain ⟨n, hn, -⟩ := Option.map_eq_some_iff.mp h
    rw [hcs, List.forall_mem_cons]
    exact ⟨by simp, fun d hd => (mem_of_readMagnitude hn d hd).imp_left fun heq => by simp [heq]⟩
  · obtain ⟨n, hn, -⟩ := Option.map_eq_some_iff.mp h
    exact fun d hd => (mem_of_readMagnitude hn d hd).imp_left fun heq => by simp [heq]

theorem plainDigits_minus (cs : List Char) : plainDigits ('-' :: cs) = '-' :: plainDigits cs := rfl

/-- One sign is enough. -/
theorem readInt?_two_signs {cs : List Char} (h : trimPadding s.toList = '-' :: '-' :: cs) :
    readInt? 10 s = none := by
  have hread : readMagnitude 10 (plainDigits ('-' :: cs)) = none := by
    refine Option.eq_none_iff_forall_ne_some.mpr fun n hn => ?_
    simpa using mem_of_readMagnitude hn '-' (by simp [plainDigits_minus])
  rw [readInt?, h, plainDigits_minus]
  exact Option.map_eq_none_iff.mpr hread

theorem readMagnitude_plain {cs : List Char} (h : ∀ c ∈ cs, (decimalDigit? c).isSome = true)
    (hne : cs ≠ []) :
    readMagnitude 10 (plainDigits cs) = some (decimalValue cs) := by
  rw [readMagnitude_ten]
  exact readDigits_plain h false 0 (.inr hne)

theorem readInt?_digits {cs : List Char} (h : ∀ c ∈ cs, (decimalDigit? c).isSome = true)
    (hne : cs ≠ []) (htrim : trimPadding s.toList = cs) :
    readInt? 10 s = some (decimalValue cs : Int) := by
  have hread := readMagnitude_plain h hne
  rw [readInt?, htrim]
  split
  · rename_i rest hcs
    rw [hcs] at hread
    simpa using mem_of_readMagnitude hread '-' (by simp)
  · rename_i rest hcs
    rw [hcs] at hread
    simpa using mem_of_readMagnitude hread '+' (by simp)
  · exact Option.map_eq_some_iff.mpr ⟨_, hread, rfl⟩

theorem readInt?_minus {cs : List Char} (h : ∀ c ∈ cs, (decimalDigit? c).isSome = true)
    (hne : cs ≠ []) (htrim : trimPadding s.toList = '-' :: cs) :
    readInt? 10 s = some (-decimalValue cs : Int) := by
  rw [readInt?, htrim, plainDigits_minus]
  exact Option.map_eq_some_iff.mpr ⟨_, readMagnitude_plain h hne, rfl⟩

theorem mem_trimPadding {cs : List Char} {c : Char} (hc : c ∈ cs) (h : isPadding c = false) :
    c ∈ trimPadding cs := by
  have hkeep {l : List Char} (hl : c ∈ l) : c ∈ l.dropWhile isPadding := by
    rw [← List.takeWhile_append_dropWhile (p := isPadding) (l := l), List.mem_append] at hl
    refine hl.resolve_left fun htake => ?_
    rw [List.mem_takeWhile_imp htake] at h
    cases h
  exact List.mem_reverse.mpr (hkeep (List.mem_reverse.mpr (hkeep hc)))

end EffectTree.Number
