import Mathlib
import EffectTree.Value.Basic

/-!
# Equality of numbers

A number is exactly a rational or an infinity. Numbers are equal if they are exactly the same,
integers and doubles alike: no double is a rational in two ways, but zero with two signs.
-/
namespace EffectTree.Number

/-- What a number is, exactly. -/
inductive Exact where
  | finite (value : ℚ)
  | infinite (negative : Bool)
  deriving DecidableEq

namespace Binary64

def signed (negative : Bool) (mantissa : Nat) : Int := if negative then -mantissa else mantissa

/-- What a double is exactly, unless it is not a number. -/
def exactValue? : Binary64 → Option Exact
  | .nan => none
  | .infinite negative => some (.infinite negative)
  | .finite negative mantissa exponent => some (.finite (signed negative mantissa * 2 ^ exponent))

def signField (x : Float) : Bool := decide (2 ^ 63 ≤ x.toBits.toNat)

def exponentField (x : Float) : Nat := x.toBits.toNat / 2 ^ 52 % 2 ^ 11

def fractionField (x : Float) : Nat := x.toBits.toNat % 2 ^ 52

/-- What the fields of a double stand for. -/
inductive Stands (x : Float) : Binary64 → Prop
  | nan (hexponent : exponentField x = 2047) (hfraction : fractionField x ≠ 0) : Stands x .nan
  | infinite (hexponent : exponentField x = 2047) (hfraction : fractionField x = 0) :
      Stands x (.infinite (signField x))
  | subnormal (hexponent : exponentField x = 0) :
      Stands x (.finite (signField x) (fractionField x) (-1074))
  | normal (hzero : exponentField x ≠ 0) (hlast : exponentField x ≠ 2047) :
      Stands x (.finite (signField x) (fractionField x + 2 ^ 52) (exponentField x - 1075))

variable {x y : Float}

theorem ofFloat_stands (x : Float) : Stands x (ofFloat x) := by
  by_cases hlast : exponentField x = 2047
  · by_cases hfraction : fractionField x = 0
    · have heq : ofFloat x = .infinite (signField x) := by
        rw [ofFloat]
        exact (if_pos hlast).trans (if_pos hfraction)
      exact heq ▸ .infinite hlast hfraction
    · have heq : ofFloat x = .nan := by
        rw [ofFloat]
        exact (if_pos hlast).trans (if_neg hfraction)
      exact heq ▸ .nan hlast hfraction
  · by_cases hzero : exponentField x = 0
    · have heq : ofFloat x = .finite (signField x) (fractionField x) (-1074) := by
        rw [ofFloat]
        exact (if_neg hlast).trans (if_pos hzero)
      exact heq ▸ .subnormal hzero
    · have heq : ofFloat x = .finite (signField x) (fractionField x + 2 ^ 52)
          (exponentField x - 1075) := by
        rw [ofFloat]
        exact (if_neg hlast).trans (if_neg hzero)
      exact heq ▸ .normal hzero hlast

theorem eq_of_fields (hsign : signField x = signField y)
    (hexponent : exponentField x = exponentField y)
    (hfraction : fractionField x = fractionField y) : x = y := by
  have hx := x.toBits.toNat_lt
  have hy := y.toBits.toNat_lt
  refine Float.toBits_inj.mp (UInt64.toNat_inj.mp ?_)
  simp only [signField, exponentField, fractionField, decide_eq_decide] at hsign hexponent hfraction
  omega

/-- Mantissas have 53 bits unless the exponent is the least one. -/
structure Canonical (mantissa : Nat) (exponent : Int) : Prop where
  lt : mantissa < 2 ^ 53
  least_le : -1074 ≤ exponent
  normal : exponent ≠ -1074 → 2 ^ 52 ≤ mantissa

theorem fractionField_lt (x : Float) : fractionField x < 2 ^ 52 := Nat.mod_lt _ (by decide)

variable {negative negative' : Bool} {mantissa mantissa' : Nat} {exponent exponent' : Int}

theorem Stands.canonical (h : Stands x (.finite negative mantissa exponent)) :
    Canonical mantissa exponent := by
  have hfraction := fractionField_lt x
  cases h with
  | subnormal => exact ⟨by omega, by omega, by omega⟩
  | normal => exact ⟨by omega, by omega, by omega⟩

theorem Stands.injective {b b' : Binary64} (hx : Stands x b) (hy : Stands y b') (hb : b ≠ .nan)
    (h : b = b') :
    x = y := by
  have hxlt := fractionField_lt x
  have hylt := fractionField_lt y
  cases hx with
  | nan => exact absurd rfl hb
  | infinite hexponent hfraction =>
    cases hy with
    | infinite hexponent' hfraction' =>
      injection h with hsign
      exact eq_of_fields hsign (hexponent.trans hexponent'.symm) (hfraction.trans hfraction'.symm)
    | _ => cases h
  | subnormal hexponent =>
    cases hy with
    | subnormal hexponent' =>
      injection h with hsign hfraction
      exact eq_of_fields hsign (hexponent.trans hexponent'.symm) hfraction
    | normal =>
      injection h with hsign hfraction
      omega
    | _ => cases h
  | normal =>
    cases hy with
    | subnormal =>
      injection h with hsign hfraction
      omega
    | normal =>
      injection h with hsign hfraction hexponent
      exact eq_of_fields hsign (by omega) (by omega)
    | _ => cases h

theorem ofFloat_injective (hx : ofFloat x ≠ .nan) (h : ofFloat x = ofFloat y) : x = y :=
  (ofFloat_stands x).injective (ofFloat_stands y) hx h

theorem ofFloat_eq_nan_iff : ofFloat x = .nan ↔ x = Float.nan := by
  constructor
  · intro h
    have hstands := ofFloat_stands x
    rw [h] at hstands
    cases hstands with
    | nan hexponent hfraction =>
      refine Float.toBits_inj.mp
        (UInt64.toBitVec_inj.mp (x.toModel.valid.eq_packedNaN ?_ fun hzero => hfraction ?_))
      · rw [Float.Model.UnpackedFloat.unpackExponent_def]
        refine BitVec.eq_of_toNat_eq ?_
        rw [BitVec.extractLsb'_toNat, Nat.shiftRight_eq_div_pow]
        exact hexponent
      · rw [Float.Model.UnpackedFloat.unpackMantissa_def] at hzero
        have hnat := congrArg BitVec.toNat hzero
        rw [BitVec.extractLsb'_toNat, Nat.shiftRight_zero] at hnat
        exact hnat
  · rintro rfl
    rfl

theorem natAbs_signed (negative : Bool) (mantissa : Nat) :
    (signed negative mantissa).natAbs = mantissa := by
  unfold signed
  split <;> omega

/-- With the smaller of two exponents a mantissa has to be a multiple of a power of two. -/
theorem eq_mul_of_value_eq {m m' : Int} (hle : exponent ≤ exponent')
    (h : (m : ℚ) * 2 ^ exponent = m' * 2 ^ exponent') :
    m = m' * 2 ^ (exponent' - exponent).toNat := by
  have hpower : (2 : ℚ) ^ exponent' = 2 ^ (exponent' - exponent).toNat * 2 ^ exponent := by
    rw [← zpow_natCast, Int.toNat_of_nonneg (by omega), ← zpow_add₀ two_ne_zero, Int.sub_add_cancel]
  rw [hpower, ← mul_assoc] at h
  have hcancel := mul_right_cancel₀ (zpow_ne_zero _ two_ne_zero) h
  exact_mod_cast hcancel

theorem Canonical.le_of_value_eq (h : Canonical mantissa exponent)
    (h' : Canonical mantissa' exponent')
    (hvalue : (signed negative mantissa : ℚ) * 2 ^ exponent =
      signed negative' mantissa' * 2 ^ exponent') :
    exponent' ≤ exponent := by
  by_contra! hlt
  have hmul := eq_mul_of_value_eq hlt.le hvalue
  have habs : mantissa = mantissa' * 2 ^ (exponent' - exponent).toNat := by
    have hnatAbs := congrArg Int.natAbs hmul
    rwa [Int.natAbs_mul, natAbs_signed, natAbs_signed, Int.natAbs_pow] at hnatAbs
  have hnormal : 2 ^ 52 ≤ mantissa' := h'.normal (by have := h.least_le; omega)
  have htwo : 2 ≤ 2 ^ (exponent' - exponent).toNat := by
    calc 2 = 2 ^ 1 := rfl
      _ ≤ 2 ^ (exponent' - exponent).toNat := Nat.pow_le_pow_right (by decide) (by omega)
  have hbound : 2 ^ 52 * 2 ≤ mantissa := by
    rw [habs]
    exact Nat.mul_le_mul hnormal htwo
  have hlt53 := h.lt
  omega

/-- No double is a rational in two ways, but zero with two signs. -/
theorem Canonical.unique (h : Canonical mantissa exponent) (h' : Canonical mantissa' exponent')
    (hvalue : (signed negative mantissa : ℚ) * 2 ^ exponent =
      signed negative' mantissa' * 2 ^ exponent') :
    mantissa = mantissa' ∧ exponent = exponent' ∧ (mantissa ≠ 0 → negative = negative') := by
  have hexponent : exponent = exponent' :=
    le_antisymm (h'.le_of_value_eq h hvalue.symm) (h.le_of_value_eq h' hvalue)
  subst hexponent
  have hsigned : signed negative mantissa = signed negative' mantissa' := by
    exact_mod_cast mul_right_cancel₀ (zpow_ne_zero _ two_ne_zero) hvalue
  have hmantissa : mantissa = mantissa' := by
    rw [← natAbs_signed negative mantissa, hsigned, natAbs_signed]
  subst hmantissa
  refine ⟨rfl, rfl, fun hne => ?_⟩
  unfold signed at hsigned
  cases negative <;> cases negative' <;> simp_all

theorem exactValue?_ofFloat_eq_none_iff : (ofFloat x).exactValue? = none ↔ x = Float.nan := by
  rw [← ofFloat_eq_nan_iff]
  cases ofFloat x <;> simp [exactValue?]

theorem eq_zero_of_ofFloat (h : ofFloat x = .finite negative 0 (-1074)) :
    x = if negative then -0 else 0 := by
  refine ofFloat_injective (by simp [h]) (h.trans ?_)
  cases negative <;> rfl

theorem exactValue?_eq_of_beq (h : (x == y) = true) :
    (ofFloat x).exactValue? = (ofFloat y).exactValue? := by
  have hpositive : (ofFloat 0).exactValue? = some (.finite 0) := by
    change exactValue? (.finite false 0 (-1074)) = _
    simp [exactValue?, signed]
  have hnegative : (ofFloat (-0)).exactValue? = some (.finite 0) := by
    change exactValue? (.finite true 0 (-1074)) = _
    simp [exactValue?, signed]
  obtain ⟨-, -, rfl | ⟨rfl, rfl⟩ | ⟨rfl, rfl⟩⟩ := Float.beq_iff_ne_nan_and_eq.mp h
  · rfl
  · exact hpositive.trans hnegative.symm
  · exact hnegative.trans hpositive.symm

theorem beq_of_exactValue?_eq (hx : x ≠ Float.nan)
    (h : (ofFloat x).exactValue? = (ofFloat y).exactValue?) :
    (x == y) = true := by
  have hxnan : ofFloat x ≠ .nan := fun hnan => hx (ofFloat_eq_nan_iff.mp hnan)
  have hy : y ≠ Float.nan := by
    rwa [ne_eq, ← exactValue?_ofFloat_eq_none_iff, ← h, exactValue?_ofFloat_eq_none_iff]
  refine Float.beq_iff_ne_nan_and_eq.mpr ⟨hx, hy, ?_⟩
  cases hbx : ofFloat x with
  | nan => exact absurd hbx hxnan
  | infinite negative =>
    cases hby : ofFloat y with
    | infinite negative' =>
      obtain rfl : negative = negative' := by simpa [hbx, hby, exactValue?] using h
      exact .inl (ofFloat_injective hxnan (hbx.trans hby.symm))
    | _ => simp [hbx, hby, exactValue?] at h
  | finite negative mantissa exponent =>
    cases hby : ofFloat y with
    | finite negative' mantissa' exponent' =>
      have hcanonical := (hbx ▸ ofFloat_stands x).canonical
      have hcanonical' := (hby ▸ ofFloat_stands y).canonical
      obtain ⟨rfl, rfl, hsign⟩ :=
        hcanonical.unique hcanonical' (by simpa [hbx, hby, exactValue?] using h)
      by_cases hzero : mantissa = 0
      · subst hzero
        obtain rfl : exponent = -1074 := by
          by_contra hne
          have hnormal := hcanonical.normal hne
          omega
        rw [eq_zero_of_ofFloat hbx, eq_zero_of_ofFloat hby]
        cases negative <;> cases negative' <;> simp
      · obtain rfl := hsign hzero
        exact .inl (ofFloat_injective hxnan (hbx.trans hby.symm))
    | _ => simp [hbx, hby, exactValue?] at h

theorem compare_of_lt (h : x < y) : x.toModel.unpack.compare y.toModel.unpack = some .lt :=
  eq_of_beq (of_decide_eq_true (p := x.toModel < y.toModel) h)

theorem compare_of_beq (h : (x == y) = true) :
    x.toModel.unpack.compare y.toModel.unpack = some .eq := eq_of_beq h

theorem not_lt_of_beq (h : (x == y) = true) : ¬ x < y := by
  intro hlt
  have hcompare := compare_of_lt hlt
  rw [compare_of_beq h] at hcompare
  cases hcompare

theorem compareInt_eq_iff {i : Int} :
    compareInt x i = some .eq ↔ (ofFloat x).exactValue? = some (.finite i) := by
  unfold compareInt
  cases ofFloat x with
  | nan => simp [exactValue?]
  | infinite negative => cases negative <;> simp [exactValue?]
  | finite negative mantissa exponent =>
    change some (if 0 ≤ exponent then compare (signed negative mantissa * twoTo exponent.toNat) i
      else compare (signed negative mantissa) (i * twoTo (-exponent).toNat)) = some .eq ↔ _
    simp only [exactValue?, Option.some.injEq, Exact.finite.injEq, twoTo, Nat.pow_eq, Nat.cast_pow]
    split
    · rename_i hnonneg
      obtain ⟨n, rfl⟩ := Int.eq_ofNat_of_zero_le hnonneg
      rw [compare_eq_iff_eq, Int.toNat_natCast, zpow_natCast]
      norm_cast
    · rename_i hneg
      obtain ⟨n, hn⟩ := Int.eq_ofNat_of_zero_le (show 0 ≤ -exponent by omega)
      obtain rfl : exponent = -n := by omega
      rw [compare_eq_iff_eq, neg_neg, Int.toNat_natCast, zpow_neg, zpow_natCast,
        mul_inv_eq_iff_eq_mul₀ (by positivity)]
      norm_cast

end Binary64

end EffectTree.Number

namespace EffectTree.Value

open Number Binary64

/-- What a real number is exactly, unless it is not a number. -/
def Real.exactValue? : Real → Option Exact
  | .int i => some (.finite i)
  | .float x => (Binary64.ofFloat x).exactValue?

/-- Numbers are equal if they are exactly the same. -/
theorem Real.eqv_iff {a b : Real} (ha : a.exactValue? ≠ none) :
    a.eqv b = true ↔ a.exactValue? = b.exactValue? := by
  rw [Real.eqv, decide_eq_true_eq]
  cases a with
  | int i =>
    cases b with
    | int j => simp [Real.compare, Real.exactValue?]
    | float y =>
      have hswap : Real.compare (.int i) (.float y) = some .eq ↔ compareInt y i = some .eq := by
        cases h : compareInt y i with
        | none => simp [Real.compare, h]
        | some o => cases o <;> simp [Real.compare, h]
      rw [hswap, compareInt_eq_iff]
      exact eq_comm
  | float x =>
    have hx : x ≠ Float.nan := fun hnan => ha (exactValue?_ofFloat_eq_none_iff.mpr hnan)
    cases b with
    | int j => exact compareInt_eq_iff
    | float y =>
      constructor
      · intro h
        have hbeq : (x == y) = true := by
          by_contra hbeq
          by_cases hlt : x < y <;> by_cases hgt : y < x <;> simp [Real.compare, hlt, hgt, hbeq] at h
        exact exactValue?_eq_of_beq hbeq
      · intro h
        have hbeq := beq_of_exactValue?_eq hx h
        have hbeq' : (y == x) = true := BEq.symm hbeq
        simp [Real.compare, not_lt_of_beq hbeq, not_lt_of_beq hbeq', hbeq]

end EffectTree.Value
