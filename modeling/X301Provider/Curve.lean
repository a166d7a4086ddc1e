import Mathlib.NumberTheory.LegendreSymbol.Basic
import X301Provider.Library.EdwardsExtended
import X301Provider.Parameters

/-!
# The ED301-v1 curve

The Edwards curve with `a = 45677 ^ 2` and nonsquare `d = 301`, its base point of
exact order `L`, and the Montgomery form on which the ladder runs.
-/

namespace X301Provider

open EdwardsCurve

theorem natCast_ne_zero {n : ℕ} (h : P.Coprime n) : (n : Fp) ≠ 0 :=
  MontgomeryCurve.natCast_ne_zero_of_coprime h

theorem natCast_eq {m n : ℕ} (h : m % P = n % P) : (m : Fp) = n :=
  (ZMod.natCast_eq_natCast_iff' m n P).mpr h

def basepointX : ℕ :=
  0x3aee68393be0acb6161a27835cdbb15e84b52add4942cad7bf841f3f76e2adfb00c03d1f

def basepointY : ℕ :=
  0x1888d3028aa8c8f26c9e4173225567ac249292b147f3d7f76f6dcf3fe83c65800c5a753ff76b

theorem curve_units : P.Coprime edwardsD ∧ P.Coprime (P - 2) ∧ P.Coprime edwardsA ∧
    P.Coprime 2 ∧ P.Coprime (edwardsA - edwardsD) ∧ P.Coprime baseU ∧ P.Coprime basepointX := by
  decide +kernel

theorem curve_congruences : 45677 ^ 2 % P = edwardsA % P ∧
    (edwardsA * basepointX ^ 2 + basepointY ^ 2) % P =
      (1 + edwardsD * basepointX ^ 2 * basepointY ^ 2) % P ∧
    baseU % P = (1 + basepointY + baseU * basepointY) % P ∧
    P / 2 < 2 ^ 300 ∧ Primality.powMod P edwardsD 300 (P / 2) = (P - 1) % P ∧
    P - 1 = P - 2 + 1 := by
  decide +kernel

theorem edwardsD_nonsquare : ¬IsSquare (edwardsD : Fp) := by
  have hPow : ((edwardsD ^ (P / 2) : ℕ) : Fp) = ((P - 1 : ℕ) : Fp) := by
    apply natCast_eq
    rw [← Primality.powMod_eq P edwardsD curve_congruences.2.2.2.1]
    exact curve_congruences.2.2.2.2.1
  have hD : (edwardsD : Fp) ≠ 0 := natCast_ne_zero curve_units.1
  intro hSquare
  have hOne := (ZMod.euler_criterion P hD).mp hSquare
  rw [← Nat.cast_pow, hPow] at hOne
  have hTwo : ((P - 2 : ℕ) : Fp) = 0 := by
    have hSplit : P - 1 = P - 2 + 1 := curve_congruences.2.2.2.2.2
    rw [hSplit, Nat.cast_add, Nat.cast_one] at hOne
    linear_combination hOne
  exact natCast_ne_zero curve_units.2.1 hTwo

def E : EdwardsCurve Fp where
  a := edwardsA
  d := edwardsD
  rootA := 45677
  rootA_sq := by
    have hCast : ((45677 ^ 2 : ℕ) : Fp) = (edwardsA : ℕ) := natCast_eq curve_congruences.1
    exact_mod_cast hCast
  a_ne_zero := natCast_ne_zero curve_units.2.2.1
  d_nonsquare := edwardsD_nonsquare
  two_ne_zero := by
    have hTwo : ((2 : ℕ) : Fp) ≠ 0 := natCast_ne_zero curve_units.2.2.2.1
    exact_mod_cast hTwo

theorem E_a : E.a = (edwardsA : ℕ) := rfl

theorem E_d : E.d = (edwardsD : ℕ) := rfl

theorem basepoint_onCurve : E.OnCurve (basepointX : Fp) (basepointY : Fp) := by
  have hCast : ((edwardsA * basepointX ^ 2 + basepointY ^ 2 : ℕ) : Fp) =
      ((1 + edwardsD * basepointX ^ 2 * basepointY ^ 2 : ℕ) : Fp) :=
    natCast_eq curve_congruences.2.1
  push_cast at hCast
  exact hCast

def B : E.Point := ⟨basepointX, basepointY, basepoint_onCurve⟩

/-- Numerator and denominator of `(A - 2) / 4`, the doubling constant of the Montgomery form. -/
theorem montgomery_a24 :
    4 * (edwardsD : Fp) = ((edwardsA - edwardsD : ℕ) : Fp) * (E.montgomery.A - 2) := by
  have hA := E.montgomery_A_mul
  have hLe : edwardsD ≤ edwardsA := by decide
  rw [E_a, E_d] at hA
  rw [Nat.cast_sub hLe]
  linear_combination -hA

theorem a24Denominator_ne_zero : ((edwardsA - edwardsD : ℕ) : Fp) ≠ 0 :=
  natCast_ne_zero curve_units.2.2.2.2.1

theorem baseU_ne_zero : (baseU : Fp) ≠ 0 := natCast_ne_zero curve_units.2.2.2.2.2.1

theorem basepointX_ne_zero : (basepointX : Fp) ≠ 0 :=
  natCast_ne_zero curve_units.2.2.2.2.2.2

theorem baseU_mul : (baseU : Fp) * (1 - (basepointY : Fp)) = 1 + (basepointY : Fp) := by
  have hCast : ((baseU : ℕ) : Fp) = ((1 + basepointY + baseU * basepointY : ℕ) : Fp) :=
    natCast_eq curve_congruences.2.2.1
  push_cast at hCast
  linear_combination hCast

theorem basepoint_ne_zero : B ≠ 0 := by
  intro h
  have hx : (basepointX : Fp) = 0 := congrArg Point.x h
  exact basepointX_ne_zero hx

theorem toMontgomery_basepoint : ∃ v h, toMontgomery B = .affine (baseU : Fp) v h := by
  have hv := div_mul_cancel₀ (baseU : Fp) basepointX_ne_zero
  exact ⟨_, montgomery_onCurve B.onCurve basepointX_ne_zero baseU_mul hv,
    toMontgomery_eq _ baseU_mul hv⟩

theorem L_nsmul_basepoint : L • B = 0 := by
  obtain ⟨v, h, hEq⟩ := toMontgomery_basepoint
  apply toMontgomery_injective
  rw [toMontgomery_nsmul, toMontgomery_zero, hEq]
  exact MontgomeryCurve.nsmul_eq_zero_of_kills prime_P.pos dvd_rfl
    a24Denominator_ne_zero montgomery_a24 baseU_ne_zero h kills_baseU

theorem addOrderOf_basepoint : addOrderOf B = L :=
  addOrderOf_eq_prime L_nsmul_basepoint basepoint_ne_zero

theorem nsmul_basepoint_eq_iff (m n : ℕ) : m • B = n • B ↔ m ≡ n [MOD L] := by
  rw [← addOrderOf_basepoint]
  exact nsmul_eq_nsmul_iff_modEq

theorem nsmul_basepoint_eq_zero_iff (n : ℕ) : n • B = 0 ↔ L ∣ n := by
  rw [← addOrderOf_basepoint]
  exact addOrderOf_dvd_iff_nsmul_eq_zero.symm

end X301Provider
