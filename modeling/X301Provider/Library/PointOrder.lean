import Mathlib.GroupTheory.OrderOfElement
import Mathlib.Algebra.Field.ZMod
import Mathlib.Data.Nat.Size
import Mathlib.SetTheory.Cardinal.Finite
import X301Provider.Library.LadderRun

/-!
# Orders of points by a ladder over the integers

A ladder on natural numbers modulo `N` is a ladder modulo every prime divisor of
`N`. When it ends with denominator zero the scalar kills the base point; a point
of large prime order then bounds the field from below, which proves primality.
-/

namespace MontgomeryCurve

open Registers

namespace Registers

/-- One ladder round on residues; `(N - 1) * x` stands for `-x`. -/
def natRound (N c n u : ℕ) (s : Registers ℕ) : Registers ℕ :=
  let aa := (s.x₂ + s.z₂) ^ 2 % N
  let bb := (s.x₂ + (N - 1) * s.z₂) ^ 2 % N
  let e := (aa + (N - 1) * bb) % N
  let da := (s.x₃ + (N - 1) * s.z₃) * (s.x₂ + s.z₂) % N
  let cb := (s.x₃ + s.z₃) * (s.x₂ + (N - 1) * s.z₂) % N
  ⟨c * aa * bb % N, e * (c * aa + n * e) % N, (da + cb) ^ 2 % N,
    u * (da + (N - 1) * cb) ^ 2 % N⟩

def natStep (N c n u : ℕ) (s : Registers ℕ × Bool) (bit : Bool) : Registers ℕ × Bool :=
  ((s.1.conditionalSwap (s.2 ^^ bit)).natRound N c n u, bit)

def natRun (N c n u : ℕ) (bits : List Bool) (s : Registers ℕ × Bool) : Registers ℕ × Bool :=
  bits.foldl (natStep N c n u) s

/-- The residues of the registers in a ring. -/
def cast (R : Type*) [NatCast R] (s : Registers ℕ) : Registers R :=
  ⟨s.x₂, s.z₂, s.x₃, s.z₃⟩

theorem cast_conditionalSwap (R : Type*) [NatCast R] (s : Registers ℕ) (choice : Bool) :
    (s.conditionalSwap choice).cast R = (s.cast R).conditionalSwap choice := by
  cases choice <;> rfl

variable {N r : ℕ}

theorem natCast_mod (hr : r ∣ N) (x : ℕ) : ((x % N : ℕ) : ZMod r) = x :=
  (ZMod.natCast_eq_natCast_iff _ _ _).mpr ((Nat.mod_modEq x N).of_dvd hr)

theorem natCast_pred (hN : 0 < N) (hr : r ∣ N) : ((N - 1 : ℕ) : ZMod r) = -1 := by
  rw [Nat.cast_sub hN, (ZMod.natCast_eq_zero_iff N r).mpr hr, Nat.cast_one, zero_sub]

variable [Fact r.Prime]

theorem cast_natRound (hN : 0 < N) (hr : r ∣ N) (c n u : ℕ) (s : Registers ℕ) :
    (s.natRound N c n u).cast (ZMod r) = (s.cast (ZMod r)).round (c : ZMod r) n u := by
  ext <;>
  · simp only [natRound, Registers.round, double, differentialAdd, cast, natCast_mod hr,
      natCast_pred hN hr, Nat.cast_mul, Nat.cast_add, Nat.cast_pow]
    ring

theorem cast_natRun (hN : 0 < N) (hr : r ∣ N) (c n u : ℕ) (bits : List Bool)
    (s : Registers ℕ × Bool) :
    ((natRun N c n u bits s).1.cast (ZMod r), (natRun N c n u bits s).2) =
      run (c : ZMod r) n u bits (s.1.cast (ZMod r), s.2) := by
  induction bits generalizing s with
  | nil => rfl
  | cons bit bits ih =>
    have hStep : ((natStep N c n u s bit).1.cast (ZMod r), (natStep N c n u s bit).2) =
        step (c : ZMod r) n u (s.1.cast (ZMod r), s.2) bit := by
      simp only [natStep, step, cast_natRound hN hr, cast_conditionalSwap]
    calc _ = run (c : ZMod r) n u bits
          ((natStep N c n u s bit).1.cast (ZMod r), (natStep N c n u s bit).2) := ih _
      _ = _ := by rw [hStep]; rfl

end Registers

/-- The plain ladder on residues from `(1 : 0)` and `(u : 1)` ends with denominator zero. -/
def Kills (N c n u k : ℕ) : Prop :=
  (settle (natRun N c n u (digitsDown k.testBit k.size) (⟨1, 0, u, 1⟩, false))).z₂ = 0

instance (N c n u k : ℕ) : Decidable (Kills N c n u k) :=
  inferInstanceAs (Decidable (_ = 0))

section Order

variable {F : Type*} [Field F] {M : MontgomeryCurve F}

open Classical in
/-- An affine point is known by `u` and by whether `v` is the preferred root. -/
noncomputable def code : M.Point → Option F × Bool
  | .infinity => (none, false)
  | .affine u v h => (some u, decide (v = Classical.choose (⟨v, h⟩ : ∃ w, M.OnCurve u w)))

theorem code_injective : Function.Injective (code (M := M)) := by
  classical
  intro P Q hEq
  cases P with
  | infinity =>
    cases Q with
    | infinity => rfl
    | affine u v h => simp [code] at hEq
  | affine u v h =>
    cases Q with
    | infinity => simp [code] at hEq
    | affine u' v' h' =>
      simp only [code, Prod.mk.injEq, Option.some.injEq] at hEq
      obtain ⟨rfl, hRoot⟩ := hEq
      have hChosen := Classical.choose_spec (⟨v, h⟩ : ∃ w, M.OnCurve u w)
      set w := Classical.choose (⟨v, h⟩ : ∃ w, M.OnCurve u w)
      rw [decide_eq_decide] at hRoot
      have hv : v = v' := by
        by_cases hvw : v = w
        · rw [hvw, hRoot.mp hvw]
        · have hNeg := (v_eq_or_eq_neg h hChosen).resolve_left hvw
          have hNeg' := (v_eq_or_eq_neg h' hChosen).resolve_left (mt hRoot.mpr hvw)
          rw [hNeg, hNeg']
      subst hv
      rfl

instance [Finite F] : Finite M.Point :=
  Finite.of_injective code code_injective

theorem natCard_point_le [Finite F] : Nat.card M.Point ≤ 2 * (Nat.card F + 1) := by
  have hCard : Nat.card (Option F × Bool) = (Nat.card F + 1) * 2 := by
    simp [Nat.card_prod, Finite.card_option]
  rw [mul_comm, ← hCard]
  exact Nat.card_le_card_of_injective code code_injective

variable [DecidableEq F]

theorem prime_le_of_nsmul_eq_zero [Finite F] {k : ℕ} (hk : k.Prime) {D : M.Point} (hD : D ≠ 0)
    (h : k • D = 0) : k ≤ 2 * (Nat.card F + 1) := by
  have : Fact k.Prime := ⟨hk⟩
  calc k = addOrderOf D := (addOrderOf_eq_prime h hD).symm
    _ ≤ Nat.card M.Point := addOrderOf_le_card
    _ ≤ 2 * (Nat.card F + 1) := natCard_point_le

end Order

variable {N r : ℕ} [Fact r.Prime]

/-- The integer ladder computes a multiple on every Montgomery curve modulo `r`. -/
theorem nsmul_eq_zero_of_kills {c n u k : ℕ} {M : MontgomeryCurve (ZMod r)} {v : ZMod r}
    (hN : 0 < N) (hr : r ∣ N) (hc : (c : ZMod r) ≠ 0)
    (hn : 4 * (n : ZMod r) = c * (M.A - 2)) (hu : (u : ZMod r) ≠ 0)
    (hBase : M.OnCurve (u : ZMod r) v) (h : Kills N c n u k) : k • Point.affine _ v hBase = 0 := by
  have hStart : Tracks M (.affine _ v hBase) 0 (settle (⟨1, 0, u, 1⟩, false)) := tracks_start
  have hRun := hStart.run hc hn hu (digitsDown k.testBit k.size)
  have hk : appendBits 0 (digitsDown k.testBit k.size) = k := by
    rw [appendBits_digitsDown, Nat.mod_eq_of_lt k.lt_size_self, zero_mul, zero_add]
  have hCast := cast_natRun hN hr c n u (digitsDown k.testBit k.size) (⟨1, 0, u, 1⟩, false)
  have hResidues : (⟨1, 0, u, 1⟩ : Registers ℕ).cast (ZMod r) = ⟨1, 0, u, 1⟩ := by
    simp [Registers.cast]
  rw [hResidues] at hCast
  rw [hk, ← hCast, settle, ← cast_conditionalSwap] at hRun
  refine hRun.low.z_eq_zero_iff.mp ?_
  have hZero : (settle (natRun N c n u (digitsDown k.testBit k.size)
    (⟨1, 0, u, 1⟩, false))).z₂ = 0 := h
  unfold settle at hZero
  simp only [Registers.cast, hZero, Nat.cast_zero]

theorem natCast_ne_zero_of_coprime {m : ℕ} (h : r.Coprime m) : (m : ZMod r) ≠ 0 := by
  rw [Ne, ZMod.natCast_eq_zero_iff]
  exact (Nat.Prime.coprime_iff_not_dvd Fact.out).mp h

-- Named instances keep the numerals of the coefficients from elaborating to fresh proofs.
local instance numeral_two : Nat.AtLeastTwo 2 := ⟨le_rfl⟩
local instance numeral_four : Nat.AtLeastTwo 4 := ⟨by decide⟩

section Through

variable {c n u : ℕ} (h : r.Coprime (2 * c * n * (c + n)))
include h

theorem through_two_ne_zero : (2 : ZMod r) ≠ 0 := by
  have hFactors := natCast_ne_zero_of_coprime h
  push_cast at hFactors
  exact fun hZero => hFactors (by rw [hZero]; ring)

theorem through_c_ne_zero : (c : ZMod r) ≠ 0 := by
  have hFactors := natCast_ne_zero_of_coprime h
  push_cast at hFactors
  exact fun hZero => hFactors (by rw [hZero]; ring)

theorem through_B_ne_zero (hw : r.Coprime (c * (u ^ 3 + 2 * u ^ 2 + u) + 4 * n * u ^ 2)) :
    (u : ZMod r) ^ 3 + (2 + 4 * n / c) * u ^ 2 + u ≠ 0 := by
  have hCast := natCast_ne_zero_of_coprime hw
  push_cast at hCast
  have hc := through_c_ne_zero h
  intro hZero
  apply hCast
  field_simp at hZero
  linear_combination hZero

theorem through_discriminant_ne_zero : (2 + 4 * n / c : ZMod r) ^ 2 - 4 ≠ 0 := by
  have hFactors := natCast_ne_zero_of_coprime h
  push_cast at hFactors
  have hc := through_c_ne_zero h
  intro hZero
  field_simp at hZero
  have hSixteen : (2 * (c : ZMod r) * n * (c + n)) ^ 4 = 0 := by
    linear_combination (c : ZMod r) ^ 4 * n ^ 3 * (c + n) ^ 3 * hZero
  exact hFactors ((pow_eq_zero_iff (by decide)).mp hSixteen)

end Through

/-- The curve through `(u, 1)` whose doubling constant is `n / c`. -/
def curveThrough {c n u : ℕ} (h : r.Coprime (2 * c * n * (c + n)))
    (hw : r.Coprime (c * (u ^ 3 + 2 * u ^ 2 + u) + 4 * n * u ^ 2)) : MontgomeryCurve (ZMod r) where
  A := 2 + 4 * n / c
  B := u ^ 3 + (2 + 4 * n / c) * u ^ 2 + u
  B_ne_zero := through_B_ne_zero h hw
  discriminant_ne_zero := through_discriminant_ne_zero h
  two_ne_zero := through_two_ne_zero h

/-- A number is prime when a ladder modulo it kills a base point at a prime larger than the
point count allows for any divisor below its square root. -/
theorem prime_of_kills {c n u k : ℕ} (hN : 1 < N) (hk : k.Prime)
    (hFactors : N.Coprime (2 * c * n * (c + n))) (hu : N.Coprime u)
    (hw : N.Coprime (c * (u ^ 3 + 2 * u ^ 2 + u) + 4 * n * u ^ 2))
    (h : Kills N c n u k) (hLarge : 4 * N < (k - 2) ^ 2) : N.Prime := by
  by_contra hNot
  have hMin := Nat.minFac_prime hN.ne'
  have hDvd := Nat.minFac_dvd N
  have : Fact N.minFac.Prime := ⟨hMin⟩
  let M := curveThrough (hFactors.coprime_dvd_left hDvd) (hw.coprime_dvd_left hDvd)
  have hc := through_c_ne_zero (hFactors.coprime_dvd_left hDvd)
  have hBase : M.OnCurve (u : ZMod N.minFac) 1 := by
    simp only [M, OnCurve, curveThrough]
    ring
  have hn : 4 * (n : ZMod N.minFac) = c * (M.A - 2) := by
    simp only [M, curveThrough]
    field_simp
    ring
  have hKilled := nsmul_eq_zero_of_kills (hN.trans' Nat.zero_lt_one) hDvd hc hn
    (natCast_ne_zero_of_coprime (hu.coprime_dvd_left hDvd)) hBase h
  have hBound := prime_le_of_nsmul_eq_zero hk (affine_ne_zero hBase) hKilled
  rw [Nat.card_zmod] at hBound
  have hSq := Nat.minFac_sq_le_self (hN.trans' Nat.zero_lt_one) hNot
  have hSub : k - 2 ≤ 2 * N.minFac := by omega
  have hPow := Nat.pow_le_pow_left hSub 2
  rw [mul_pow] at hPow
  omega

end MontgomeryCurve
