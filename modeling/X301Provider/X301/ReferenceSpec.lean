import Mathlib.Data.ZMod.Basic
import X301Provider.X301.LadderSpec
import X301Provider.X301.Reference

/-!
# The reference ladder over the field

Reduced integers stand for field elements, so each reference round is a step of
the field ladder with scale one, and its result is a projective `u`-coordinate
of the multiple by the clamped scalar.
-/

namespace X301Provider.Reference

open Limbs MontgomeryCurve X301

theorem emod_eq {a : ℤ} {v : Fp} (h : (a : Fp) = v) : a % P = (v.val : ℤ) := by
  rw [← h, ZMod.val_intCast]

theorem intCast_val (v : Fp) : ((v.val : ℤ) : Fp) = v := by
  rw [Int.cast_natCast, ZMod.natCast_zmod_val]

theorem val_eq_zero_iff (v : Fp) : (v.val : ℤ) = 0 ↔ v = 0 := by
  rw [Int.natCast_eq_zero, ZMod.val_eq_zero]

theorem cast_powInverse {a : ℤ} (h : (a : Fp) ≠ 0) : (powInverse a : Fp) = (a : Fp)⁻¹ := by
  have hPrime : Prime (P : ℤ) := Nat.prime_iff_prime_int.mp prime_P
  have hNot : ¬(P : ℤ) ∣ a % P := by
    intro hDvd
    have hZero := (ZMod.intCast_zmod_eq_zero_iff_dvd (a % P) P).mpr hDvd
    exact h (by rwa [ZMod.intCast_mod] at hZero)
  have hCoprime : Int.gcd (a % P) P = 1 :=
    Int.isCoprime_iff_gcd_eq_one.mp ((hPrime.coprime_iff_not_dvd.mpr hNot).symm)
  have hBezout := congrArg (Int.cast (R := Fp)) (Int.gcd_eq_gcd_ab (a % P) P)
  rw [hCoprime] at hBezout
  push_cast at hBezout
  rw [ZMod.natCast_self, zero_mul, add_zero] at hBezout
  rw [powInverse, ZMod.intCast_mod]
  exact eq_inv_of_mul_eq_one_right hBezout.symm

theorem inverse_val {v : Fp} (hv : v ≠ 0) :
    ∃ i, inverse v.val = .ok i ∧ (i : Fp) = v⁻¹ := by
  have hReduced : (v.val : ℤ) % P = v.val := emod_eq (intCast_val v)
  have hCast := @cast_powInverse v.val (by rwa [intCast_val])
  rw [intCast_val] at hCast
  refine ⟨powInverse v.val, ?_, hCast⟩
  rw [inverse, hReduced, if_neg fun hZero => hv ((val_eq_zero_iff v).mp hZero)]

theorem cast_montgomeryA : (montgomeryA : Fp) = E.montgomery.A := by
  have hDenominator : ((edwardsA - edwardsD : ℤ) : Fp) = E.a - E.d := by
    rw [E_a, E_d, Int.cast_sub, Int.cast_natCast, Int.cast_natCast]
  have hInverse := @cast_powInverse (edwardsA - edwardsD) (by
    rw [hDenominator]
    exact E.a_sub_d_ne_zero)
  rw [hDenominator] at hInverse
  have hA : E.montgomery.A = 2 * (E.a + E.d) / (E.a - E.d) := rfl
  rw [montgomeryA, ZMod.intCast_mod, Int.cast_mul, hInverse, hA, div_eq_mul_inv, E_a, E_d,
    Int.cast_mul, Int.cast_add, Int.cast_natCast, Int.cast_natCast, Int.cast_ofNat]

theorem cast_a24Minus {M : MontgomeryCurve Fp} (hA : M.A = E.montgomery.A) :
    4 * (a24Minus : Fp) = 1 * (M.A - 2) := by
  have hFour : ((4 : ℤ) : Fp) ≠ 0 := by exact_mod_cast M.four_ne_zero'
  rw [a24Minus, ZMod.intCast_mod, Int.cast_mul, Int.cast_sub, cast_powInverse hFour,
    cast_montgomeryA, hA]
  push_cast at hFour ⊢
  field_simp

/-- The integers of a ladder state are the residues of field registers. -/
structure LadderState.Denotes (s : LadderState) (r : Registers Fp × Bool) : Prop where
  x2 : s.x2 = r.1.x₂.val
  z2 : s.z2 = r.1.z₂.val
  x3 : s.x3 = r.1.x₃.val
  z3 : s.z3 = r.1.z₃.val
  swap : s.swap = r.2

theorem LadderState.Denotes.round {s : LadderState} {r : Registers Fp × Bool}
    (h : s.Denotes r) (scalar : ℕ) (u : Fp) (i : ℕ) :
    (ladderRound scalar u.val s i).Denotes
      (Registers.step 1 a24Minus u r (scalar.testBit i)) := by
  obtain ⟨⟨x₂, z₂, x₃, z₃⟩, swap⟩ := r
  obtain ⟨hx2, hz2, hx3, hz3, hSwap⟩ := h
  simp only [ladderRound, Registers.step, hx2, hz2, hx3, hz3, hSwap]
  cases swap ^^ scalar.testBit i
  all_goals
    refine ⟨emod_eq ?_, emod_eq ?_, emod_eq ?_, emod_eq ?_, rfl⟩ <;>
    simp only [Registers.round, double, differentialAdd, Registers.conditionalSwap,
      Bool.false_eq_true, if_false, if_true, Int.cast_mul, Int.cast_add, Int.cast_sub,
      Int.cast_pow, ZMod.intCast_mod, intCast_val] <;>
    ring

theorem LadderState.Denotes.run {s : LadderState} {r : Registers Fp × Bool}
    (h : s.Denotes r) (scalar : ℕ) (u : Fp) (indices : List ℕ) :
    (indices.foldl (ladderRound scalar u.val) s).Denotes
      (Registers.run 1 a24Minus u (indices.map scalar.testBit) r) := by
  induction indices generalizing s r with
  | nil => exact h
  | cons i indices ih =>
    have hRest := ih (h.round scalar u i)
    rw [List.foldl_cons, List.map_cons, Registers.run, List.foldl_cons]
    exact hRest

def finalRegisters (scalar : ℕ) (u : Fp) : Registers Fp :=
  Registers.settle (Registers.run 1 a24Minus u (digitsDown scalar.testBit 301)
    (⟨1, 0, u, 1⟩, false))

theorem montgomeryLadder_eq (scalar : ℕ) (u : Fp) :
    montgomeryLadder scalar u.val =
      (((finalRegisters scalar u).x₂.val : ℤ), ((finalRegisters scalar u).z₂.val : ℤ)) := by
  have hStart : LadderState.Denotes ⟨1, 0, u.val, 1, false⟩ (⟨1, 0, u, 1⟩, false) := by
    constructor <;> simp [ZMod.val_one]
  have hRun := hStart.run scalar u (List.range 301).reverse
  rw [finalRegisters, digitsDown, montgomeryLadder, Registers.settle]
  rw [hRun.swap, hRun.x2, hRun.x3, hRun.z2, hRun.z3]
  cases (Registers.run 1 (a24Minus : Fp) u _ _).2 with
  | false => rfl
  | true => rfl

theorem finalRegisters_represents {M : MontgomeryCurve Fp} (hA : M.A = E.montgomery.A)
    {u v : Fp} (hCurve : M.OnCurve u v) (hu : u ≠ 0) {k : ℕ} (hk : k < 2 ^ 301) :
    M.Represents (finalRegisters k u).x₂ (finalRegisters k u).z₂ (k • .affine u v hCurve) := by
  have hStart : Tracks M (.affine u v hCurve) 0 (Registers.settle (⟨1, 0, u, 1⟩, false)) :=
    tracks_start
  have hRun := (hStart.run one_ne_zero (cast_a24Minus hA) hu (digitsDown k.testBit 301)).low
  have hAll : appendBits 0 (digitsDown k.testBit 301) = k := by
    rw [appendBits_digitsDown, zero_mul, zero_add]
    exact Nat.mod_eq_of_lt hk
  rwa [hAll] at hRun

theorem finalRegisters_zero (k : ℕ) :
    (finalRegisters k 0).x₂ / (finalRegisters k 0).z₂ = 0 := by
  have hStart : @Degenerate Fp _ ⟨1, 0, 0, 1⟩ := ⟨mul_zero 1, zero_mul 1⟩
  have hRun := @Degenerate.run Fp _ 1 a24Minus (digitsDown k.testBit 301) (_, false) hStart
  have hProduct := (hRun.conditionalSwap (Registers.run 1 (a24Minus : Fp) 0
    (digitsDown k.testBit 301) (⟨1, 0, 0, 1⟩, false)).2).1
  rw [div_eq_zero_iff]
  exact mul_eq_zero.mp hProduct

theorem clampScalar_eq (secret : Bytes 38) :
    clampScalar secret.1 = .ok (bytesValue (X301.clampScalar secret).1) := by
  rw [clampScalar, toArray_val]
  rfl

theorem decodeU_eq (u : Bytes 38) : decodeU u.1 = .ok ((decodedU u).val : ℤ) := by
  obtain ⟨-, -, -, -, -, hDouble⟩ := P_bounds
  have hMod := Nat.mod_lt (bytesValue u.1) (Nat.two_pow_pos 301)
  rw [decodeU, toArray_val]
  simp only [Fe301.bytesValue_mask]
  rw [decodedU, ZMod.val_natCast]
  generalize bytesValue u.1 % 2 ^ 301 = n at *
  have hLt : n < 2 * P := hMod.trans hDouble
  cases lt_or_ge n P with
  | inl h =>
    rw [if_neg (by omega), Nat.mod_eq_of_lt h]
  | inr h =>
    rw [if_pos (by omega), Nat.mod_eq_sub_mod h, Nat.mod_eq_of_lt (by omega), Nat.cast_sub h]

theorem encodeU_eq (v : Fp) : encodeU v.val = .ok (Fe301.oracleBytes v) := by
  have hLt := v.val_lt
  rw [encodeU, if_pos (by omega)]
  rfl

theorem x301_of_bytes (secret u : Bytes 38) :
    x301 secret.1 u.1 =
      let r := finalRegisters (bytesValue (X301.clampScalar secret).1) (decodedU u)
      if r.x₂ / r.z₂ = 0 then .error .allZero else .ok (Fe301.oracleBytes (r.x₂ / r.z₂)) := by
  simp only [x301, clampScalar_eq, decodeU_eq]
  have hLadder := montgomeryLadder_eq (bytesValue (X301.clampScalar secret).1) (decodedU u)
  generalize finalRegisters (bytesValue (X301.clampScalar secret).1) (decodedU u) = r at *
  obtain ⟨X, Z, _, _⟩ := r
  simp only [bind, Except.bind, hLadder, val_eq_zero_iff]
  by_cases hZ : Z = 0
  · rw [if_pos hZ, if_pos (by rw [hZ, div_zero])]
    rfl
  · obtain ⟨i, hInverse, hi⟩ := inverse_val hZ
    have hOutput : (X.val : ℤ) * i % P = ((X / Z).val : ℤ) := by
      apply emod_eq
      rw [Int.cast_mul, intCast_val, hi, div_eq_mul_inv]
    rw [if_neg hZ]
    simp only [pure, Except.pure, hInverse, hOutput, encodeU_eq, Fe301.any_oracleBytes,
      decide_eq_true_eq, not_not]
    by_cases hQuotient : X / Z = 0
    · rw [if_pos hQuotient, if_pos hQuotient]
      rfl
    · rw [if_neg hQuotient, if_neg hQuotient]

end X301Provider.Reference
