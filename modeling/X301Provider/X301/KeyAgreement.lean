import X301Provider.Edwards.CodecSpec
import X301Provider.Edwards.ScalarMulSpec
import X301Provider.X301.Correctness

/-!
# Public keys and key agreement

The fixed-base path and the ladder on the base coordinate compute the same
public key. No clamped scalar, and no product of two, is a multiple of `L`, so
key generation and agreement between derived keys never fail.
-/

namespace X301Provider.X301

open Limbs MontgomeryCurve
open EdwardsCurve (toMontgomery toMontgomery_nsmul)

def scalarOf (secret : Bytes 38) : ℕ := bytesValue (clampScalar secret).1

theorem not_dvd_scalarOf (secret : Bytes 38) : ¬L ∣ scalarOf secret := by
  obtain ⟨hLow, hHigh, m, hm⟩ := clamped_bounds secret
  have hFour : ¬L ∣ 4 := L_numeric.2.2.2.2.2.2.1
  have hBound : 2 ^ 301 < 4 * L := L_numeric.2.2.2.2.1
  rw [hm] at hLow hHigh
  rw [scalarOf, hm, prime_L.dvd_mul]
  rintro (h | h)
  · exact hFour h
  · have hPositive := Nat.pos_of_mul_pos_left (Nat.lt_of_lt_of_le (Nat.two_pow_pos _) hLow)
    have hLe := Nat.le_of_dvd hPositive h
    have hLt := hHigh.trans hBound
    omega

theorem two_nsmul_of_uOrZero_eq_zero {M : MontgomeryCurve Fp} {Q : M.Point}
    (h : Q.uOrZero = 0) : 2 • Q = 0 := by
  cases Q with
  | infinity => exact nsmul_zero 2
  | affine u v hCurve =>
    obtain rfl : u = 0 := h
    obtain rfl := eq_zero_of_onCurve hCurve
    have hNeg := neg_affine hCurve
    simp only [neg_zero] at hNeg
    rw [two_nsmul]
    exact add_eq_zero_iff_eq_neg.mpr hNeg.symm

theorem uOrZero_nsmul_basepoint_ne_zero {n : ℕ} (h : ¬L ∣ n) :
    (toMontgomery (n • B)).uOrZero ≠ 0 := by
  intro hZero
  have hTwice := two_nsmul_of_uOrZero_eq_zero hZero
  rw [← toMontgomery_nsmul, EdwardsCurve.toMontgomery_eq_zero_iff, smul_smul,
    nsmul_basepoint_eq_zero_iff, prime_L.dvd_mul] at hTwice
  cases hTwice with
  | inl hTwo =>
    have hNot : ¬L ∣ 2 := L_numeric.2.2.2.2.2.1
    exact hNot hTwo
  | inr hn =>
    exact h hn

theorem outcome_of_ne_zero {x : Fp} (h : x ≠ 0) : outcome x = .ok (Fe301.oracleBytes x) :=
  if_neg h

theorem scalarOf_lt (secret : Bytes 38) : scalarOf secret < 2 ^ 303 := by
  have hHigh := (clamped_bounds secret).2.1
  exact hHigh.trans (Nat.pow_lt_pow_right one_lt_two (by decide))

theorem artifact_eq [ModularInverse] (secret : Bytes 38) :
    (EdwardsPoint.scalarMulBasePruned (clampScalar secret)).montgomeryUPublicArtifact =
      .ok (Fe301.oracleBytes (toMontgomery (scalarOf secret • B)).uOrZero) := by
  have hPoint := scalarMulBaseEncoded_denotes (scalarOf_lt secret)
  have hNonzero := uOrZero_nsmul_basepoint_ne_zero (not_dvd_scalarOf secret)
  rw [EdwardsPoint.scalarMulBasePruned, hPoint.montgomeryUPublicArtifact]
  exact if_neg hNonzero

theorem publicFromSecret_eq [ModularInverse] (secret : Bytes 38) :
    publicFromSecret secret.1 =
      .ok (Fe301.oracleBytes (toMontgomery (scalarOf secret • B)).uOrZero) := by
  simp only [publicFromSecret, toArray_val, artifact_eq]
  rfl

theorem decodedU_oracleBytes (v : Fp) : decodedU (Fe301.oracleBytes v) = v := by
  obtain ⟨-, -, -, -, hBits, -⟩ := P_bounds
  rw [decodedU, Fe301.oracleBytes_value, Nat.mod_eq_of_lt (v.val_lt.trans hBits),
    ZMod.natCast_zmod_val]

theorem x301_of_toMontgomery [ModularInverse] (secret u : Bytes 38) (A : E.Point)
    (hu : decodedU u = (toMontgomery A).uOrZero) (hNonzero : decodedU u ≠ 0) :
    x301 secret.1 u.1 = outcome (toMontgomery (scalarOf secret • A)).uOrZero := by
  rw [toMontgomery_nsmul]
  cases hPoint : toMontgomery A with
  | infinity =>
    rw [hPoint] at hu
    exact absurd hu hNonzero
  | affine x v hCurve =>
    rw [hPoint] at hu
    obtain rfl : decodedU u = x := hu
    exact x301_eq_outcome secret u rfl hCurve hNonzero

theorem decodedU_baseUBytes_eq : decodedU baseUBytes = (toMontgomery B).uOrZero := by
  obtain ⟨v, h, hPoint⟩ := toMontgomery_basepoint
  rw [hPoint, decodedU_baseUBytes]
  rfl

/-- The fixed-base public key is the ladder on the base coordinate, and neither path fails. -/
theorem publicFromSecret_eq_x301 [ModularInverse] (secret : Bytes 38) :
    ∃ encoded, publicFromSecret secret.1 = .ok encoded ∧
      x301 secret.1 baseUBytes.1 = .ok encoded ∧
      (EdwardsPoint.scalarMulBasePruned (clampScalar secret)).montgomeryUPublicArtifact =
        .ok encoded := by
  have hNonzero := uOrZero_nsmul_basepoint_ne_zero (not_dvd_scalarOf secret)
  refine ⟨_, publicFromSecret_eq secret, ?_, artifact_eq secret⟩
  rw [x301_of_toMontgomery secret baseUBytes B decodedU_baseUBytes_eq (by
    rw [decodedU_baseUBytes]
    exact baseU_ne_zero)]
  exact outcome_of_ne_zero hNonzero

theorem sharedSecret_eq [ModularInverse] (secret peer : Bytes 38) :
    sharedSecret secret.1 (Fe301.oracleBytes (toMontgomery (scalarOf peer • B)).uOrZero).1 =
      .ok (Fe301.oracleBytes (toMontgomery ((scalarOf secret * scalarOf peer) • B)).uOrZero) := by
  have hPeer := uOrZero_nsmul_basepoint_ne_zero (not_dvd_scalarOf peer)
  have hProduct : ¬L ∣ scalarOf secret * scalarOf peer := by
    rw [prime_L.dvd_mul]
    exact not_or.mpr ⟨not_dvd_scalarOf secret, not_dvd_scalarOf peer⟩
  rw [sharedSecret, x301_of_toMontgomery secret _ (scalarOf peer • B)
    (decodedU_oracleBytes _) (by rwa [decodedU_oracleBytes]), smul_smul]
  exact outcome_of_ne_zero (uOrZero_nsmul_basepoint_ne_zero hProduct)

/-- Key agreement never fails on derived keys, and both sides agree. -/
theorem sharedSecret_comm [ModularInverse] (a b : Bytes 38) :
    ∃ publicA publicB shared, publicFromSecret a.1 = .ok publicA ∧
      publicFromSecret b.1 = .ok publicB ∧ sharedSecret a.1 publicB.1 = .ok shared ∧
      sharedSecret b.1 publicA.1 = .ok shared := by
  refine ⟨_, _, _, publicFromSecret_eq a, publicFromSecret_eq b, sharedSecret_eq a b, ?_⟩
  rw [sharedSecret_eq b a, mul_comm]

end X301Provider.X301
