import X301Provider.X301.PublicEncoding

/-!
# When two secrets collide

Two secrets derive one public key exactly when their clamped scalars are equal or
opposite modulo `L`. Under one secret, peers with different derived keys never give
the same shared secret.
-/

namespace X301Provider.X301

open Limbs MontgomeryCurve
open EdwardsCurve (toMontgomery toMontgomery_injective toMontgomery_neg)

/-- A coordinate that is not zero belongs to one point and its negative. -/
theorem eq_or_eq_neg_of_uOrZero {M : MontgomeryCurve Fp} {Q R : M.Point} (hQ : Q.uOrZero ≠ 0)
    (h : Q.uOrZero = R.uOrZero) : Q = R ∨ Q = -R := by
  cases Q with
  | infinity =>
    exact absurd rfl hQ
  | affine u v hCurve =>
    cases R with
    | infinity =>
      exact absurd h hQ
    | affine u' v' hCurve' =>
      obtain rfl : u = u' := h
      cases v_eq_or_eq_neg hCurve hCurve' with
      | inl hv =>
        subst hv
        exact Or.inl rfl
      | inr hv =>
        subst hv
        exact Or.inr (neg_affine hCurve').symm

theorem uOrZero_neg {M : MontgomeryCurve Fp} (Q : M.Point) : (-Q).uOrZero = Q.uOrZero := by
  cases Q with
  | infinity => rfl
  | affine u v hCurve =>
    rw [neg_affine hCurve]
    rfl

/-- Equal coordinates of two multiples of the base point, in terms of the multipliers. -/
theorem uOrZero_multiples_eq_iff {m n : ℕ} (h : ¬L ∣ m) :
    (toMontgomery (m • B)).uOrZero = (toMontgomery (n • B)).uOrZero ↔
      m ≡ n [MOD L] ∨ L ∣ m + n := by
  constructor
  · intro hEq
    cases eq_or_eq_neg_of_uOrZero (uOrZero_nsmul_basepoint_ne_zero h) hEq with
    | inl hSame =>
      exact Or.inl ((nsmul_basepoint_eq_iff m n).mp (toMontgomery_injective hSame))
    | inr hOpposite =>
      rw [← toMontgomery_neg] at hOpposite
      have hSum := toMontgomery_injective hOpposite
      rw [← add_eq_zero_iff_eq_neg, ← add_nsmul, nsmul_basepoint_eq_zero_iff] at hSum
      exact Or.inr hSum
  · rintro (hMod | hDvd)
    · rw [(nsmul_basepoint_eq_iff m n).mpr hMod]
    · have hSum := (nsmul_basepoint_eq_zero_iff (m + n)).mpr hDvd
      rw [add_nsmul, add_eq_zero_iff_eq_neg] at hSum
      rw [hSum, toMontgomery_neg, uOrZero_neg]

variable [ModularInverse]

theorem publicFromSecret_same_iff (a b : Bytes 38) :
    publicFromSecret a.1 = publicFromSecret b.1 ↔
      scalarOf a ≡ scalarOf b [MOD L] ∨ L ∣ scalarOf a + scalarOf b := by
  rw [publicFromSecret_eq, publicFromSecret_eq, Except.ok.injEq,
    Fe301.oracleBytes_injective.eq_iff, uOrZero_multiples_eq_iff (not_dvd_scalarOf a)]

/-- Two secrets have one public key exactly when their clamped scalars agree up to sign. -/
theorem publicFromSecret_eq_iff (a b : Bytes 38) :
    publicFromSecret a.1 = publicFromSecret b.1 ↔
      scalarOf a ≡ scalarOf b [MOD L] ∨ L ∣ scalarOf a + scalarOf b :=
  publicFromSecret_same_iff a b

/-- Under any one secret the shared secrets of two peers are equal exactly when their derived
public keys are. -/
theorem sharedSecret_eq_iff (a b c : Bytes 38) :
    sharedSecret a.1 (publicOf b).1 = sharedSecret a.1 (publicOf c).1 ↔
      publicFromSecret b.1 = publicFromSecret c.1 := by
  have hCoprime : L.Coprime (scalarOf a) := prime_L.coprime_iff_not_dvd.mpr (not_dvd_scalarOf a)
  have hProduct : ¬L ∣ scalarOf a * scalarOf b := by
    rw [prime_L.dvd_mul]
    exact not_or.mpr ⟨not_dvd_scalarOf a, not_dvd_scalarOf b⟩
  have hMod : scalarOf a * scalarOf b ≡ scalarOf a * scalarOf c [MOD L] ↔
      scalarOf b ≡ scalarOf c [MOD L] :=
    ⟨fun h => h.cancel_left_of_coprime hCoprime, fun h => h.mul_left _⟩
  have hDvd : L ∣ scalarOf a * scalarOf b + scalarOf a * scalarOf c ↔
      L ∣ scalarOf b + scalarOf c := by
    rw [← mul_add]
    exact hCoprime.dvd_mul_left
  rw [publicFromSecret_same_iff, publicOf, publicOf, sharedSecret_eq, sharedSecret_eq,
    Except.ok.injEq, Fe301.oracleBytes_injective.eq_iff, uOrZero_multiples_eq_iff hProduct, hMod,
    hDvd]

end X301Provider.X301
