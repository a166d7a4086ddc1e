import Mathlib.Algebra.Group.MinimalAxioms
import X301Provider.Library.EdwardsAddition

/-!
# The group of a complete Edwards curve

The map to the Montgomery curve is additive. Since it is injective, the
complete addition law is associative because the Montgomery group is.
-/

namespace EdwardsCurve

variable {F : Type*} [Field F] {E : EdwardsCurve F}

theorem add_comm' (P Q : E.Point) : P + Q = Q + P := by
  ext
  · rw [add_x, add_x, addX, addX]
    congr 1 <;> ring
  · rw [add_y, add_y, addY, addY]
    congr 1 <;> ring

theorem zero_add' (P : E.Point) : 0 + P = P := by
  ext
  · simp [add_x, addX]
  · simp [add_y, addY]

theorem neg_add_cancel' (P : E.Point) : -P + P = 0 := by
  have hCurve := P.onCurve
  unfold OnCurve at hCurve
  ext
  · rw [add_x, addX, zero_x, neg_x, neg_y, div_eq_zero_iff]
    left
    ring
  · rw [add_y, addY, zero_y, neg_x, neg_y,
      div_eq_one_iff_eq (by simpa using one_sub_product_ne_zero (onCurve_neg P.onCurve) P.onCurve)]
    linear_combination hCurve

theorem eq_or_eq_neg_of_y_eq {P Q : E.Point} (hP : P.x ≠ 0) (hy : P.y = Q.y) :
    P = Q ∨ P = -Q := by
  have hPCurve := P.onCurve
  have hQCurve := Q.onCurve
  unfold OnCurve at hPCurve hQCurve
  have hFactor : E.a - E.d * P.y ^ 2 ≠ 0 := by
    intro hZero
    apply sq_y_ne_one P.onCurve hP
    linear_combination hPCurve - P.x ^ 2 * hZero
  have hSq : P.x ^ 2 = Q.x ^ 2 := by
    apply mul_left_cancel₀ hFactor
    rw [← hy] at hQCurve
    linear_combination hPCurve - hQCurve
  cases sq_eq_sq_iff_eq_or_eq_neg.mp hSq with
  | inl hx =>
    exact Or.inl (Point.ext hx hy)
  | inr hx =>
    exact Or.inr (Point.ext hx hy)

open MontgomeryCurve (Point.affine neg_affine affine_add_neg add_of_u_ne add_self_of_v_ne)

section Map

variable [DecidableEq F]

theorem toMontgomery_neg (P : E.Point) : toMontgomery (-P) = -toMontgomery P := by
  by_cases hP : P = 0
  · have hNeg : -(0 : E.Point) = 0 := by ext <;> simp
    rw [hP, hNeg, toMontgomery_zero, neg_zero]
  · obtain ⟨u, v, h, hEq, hu, hv⟩ := toMontgomery_of_ne_zero hP
    rw [hEq, neg_affine]
    exact toMontgomery_eq _ hu (by rw [neg_x, neg_mul_neg, hv])

theorem toMontgomery_orderTwo_add {P Q : E.Point} (hx : P.x = 0) (hy : P.y = -1) :
    toMontgomery (P + Q) = toMontgomery P + toMontgomery Q := by
  have hCurve : E.montgomery.OnCurve 0 0 := by simp [MontgomeryCurve.OnCurve]
  have hP : toMontgomery P = .affine 0 0 hCurve :=
    toMontgomery_eq hCurve (by rw [hy]; ring) (zero_mul _)
  have hSumX : (P + Q).x = -Q.x := by
    rw [add_x, addX, hx, hy]
    ring
  have hSumY : (P + Q).y = -Q.y := by
    rw [add_y, addY, hx, hy]
    ring
  rw [hP]
  by_cases hQ : Q.x = 0
  · have hQCurve := Q.onCurve
    rw [hQ] at hQCurve
    cases y_eq_of_x_eq_zero hQCurve with
    | inl hQy =>
      have hZero : Q = 0 := Point.ext hQ hQy
      rw [hZero, add_comm', zero_add', toMontgomery_zero, add_zero, hP]
    | inr hQy =>
      have hSum : P + Q = 0 := by
        ext
        · rw [hSumX, hQ, neg_zero, zero_x]
        · rw [hSumY, hQy, neg_neg, zero_y]
      have hQ' : toMontgomery Q = .affine 0 0 hCurve :=
        toMontgomery_eq hCurve (by rw [hQy]; ring) (zero_mul _)
      have hCancel := affine_add_neg hCurve (by rwa [neg_zero])
      simp only [neg_zero] at hCancel
      rw [hSum, hQ', toMontgomery_zero, hCancel]
  · have hQ₀ : Q ≠ 0 := fun h => hQ (by rw [h, zero_x])
    obtain ⟨u, v, h, hEq, hu, hv⟩ := toMontgomery_of_ne_zero hQ₀
    have hu₀ : u ≠ 0 := by
      rintro rfl
      apply one_add_y_ne_zero Q.onCurve hQ
      rw [← hu, zero_mul]
    have hl : v / u * (0 - u) = 0 - v := by
      field_simp
      ring
    obtain ⟨hSumCurve, hSum⟩ := add_of_u_ne hCurve h hu₀.symm hl
    rw [hEq, hSum]
    have hInverse : (E.montgomery.B * (v / u) ^ 2 - E.montgomery.A - 0 - u) * u = 1 := by
      have hOn := h
      unfold MontgomeryCurve.OnCurve at hOn
      field_simp
      linear_combination hOn
    apply toMontgomery_eq
    · rw [hSumY]
      linear_combination (1 - Q.y) * hInverse -
        (E.montgomery.B * (v / u) ^ 2 - E.montgomery.A - 0 - u) * hu
    · rw [hSumX]
      apply mul_right_cancel₀ hu₀
      field_simp
      rw [← hv]
      ring

theorem toMontgomery_add_self {P : E.Point} (hx : P.x ≠ 0) :
    toMontgomery (P + P) = toMontgomery P + toMontgomery P := by
  have hP : P ≠ 0 := fun h => hx (by rw [h, zero_x])
  obtain ⟨u, v, h, hEq, hu, hv⟩ := toMontgomery_of_ne_zero hP
  have hv₀ : v ≠ 0 := by
    rintro rfl
    apply one_add_y_ne_zero P.onCurve hx
    rw [← hu, ← hv, zero_mul, zero_mul]
  have hDenominator : 2 * E.montgomery.B * v ≠ 0 :=
    mul_ne_zero (mul_ne_zero E.two_ne_zero E.montgomery.B_ne_zero) hv₀
  have hl := div_mul_cancel₀ (3 * u ^ 2 + 2 * E.montgomery.A * u + 1) hDenominator
  obtain ⟨hSumCurve, hSum⟩ := add_self_of_v_ne h hv₀ hl
  have hT := tangent_u P.onCurve hx hu hv (MontgomeryCurve.double_u h hl)
  have hPlus := one_add_product_ne_zero P.onCurve P.onCurve
  have hMinus := one_sub_product_ne_zero P.onCurve P.onCurve
  have hSumX := addX_mul P.onCurve P.onCurve
  have hSumY := addY_mul P.onCurve P.onCurve
  rw [← add_x] at hSumX
  rw [← add_y] at hSumY
  rw [hEq, hSum]
  apply toMontgomery_eq
  · have hy := sub_ne_zero.mpr (sq_y_ne_one P.onCurve hx).symm
    have hCurve := P.onCurve
    unfold OnCurve at hCurve
    apply mul_right_cancel₀ (mul_ne_zero hMinus hy)
    linear_combination
      (1 - E.d * P.x * P.x * P.y * P.y - P.y * P.y + E.a * P.x * P.x) * hT -
        ((E.montgomery.B * ((3 * u ^ 2 + 2 * E.montgomery.A * u + 1) /
          (2 * E.montgomery.B * v)) ^ 2 - E.montgomery.A - u - u) + 1) * (1 - P.y ^ 2) * hSumY +
        (P.y ^ 2 - E.a * P.x ^ 2) * hCurve
  · refine tangent_v P.onCurve hx hu hv (tangent_slope P.onCurve hx hu hv hl) hT ?_ ?_
    · linear_combination hSumX
    · convert hPlus using 1
      ring

theorem toMontgomery_add_of_y_ne {P Q : E.Point} (hP : P.x ≠ 0) (hQ : Q.x ≠ 0)
    (hne : P.y ≠ Q.y) : toMontgomery (P + Q) = toMontgomery P + toMontgomery Q := by
  have hP₀ : P ≠ 0 := fun h => hP (by rw [h, zero_x])
  have hQ₀ : Q ≠ 0 := fun h => hQ (by rw [h, zero_x])
  obtain ⟨u₁, v₁, h₁, hPEq, hu₁, hv₁⟩ := toMontgomery_of_ne_zero hP₀
  obtain ⟨u₂, v₂, h₂, hQEq, hu₂, hv₂⟩ := toMontgomery_of_ne_zero hQ₀
  have hu : u₁ ≠ u₂ := by
    rintro rfl
    have hOne : u₁ + 1 ≠ 0 := by
      intro hZero
      apply E.two_ne_zero
      linear_combination (1 - P.y) * hZero - hu₁
    exact hne (mul_left_cancel₀ hOne (by linear_combination hu₂ - hu₁))
  have hl := div_mul_cancel₀ (v₁ - v₂) (sub_ne_zero.mpr hu)
  obtain ⟨hSumCurve, hSum⟩ := add_of_u_ne h₁ h₂ hu hl
  have hSumX := addX_mul P.onCurve Q.onCurve
  have hSumY := addY_mul P.onCurve Q.onCurve
  rw [← add_x] at hSumX
  rw [← add_y] at hSumY
  have hSlope := chord_slope hu₁ hv₁ hu₂ hv₂ hl
  have hScaled := chord_u_scaled P.onCurve Q.onCurve hP hQ hu₁ hu₂ hSlope rfl
  have hT := chord_u P.onCurve Q.onCurve hne hScaled hSumY
  rw [hPEq, hQEq, hSum]
  exact toMontgomery_eq _ hT
    (chord_v P.onCurve Q.onCurve hP hQ hu₁ hv₁ hu₂ hv₂ hl hu hT hSumX hSumY)

/-- The map to the Montgomery curve is a homomorphism. -/
theorem toMontgomery_add (P Q : E.Point) :
    toMontgomery (P + Q) = toMontgomery P + toMontgomery Q := by
  by_cases hP : P.x = 0
  · have hCurve := P.onCurve
    rw [hP] at hCurve
    cases y_eq_of_x_eq_zero hCurve with
    | inl hy =>
      have hZero : P = 0 := Point.ext hP hy
      rw [hZero, zero_add', toMontgomery_zero, zero_add]
    | inr hy =>
      exact toMontgomery_orderTwo_add hP hy
  by_cases hQ : Q.x = 0
  · have hCurve := Q.onCurve
    rw [hQ] at hCurve
    rw [add_comm' P Q, add_comm (toMontgomery P)]
    cases y_eq_of_x_eq_zero hCurve with
    | inl hy =>
      have hZero : Q = 0 := Point.ext hQ hy
      rw [hZero, zero_add', toMontgomery_zero, zero_add]
    | inr hy =>
      exact toMontgomery_orderTwo_add hQ hy
  by_cases hy : P.y = Q.y
  · rcases eq_or_eq_neg_of_y_eq hP hy with rfl | rfl
    · exact toMontgomery_add_self hP
    · rw [neg_add_cancel', toMontgomery_neg, toMontgomery_zero, neg_add_cancel]
  · exact toMontgomery_add_of_y_ne hP hQ hy

end Map

theorem add_assoc' (P Q R : E.Point) : P + Q + R = P + (Q + R) := by
  classical
  apply toMontgomery_injective
  simp only [toMontgomery_add, add_assoc]

instance : AddCommGroup E.Point :=
  { AddGroup.ofLeftAxioms add_assoc' zero_add' neg_add_cancel' with
    add_comm := add_comm' }

/-- The map to the Montgomery curve as a homomorphism. -/
def toMontgomeryHom [DecidableEq F] : E.Point →+ E.montgomery.Point where
  toFun := toMontgomery
  map_zero' := toMontgomery_zero
  map_add' := toMontgomery_add

theorem toMontgomery_nsmul [DecidableEq F] (n : ℕ) (P : E.Point) :
    toMontgomery (n • P) = n • toMontgomery P :=
  map_nsmul toMontgomeryHom n P

end EdwardsCurve
