import X301Provider.Library.EdwardsCurve

/-!
# From Edwards points to Montgomery points

The birational map `u = (1 + y) / (1 - y)`, `v = u / x`, with the identity
sent to infinity and the point of order two to `(0, 0)`. It is injective.
-/

namespace EdwardsCurve

variable {F : Type*} [Field F] {E : EdwardsCurve F}

theorem y_eq_of_x_eq_zero {y : F} (h : E.OnCurve 0 y) : y = 1 ∨ y = -1 := by
  unfold OnCurve at h
  apply sq_eq_one_iff.mp
  linear_combination h

theorem sq_y_ne_one {x y : F} (h : E.OnCurve x y) (hx : x ≠ 0) : y ^ 2 ≠ 1 := by
  intro hy
  unfold OnCurve at h
  rw [mul_assoc, hy] at h
  have hProduct : (E.a - E.d) * x ^ 2 = 0 := by linear_combination h
  exact mul_ne_zero E.a_sub_d_ne_zero (pow_ne_zero 2 hx) hProduct

theorem one_sub_y_ne_zero {x y : F} (h : E.OnCurve x y) (hx : x ≠ 0) : 1 - y ≠ 0 := by
  intro hZero
  apply sq_y_ne_one h hx
  linear_combination -(1 + y) * hZero

theorem one_add_y_ne_zero {x y : F} (h : E.OnCurve x y) (hx : x ≠ 0) : 1 + y ≠ 0 := by
  intro hZero
  apply sq_y_ne_one h hx
  linear_combination -(1 - y) * hZero

/-- The birationally equivalent Montgomery curve. -/
def montgomery (E : EdwardsCurve F) : MontgomeryCurve F where
  A := 2 * (E.a + E.d) / (E.a - E.d)
  B := 4 / (E.a - E.d)
  B_ne_zero := by
    have hFour := mul_ne_zero E.two_ne_zero E.two_ne_zero
    norm_num at hFour
    exact div_ne_zero hFour E.a_sub_d_ne_zero
  discriminant_ne_zero := by
    have hSixteen := pow_ne_zero 4 E.two_ne_zero
    norm_num at hSixteen
    have hd := E.a_sub_d_ne_zero
    have hEq : (2 * (E.a + E.d) / (E.a - E.d)) ^ 2 - 4 =
        16 * E.a * E.d / (E.a - E.d) ^ 2 := by
      field_simp
      ring
    rw [hEq]
    exact div_ne_zero (mul_ne_zero (mul_ne_zero hSixteen E.a_ne_zero) E.d_ne_zero)
      (pow_ne_zero 2 hd)
  two_ne_zero := E.two_ne_zero

theorem montgomery_A_mul (E : EdwardsCurve F) :
    E.montgomery.A * (E.a - E.d) = 2 * (E.a + E.d) :=
  div_mul_cancel₀ _ E.a_sub_d_ne_zero

theorem montgomery_B_mul (E : EdwardsCurve F) : E.montgomery.B * (E.a - E.d) = 4 :=
  div_mul_cancel₀ _ E.a_sub_d_ne_zero

/-- The order-two points other than `(0, 0)` are not rational: `A ^ 2 - 4` is no square. -/
theorem montgomery_discriminant_nonsquare (E : EdwardsCurve F) :
    ¬IsSquare (E.montgomery.A ^ 2 - 4) := by
  rintro ⟨r, hr⟩
  have hd := E.a_sub_d_ne_zero
  have hFour := mul_ne_zero E.two_ne_zero E.two_ne_zero
  norm_num at hFour
  have hRoot : E.rootA ≠ 0 := by
    intro hZero
    apply E.a_ne_zero
    rw [← E.rootA_sq, hZero]
    ring
  have hA := E.montgomery_A_mul
  apply E.d_nonsquare
  refine ⟨r * (E.a - E.d) / (4 * E.rootA), ?_⟩
  field_simp
  linear_combination (E.a - E.d) ^ 2 * hr -
    (E.montgomery.A * (E.a - E.d) + 2 * (E.a + E.d)) * hA + 16 * E.d * E.rootA_sq

theorem montgomery_w_ne_zero (E : EdwardsCurve F) {u : F} (hu : u ≠ 0) :
    u ^ 3 + E.montgomery.A * u ^ 2 + u ≠ 0 := by
  intro h
  apply E.montgomery_discriminant_nonsquare
  have hQuadratic : u ^ 2 + E.montgomery.A * u + 1 = 0 := by
    apply mul_left_cancel₀ hu
    linear_combination h
  exact ⟨2 * u + E.montgomery.A, by linear_combination -4 * hQuadratic⟩

theorem montgomery_onCurve {x y u v : F} (h : E.OnCurve x y) (hx : x ≠ 0)
    (hu : u * (1 - y) = 1 + y) (hv : v * x = u) : E.montgomery.OnCurve u v := by
  have hA := E.montgomery_A_mul
  have hB := E.montgomery_B_mul
  set A := E.montgomery.A with hAdef
  set B := E.montgomery.B with hBdef
  have hy := one_sub_y_ne_zero h hx
  unfold OnCurve at h
  unfold MontgomeryCurve.OnCurve
  rw [← hAdef, ← hBdef]
  apply mul_right_cancel₀ (mul_ne_zero (mul_ne_zero E.a_sub_d_ne_zero (pow_ne_zero 2 hx))
    (pow_ne_zero 3 hy))
  have hLeft : B * v ^ 2 * ((E.a - E.d) * x ^ 2 * (1 - y) ^ 3) = 4 * (1 + y) ^ 2 * (1 - y) :=
    calc B * v ^ 2 * ((E.a - E.d) * x ^ 2 * (1 - y) ^ 3)
        = B * (E.a - E.d) * (v * x) ^ 2 * (1 - y) ^ 3 := by ring
      _ = 4 * (u * (1 - y)) ^ 2 * (1 - y) := by rw [hB, hv]; ring
      _ = 4 * (1 + y) ^ 2 * (1 - y) := by rw [hu]
  have hRight : (u ^ 3 + A * u ^ 2 + u) * ((E.a - E.d) * x ^ 2 * (1 - y) ^ 3) =
      ((E.a - E.d) * (1 + y) ^ 3 + 2 * (E.a + E.d) * (1 + y) ^ 2 * (1 - y) +
        (E.a - E.d) * (1 + y) * (1 - y) ^ 2) * x ^ 2 := by
    rw [← hu, ← hA]
    ring
  rw [hLeft, hRight]
  linear_combination -4 * (1 + y) * h

variable [DecidableEq F]

open MontgomeryCurve (Point.affine)

/-- The map to the Montgomery curve, exceptional points included. -/
def toMontgomery (P : E.Point) : E.montgomery.Point :=
  if hx : P.x = 0 then
    if P.y = 1 then .infinity else .affine 0 0 (by simp [MontgomeryCurve.OnCurve])
  else
    .affine ((1 + P.y) / (1 - P.y)) ((1 + P.y) / (1 - P.y) / P.x)
      (montgomery_onCurve P.onCurve hx (div_mul_cancel₀ _ (one_sub_y_ne_zero P.onCurve hx))
        (div_mul_cancel₀ _ hx))

@[simp] theorem toMontgomery_zero : toMontgomery (0 : E.Point) = 0 := by
  simp [toMontgomery, MontgomeryCurve.infinity_eq_zero]

/-- The two defining equations of the map determine the image. -/
theorem toMontgomery_eq {P : E.Point} {u v : F} (h : E.montgomery.OnCurve u v)
    (hu : u * (1 - P.y) = 1 + P.y) (hv : v * P.x = u) : toMontgomery P = .affine u v h := by
  unfold toMontgomery
  by_cases hx : P.x = 0
  · have hu₀ : u = 0 := by rw [← hv, hx, mul_zero]
    subst hu₀
    have hy : P.y ≠ 1 := by
      intro hy
      apply E.two_ne_zero
      rw [hy] at hu
      linear_combination -hu
    have hv₀ : v = 0 := by
      unfold MontgomeryCurve.OnCurve at h
      have hSq : E.montgomery.B * v ^ 2 = 0 := by linear_combination h
      exact (pow_eq_zero_iff (by decide)).mp
        ((mul_eq_zero.mp hSq).resolve_left E.montgomery.B_ne_zero)
    subst hv₀
    rw [dif_pos hx, if_neg hy]
  · have hy := one_sub_y_ne_zero P.onCurve hx
    have hu' : (1 + P.y) / (1 - P.y) = u := by rw [← hu, mul_div_cancel_right₀ _ hy]
    have hv' : u / P.x = v := by rw [← hv, mul_div_cancel_right₀ _ hx]
    rw [dif_neg hx]
    simp only [hu', hv']

theorem toMontgomery_of_ne_zero {P : E.Point} (hP : P ≠ 0) :
    ∃ u v h, toMontgomery P = .affine u v h ∧ u * (1 - P.y) = 1 + P.y ∧ v * P.x = u := by
  by_cases hx : P.x = 0
  · have hCurve := P.onCurve
    rw [hx] at hCurve
    cases y_eq_of_x_eq_zero hCurve with
    | inl hy =>
      exact absurd (Point.ext hx hy) hP
    | inr hy =>
      have hu : (0 : F) * (1 - P.y) = 1 + P.y := by rw [hy]; ring
      have hv : (0 : F) * P.x = 0 := zero_mul _
      exact ⟨0, 0, _, toMontgomery_eq (by simp [MontgomeryCurve.OnCurve]) hu hv, hu, hv⟩
  · have hu := div_mul_cancel₀ (1 + P.y) (one_sub_y_ne_zero P.onCurve hx)
    have hv := div_mul_cancel₀ ((1 + P.y) / (1 - P.y)) hx
    exact ⟨_, _, _, toMontgomery_eq (montgomery_onCurve P.onCurve hx hu hv) hu hv, hu, hv⟩

theorem toMontgomery_eq_zero_iff {P : E.Point} : toMontgomery P = 0 ↔ P = 0 := by
  constructor
  · intro hZero
    by_contra hP
    obtain ⟨u, v, h, hEq, -⟩ := toMontgomery_of_ne_zero hP
    rw [hEq] at hZero
    exact MontgomeryCurve.affine_ne_zero h hZero
  · rintro rfl
    exact toMontgomery_zero

theorem toMontgomery_injective : Function.Injective (toMontgomery (E := E)) := by
  intro P Q hEq
  by_cases hP : P = 0
  · rw [hP, toMontgomery_zero] at hEq
    rw [hP, toMontgomery_eq_zero_iff.mp hEq.symm]
  · by_cases hQ : Q = 0
    · rw [hQ, toMontgomery_zero] at hEq
      rw [hQ, toMontgomery_eq_zero_iff.mp hEq]
    obtain ⟨u, v, h, hPEq, hPu, hPv⟩ := toMontgomery_of_ne_zero hP
    obtain ⟨u', v', h', hQEq, hQu, hQv⟩ := toMontgomery_of_ne_zero hQ
    rw [hPEq, hQEq] at hEq
    obtain ⟨rfl, rfl⟩ := Point.affine.inj hEq
    have hOne : u + 1 ≠ 0 := by
      intro hZero
      apply E.two_ne_zero
      linear_combination (1 - P.y) * hZero - hPu
    have hy : P.y = Q.y := by
      apply mul_left_cancel₀ hOne
      linear_combination hQu - hPu
    refine Point.ext ?_ hy
    by_cases hv : v = 0
    · have hu : u = 0 := by rw [← hPv, hv, zero_mul]
      have hx : ∀ R : E.Point, u * (1 - R.y) = 1 + R.y → R.x = 0 := by
        intro R hR
        by_contra hx
        refine one_add_y_ne_zero R.onCurve hx ?_
        rw [← hR, hu, zero_mul]
      rw [hx P hPu, hx Q hQu]
    · exact mul_left_cancel₀ hv (hPv.trans hQv.symm)

end EdwardsCurve
