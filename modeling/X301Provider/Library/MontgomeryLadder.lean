import X301Provider.Library.MontgomeryCurve

/-!
# Projective `u`-coordinates and the Montgomery ladder

A pair `(X : Z)` stands for infinity when `Z = 0` and for `u = X / Z`
otherwise; `(0 : 0)` stands for nothing. Doubling carries a scaled constant:
the pair `(c, n)` with `4 * n = c * (A - 2)` replaces `(A - 2) / 4`.
-/

namespace MontgomeryCurve

variable {F : Type*} [Field F]

/-- `(X : Z)` is a projective `u`-coordinate of the point. -/
def Represents (M : MontgomeryCurve F) (X Z : F) : M.Point → Prop
  | .infinity => X ≠ 0 ∧ Z = 0
  | .affine u _ _ => Z ≠ 0 ∧ X = u * Z

def Point.uOrZero {M : MontgomeryCurve F} : M.Point → F
  | .infinity => 0
  | .affine u _ _ => u

/-- The doubling half of a ladder round, scaled by `c`. -/
def double (c n X Z : F) : F × F :=
  let aa := (X + Z) ^ 2
  let bb := (X - Z) ^ 2
  let e := aa - bb
  (c * aa * bb, e * (c * aa + n * e))

/-- The differential addition of a ladder round. -/
def differentialAdd (u X₂ Z₂ X₃ Z₃ : F) : F × F :=
  let da := (X₃ - Z₃) * (X₂ + Z₂)
  let cb := (X₃ + Z₃) * (X₂ - Z₂)
  ((da + cb) ^ 2, u * (da - cb) ^ 2)

theorem double_fst (c n X Z : F) : (double c n X Z).1 = c * (X ^ 2 - Z ^ 2) ^ 2 := by
  simp only [double]
  ring

theorem double_snd {c n A : F} (hn : 4 * n = c * (A - 2)) (X Z : F) :
    (double c n X Z).2 = 4 * c * (X * Z) * (X ^ 2 + A * X * Z + Z ^ 2) := by
  simp only [double]
  linear_combination 4 * X ^ 2 * Z ^ 2 * hn

theorem differentialAdd_fst (u X₂ Z₂ X₃ Z₃ : F) :
    (differentialAdd u X₂ Z₂ X₃ Z₃).1 = 4 * (X₂ * X₃ - Z₂ * Z₃) ^ 2 := by
  simp only [differentialAdd]
  ring

theorem differentialAdd_snd (u X₂ Z₂ X₃ Z₃ : F) :
    (differentialAdd u X₂ Z₂ X₃ Z₃).2 = 4 * u * (X₃ * Z₂ - X₂ * Z₃) ^ 2 := by
  simp only [differentialAdd]
  ring

variable {M : MontgomeryCurve F}

theorem four_ne_zero' (M : MontgomeryCurve F) : (4 : F) ≠ 0 := by
  have hFour := mul_ne_zero M.two_ne_zero M.two_ne_zero
  norm_num at hFour
  exact hFour

theorem represents_affine {u v X Z : F} {h : M.OnCurve u v} :
    M.Represents X Z (.affine u v h) ↔ Z ≠ 0 ∧ X = u * Z := Iff.rfl

theorem Represents.div_eq {X Z : F} {P : M.Point} (h : M.Represents X Z P) :
    X / Z = P.uOrZero := by
  cases P with
  | infinity => rw [h.2, div_zero, Point.uOrZero]
  | affine u v hc => rw [h.2, mul_div_cancel_right₀ _ h.1, Point.uOrZero]

theorem Represents.proportional {X Z X' Z' : F} {P : M.Point} (h : M.Represents X Z P)
    (h' : M.Represents X' Z' P) : ∃ scale, scale ≠ 0 ∧ X = scale * X' ∧ Z = scale * Z' := by
  cases P with
  | infinity =>
    refine ⟨X / X', div_ne_zero h.1 h'.1, (div_mul_cancel₀ X h'.1).symm, ?_⟩
    rw [h.2, h'.2, mul_zero]
  | affine u v hc =>
    refine ⟨Z / Z', div_ne_zero h.1 h'.1, ?_, (div_mul_cancel₀ Z h'.1).symm⟩
    rw [h.2, h'.2, mul_left_comm, div_mul_cancel₀ Z h'.1]

theorem Represents.scale {X Z scale : F} {P : M.Point} (hScale : scale ≠ 0)
    (h : M.Represents X Z P) : M.Represents (scale * X) (scale * Z) P := by
  cases P with
  | infinity => exact ⟨mul_ne_zero hScale h.1, by rw [h.2, mul_zero]⟩
  | affine u v hc => exact ⟨mul_ne_zero hScale h.1, by rw [h.2, mul_left_comm]⟩

theorem Represents.not_both_zero {X Z : F} {P : M.Point} (h : M.Represents X Z P) :
    ¬(X = 0 ∧ Z = 0) := by
  cases P with
  | infinity => exact fun hBoth => h.1 hBoth.1
  | affine u v hc => exact fun hBoth => h.1 hBoth.2

theorem v_ne_zero_of_sq_eq_one {u v : F} (h : M.OnCurve u v) (hu : u ^ 2 = 1) : v ≠ 0 := by
  rintro rfl
  apply M.discriminant_ne_zero
  unfold OnCurve at h
  have hSum : 2 * u + M.A = 0 := by linear_combination -h - (u + M.A) * hu
  linear_combination (M.A - 2 * u) * hSum + 4 * hu

theorem sum_u_mul_difference_u {u₁ v₁ u₂ v₂ l m : F} (h₁ : M.OnCurve u₁ v₁)
    (h₂ : M.OnCurve u₂ v₂) (hl : l * (u₁ - u₂) = v₁ - v₂) (hm : m * (u₁ - u₂) = v₁ + v₂)
    (hne : u₁ ≠ u₂) :
    (M.B * l ^ 2 - M.A - u₁ - u₂) * (M.B * m ^ 2 - M.A - u₁ - u₂) * (u₁ - u₂) ^ 2 =
      (u₁ * u₂ - 1) ^ 2 := by
  unfold OnCurve at h₁ h₂
  have hDifference : u₁ - u₂ ≠ 0 := sub_ne_zero.mpr hne
  have hl' : (M.B * l ^ 2 - M.A - u₁ - u₂) * (u₁ - u₂) ^ 2 =
      M.B * (v₁ - v₂) ^ 2 - (M.A + u₁ + u₂) * (u₁ - u₂) ^ 2 := by
    rw [← hl]
    ring
  have hm' : (M.B * m ^ 2 - M.A - u₁ - u₂) * (u₁ - u₂) ^ 2 =
      M.B * (v₁ + v₂) ^ 2 - (M.A + u₁ + u₂) * (u₁ - u₂) ^ 2 := by
    rw [← hm]
    ring
  have hProduct : (M.B * (v₁ - v₂) ^ 2 - (M.A + u₁ + u₂) * (u₁ - u₂) ^ 2) *
      (M.B * (v₁ + v₂) ^ 2 - (M.A + u₁ + u₂) * (u₁ - u₂) ^ 2) =
      (u₁ * u₂ - 1) ^ 2 * (u₁ - u₂) ^ 2 := by
    set g := M.B * v₁ ^ 2 - M.B * v₂ ^ 2 + (u₁ ^ 3 + M.A * u₁ ^ 2 + u₁) -
      (u₂ ^ 3 + M.A * u₂ ^ 2 + u₂) with hg
    linear_combination (g - 2 * (M.A + u₁ + u₂) * (u₁ - u₂) ^ 2) * h₁ -
      (g + 2 * (M.A + u₁ + u₂) * (u₁ - u₂) ^ 2) * h₂
  apply mul_right_cancel₀ (pow_ne_zero 2 hDifference)
  rw [← hProduct, ← hl', ← hm']
  ring

variable [DecidableEq F]

theorem Represents.infinity_iff {X Z : F} : M.Represents X Z 0 ↔ X ≠ 0 ∧ Z = 0 := Iff.rfl

theorem Represents.z_eq_zero_iff {X Z : F} {P : M.Point} (h : M.Represents X Z P) :
    Z = 0 ↔ P = 0 := by
  cases P with
  | infinity => exact iff_of_true h.2 rfl
  | affine u v hc => exact iff_of_false h.1 (affine_ne_zero hc)

theorem Represents.double {c n X Z : F} {P : M.Point} (hc : c ≠ 0)
    (hn : 4 * n = c * (M.A - 2)) (h : M.Represents X Z P) :
    M.Represents (double c n X Z).1 (double c n X Z).2 (P + P) := by
  rw [double_fst, double_snd hn]
  cases P with
  | infinity =>
    obtain ⟨hX, rfl⟩ := h
    rw [infinity_eq_zero, add_zero, Represents.infinity_iff]
    exact ⟨by simpa using ⟨hc, hX⟩, by ring⟩
  | affine u v hCurve =>
    obtain ⟨hZ, rfl⟩ := h
    have hOut : 4 * c * (u * Z * Z) * ((u * Z) ^ 2 + M.A * (u * Z) * Z + Z ^ 2) =
        c * Z ^ 4 * (4 * M.B * v ^ 2) := by
      have hCurve' := hCurve
      unfold OnCurve at hCurve'
      linear_combination -4 * c * Z ^ 4 * hCurve'
    rw [hOut]
    by_cases hv : v = 0
    · subst hv
      have hSum : Point.affine u 0 hCurve + .affine u 0 hCurve = 0 := by
        have hNeg := neg_affine hCurve
        simp only [neg_zero] at hNeg
        exact add_eq_zero_iff_eq_neg.mpr hNeg.symm
      rw [hSum, Represents.infinity_iff]
      refine ⟨mul_ne_zero hc (pow_ne_zero 2 ?_), by ring⟩
      intro hEq
      refine v_ne_zero_of_sq_eq_one hCurve ?_ rfl
      have hFactor : (u ^ 2 - 1) * Z ^ 2 = 0 := by linear_combination hEq
      exact sub_eq_zero.mp ((mul_eq_zero.mp hFactor).resolve_right (pow_ne_zero 2 hZ))
    · have hDenominator : 2 * M.B * v ≠ 0 :=
        mul_ne_zero (mul_ne_zero M.two_ne_zero M.B_ne_zero) hv
      have hl := div_mul_cancel₀ (3 * u ^ 2 + 2 * M.A * u + 1) hDenominator
      obtain ⟨hSumCurve, hSum⟩ := add_self_of_v_ne hCurve hv hl
      rw [hSum, represents_affine]
      refine ⟨mul_ne_zero (mul_ne_zero hc (pow_ne_zero 4 hZ))
        (mul_ne_zero (mul_ne_zero M.four_ne_zero' M.B_ne_zero) (pow_ne_zero 2 hv)), ?_⟩
      linear_combination -c * Z ^ 4 * double_u hCurve hl

theorem four_nsmul_of_sq_eq_one {u v : F} (h : M.OnCurve u v) (hu : u ^ 2 = 1) :
    4 • Point.affine u v h = 0 := by
  have hn : 4 * ((M.A - 2) / 4) = 1 * (M.A - 2) := by
    rw [one_mul, mul_div_cancel₀ _ M.four_ne_zero']
  have hBase : M.Represents u 1 (.affine u v h) := ⟨one_ne_zero, (mul_one u).symm⟩
  have hTwice := hBase.double one_ne_zero hn
  have hFour := hTwice.double one_ne_zero hn
  have hX : (MontgomeryCurve.double 1 ((M.A - 2) / 4) u 1).1 = 0 := by
    rw [double_fst, one_pow, hu, sub_self]
    ring
  have hZero := hFour.z_eq_zero_iff.mp (by
    rw [double_snd hn, hX]
    ring)
  rw [← hZero]
  abel

/-- Two points differ by `D`, in one order or the other. -/
def DifferBy (D P Q : M.Point) : Prop := P - Q = D ∨ P - Q = -D

theorem DifferBy.swap {D P Q : M.Point} (h : DifferBy D P Q) : DifferBy D Q P := by
  cases h with
  | inl h =>
    exact Or.inr (by rw [← h, neg_sub])
  | inr h =>
    exact Or.inl (by rw [← neg_sub, h, neg_neg])

theorem u_eq_of_eq_or_eq_neg {u v u' v' : F} {h : M.OnCurve u v} {h' : M.OnCurve u' v'}
    (hEq : Point.affine u v h = .affine u' v' h' ∨ Point.affine u v h = -.affine u' v' h') :
    u = u' := by
  rw [neg_affine] at hEq
  cases hEq with
  | inl hEq =>
    exact (Point.affine.inj hEq).1
  | inr hEq =>
    exact (Point.affine.inj hEq).1

theorem differentialAdd_opposite {u v u₁ v₁ Z₂ Z₃ : F} (hBase : M.OnCurve u v) (hu : u ≠ 0)
    (h₁ : M.OnCurve u₁ v₁) (h₁' : M.OnCurve u₁ (-v₁))
    (hD : DifferBy (.affine u v hBase) (.affine u₁ v₁ h₁) (.affine u₁ (-v₁) h₁'))
    (hZ₂ : Z₂ ≠ 0) (hZ₃ : Z₃ ≠ 0) :
    M.Represents (4 * (u₁ * Z₂ * (u₁ * Z₃) - Z₂ * Z₃) ^ 2)
      (4 * u * (u₁ * Z₃ * Z₂ - u₁ * Z₂ * Z₃) ^ 2)
      (.affine u₁ v₁ h₁ + .affine u₁ (-v₁) h₁') := by
  rw [affine_add_neg, Represents.infinity_iff]
  refine ⟨?_, by ring⟩
  have hSq : u₁ ^ 2 ≠ 1 := by
    intro hSq
    have hv := v_ne_zero_of_sq_eq_one h₁ hSq
    have hDenominator : 2 * M.B * v₁ ≠ 0 :=
      mul_ne_zero (mul_ne_zero M.two_ne_zero M.B_ne_zero) hv
    have hl := div_mul_cancel₀ (3 * u₁ ^ 2 + 2 * M.A * u₁ + 1) hDenominator
    obtain ⟨hTwiceCurve, hTwice⟩ := add_self_of_v_ne h₁ hv hl
    have hDifference : Point.affine u₁ v₁ h₁ - .affine u₁ (-v₁) h₁' =
        .affine u₁ v₁ h₁ + .affine u₁ v₁ h₁ := by
      rw [sub_eq_add_neg, ← neg_affine h₁, neg_neg]
    unfold DifferBy at hD
    rw [hDifference, hTwice] at hD
    have hZero := double_u h₁ hl
    rw [u_eq_of_eq_or_eq_neg hD, hSq, sub_self, zero_pow (by decide)] at hZero
    exact mul_ne_zero hu (mul_ne_zero (mul_ne_zero M.four_ne_zero' M.B_ne_zero)
      (pow_ne_zero 2 hv)) hZero
  have hFactor : u₁ * Z₂ * (u₁ * Z₃) - Z₂ * Z₃ = (u₁ ^ 2 - 1) * (Z₂ * Z₃) := by ring
  rw [hFactor]
  exact mul_ne_zero M.four_ne_zero'
    (pow_ne_zero 2 (mul_ne_zero (sub_ne_zero.mpr hSq) (mul_ne_zero hZ₂ hZ₃)))

theorem differentialAdd_chord {u v u₁ v₁ u₂ v₂ Z₂ Z₃ : F} (hBase : M.OnCurve u v) (hu : u ≠ 0)
    (h₁ : M.OnCurve u₁ v₁) (h₂ : M.OnCurve u₂ v₂) (hne : u₁ ≠ u₂)
    (hD : DifferBy (.affine u v hBase) (.affine u₁ v₁ h₁) (.affine u₂ v₂ h₂))
    (hZ₂ : Z₂ ≠ 0) (hZ₃ : Z₃ ≠ 0) :
    M.Represents (4 * (u₁ * Z₂ * (u₂ * Z₃) - Z₂ * Z₃) ^ 2)
      (4 * u * (u₂ * Z₃ * Z₂ - u₁ * Z₂ * Z₃) ^ 2)
      (.affine u₁ v₁ h₁ + .affine u₂ v₂ h₂) := by
  have hDifference : u₁ - u₂ ≠ 0 := sub_ne_zero.mpr hne
  have hl := div_mul_cancel₀ (v₁ - v₂) hDifference
  have hm := div_mul_cancel₀ (v₁ + v₂) hDifference
  obtain ⟨_, hSum⟩ := add_of_u_ne h₁ h₂ hne hl
  obtain ⟨_, hSub⟩ := add_of_u_ne h₁ (onCurve_neg h₂) hne (by rw [hm, sub_neg_eq_add])
  unfold DifferBy at hD
  rw [sub_eq_add_neg, neg_affine, hSub] at hD
  have hProduct := sum_u_mul_difference_u h₁ h₂ hl hm hne
  rw [u_eq_of_eq_or_eq_neg hD] at hProduct
  rw [hSum, represents_affine]
  constructor
  · have hFactor : u₂ * Z₃ * Z₂ - u₁ * Z₂ * Z₃ = -((u₁ - u₂) * (Z₂ * Z₃)) := by ring
    rw [hFactor, neg_sq]
    exact mul_ne_zero (mul_ne_zero M.four_ne_zero' hu)
      (pow_ne_zero 2 (mul_ne_zero hDifference (mul_ne_zero hZ₂ hZ₃)))
  · linear_combination -4 * (Z₂ * Z₃) ^ 2 * hProduct

theorem Represents.differentialAdd {u v X₂ Z₂ X₃ Z₃ : F} {P Q : M.Point}
    (hBase : M.OnCurve u v) (hu : u ≠ 0) (hD : DifferBy (.affine u v hBase) P Q)
    (hP : M.Represents X₂ Z₂ P) (hQ : M.Represents X₃ Z₃ Q) :
    M.Represents (differentialAdd u X₂ Z₂ X₃ Z₃).1 (differentialAdd u X₂ Z₂ X₃ Z₃).2
      (P + Q) := by
  rw [differentialAdd_fst, differentialAdd_snd]
  cases P with
  | infinity =>
    obtain ⟨hX₂, rfl⟩ := hP
    cases Q with
    | infinity =>
      unfold DifferBy at hD
      simp only [infinity_eq_zero, sub_zero, neg_affine] at hD
      cases hD with
      | inl hD =>
        exact absurd hD.symm (affine_ne_zero _)
      | inr hD =>
        exact absurd hD.symm (affine_ne_zero _)
    | affine u₂ v₂ h₂ =>
      unfold DifferBy at hD
      rw [infinity_eq_zero, zero_sub, neg_affine] at hD
      obtain rfl := u_eq_of_eq_or_eq_neg hD
      obtain ⟨hZ₃, rfl⟩ := hQ
      rw [infinity_eq_zero, zero_add, represents_affine]
      refine ⟨mul_ne_zero (mul_ne_zero M.four_ne_zero' hu) (pow_ne_zero 2 ?_), by ring⟩
      rw [mul_zero, zero_sub]
      exact neg_ne_zero.mpr (mul_ne_zero hX₂ hZ₃)
  | affine u₁ v₁ h₁ =>
    obtain ⟨hZ₂, rfl⟩ := hP
    cases Q with
    | infinity =>
      obtain ⟨hX₃, rfl⟩ := hQ
      unfold DifferBy at hD
      rw [infinity_eq_zero, sub_zero] at hD
      obtain rfl := u_eq_of_eq_or_eq_neg hD
      rw [infinity_eq_zero, add_zero, represents_affine]
      refine ⟨mul_ne_zero (mul_ne_zero M.four_ne_zero' hu) (pow_ne_zero 2 ?_), by ring⟩
      rw [mul_zero, sub_zero]
      exact mul_ne_zero hX₃ hZ₂
    | affine u₂ v₂ h₂ =>
      obtain ⟨hZ₃, rfl⟩ := hQ
      by_cases hne : u₁ = u₂
      · subst hne
        rcases v_eq_or_eq_neg h₂ h₁ with rfl | rfl
        · unfold DifferBy at hD
          simp only [sub_self, neg_affine] at hD
          cases hD with
          | inl hD =>
            exact absurd hD.symm (affine_ne_zero _)
          | inr hD =>
            exact absurd hD.symm (affine_ne_zero _)
        · exact differentialAdd_opposite hBase hu h₁ h₂ hD hZ₂ hZ₃
      · exact differentialAdd_chord hBase hu h₁ h₂ hne hD hZ₂ hZ₃

end MontgomeryCurve
