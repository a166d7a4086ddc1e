import Mathlib.AlgebraicGeometry.EllipticCurve.Affine.Point
import Mathlib.Tactic.FieldSimp
import Mathlib.Tactic.LinearCombination

/-!
# Montgomery curves and their group

The curve `B * v ^ 2 = u ^ 3 + A * u ^ 2 + u` is carried to a Weierstrass curve
by `(u, v) ↦ (B * u, B ^ 2 * v)`. Its group is the Weierstrass group moved back
along this bijection, so the chord and tangent formulas below are theorems.
-/

/-- A nonsingular Montgomery curve over a field of odd characteristic. -/
structure MontgomeryCurve (F : Type*) [Field F] where
  A : F
  B : F
  B_ne_zero : B ≠ 0
  discriminant_ne_zero : A ^ 2 - 4 ≠ 0
  two_ne_zero : (2 : F) ≠ 0

namespace MontgomeryCurve

variable {F : Type*} [Field F]

def OnCurve (M : MontgomeryCurve F) (u v : F) : Prop :=
  M.B * v ^ 2 = u ^ 3 + M.A * u ^ 2 + u

/-- Points: infinity and the affine solutions. -/
inductive Point (M : MontgomeryCurve F)
  | infinity
  | affine (u v : F) (onCurve : M.OnCurve u v)

/-- The curve or twist with the same `A` that carries the point `(u, 1)`. -/
def through (M : MontgomeryCurve F) (u : F) (hw : u ^ 3 + M.A * u ^ 2 + u ≠ 0) :
    MontgomeryCurve F :=
  { M with B := u ^ 3 + M.A * u ^ 2 + u, B_ne_zero := hw }

theorem through_A (M : MontgomeryCurve F) (u : F) (hw : u ^ 3 + M.A * u ^ 2 + u ≠ 0) :
    (M.through u hw).A = M.A := rfl

theorem through_onCurve (M : MontgomeryCurve F) (u : F) (hw : u ^ 3 + M.A * u ^ 2 + u ≠ 0) :
    (M.through u hw).OnCurve u 1 := by
  rw [OnCurve, one_pow, mul_one]
  rfl

/-- The isomorphic Weierstrass curve. -/
def weierstrass (M : MontgomeryCurve F) : WeierstrassCurve.Affine F where
  a₁ := 0
  a₂ := M.A * M.B
  a₃ := 0
  a₄ := M.B ^ 2
  a₆ := 0

variable (M : MontgomeryCurve F)

theorem weierstrass_discriminant : M.weierstrass.Δ = 16 * M.B ^ 6 * (M.A ^ 2 - 4) := by
  simp only [weierstrass, WeierstrassCurve.Δ, WeierstrassCurve.b₂, WeierstrassCurve.b₄,
    WeierstrassCurve.b₆, WeierstrassCurve.b₈]
  ring

theorem weierstrass_discriminant_ne_zero : M.weierstrass.Δ ≠ 0 := by
  rw [weierstrass_discriminant]
  have hSixteen : (16 : F) ≠ 0 := by
    have := pow_ne_zero 4 M.two_ne_zero
    norm_num at this
    exact this
  exact mul_ne_zero (mul_ne_zero hSixteen (pow_ne_zero 6 M.B_ne_zero)) M.discriminant_ne_zero

theorem equation_iff (x y : F) :
    M.weierstrass.Equation x y ↔ y ^ 2 = x ^ 3 + M.A * M.B * x ^ 2 + M.B ^ 2 * x := by
  rw [WeierstrassCurve.Affine.equation_iff]
  simp [weierstrass]

theorem nonsingular_iff (x y : F) :
    M.weierstrass.Nonsingular x y ↔ y ^ 2 = x ^ 3 + M.A * M.B * x ^ 2 + M.B ^ 2 * x := by
  rw [← WeierstrassCurve.Affine.equation_iff_nonsingular_of_Δ_ne_zero
    M.weierstrass_discriminant_ne_zero, equation_iff]

theorem nonsingular_scale {u v : F} (h : M.OnCurve u v) :
    M.weierstrass.Nonsingular (M.B * u) (M.B ^ 2 * v) := by
  rw [nonsingular_iff]
  unfold OnCurve at h
  linear_combination M.B ^ 3 * h

theorem onCurve_unscale {x y : F} (h : M.weierstrass.Nonsingular x y) :
    M.OnCurve (x / M.B) (y / M.B ^ 2) := by
  rw [nonsingular_iff] at h
  have hB := M.B_ne_zero
  unfold OnCurve
  field_simp
  linear_combination h

/-- The coordinate change to the Weierstrass curve. -/
def toWeierstrass : M.Point → M.weierstrass.Point
  | .infinity => 0
  | .affine u v h => .some (M.B * u) (M.B ^ 2 * v) (M.nonsingular_scale h)

/-- The coordinate change back. -/
def ofWeierstrass : M.weierstrass.Point → M.Point
  | .zero => .infinity
  | .some x y h => .affine (x / M.B) (y / M.B ^ 2) (M.onCurve_unscale h)

theorem ofWeierstrass_toWeierstrass (P : M.Point) : M.ofWeierstrass (M.toWeierstrass P) = P := by
  have hB := M.B_ne_zero
  cases P with
  | infinity => rfl
  | affine u v h => simp [toWeierstrass, ofWeierstrass, hB]

theorem toWeierstrass_ofWeierstrass (P : M.weierstrass.Point) :
    M.toWeierstrass (M.ofWeierstrass P) = P := by
  have hB := M.B_ne_zero
  cases P with
  | zero => rfl
  | some x y h =>
    simp only [toWeierstrass, ofWeierstrass, WeierstrassCurve.Affine.Point.some.injEq]
    constructor <;> field_simp

/-- Points of the Montgomery curve are points of the Weierstrass curve. -/
def weierstrassEquiv : M.Point ≃ M.weierstrass.Point where
  toFun := M.toWeierstrass
  invFun := M.ofWeierstrass
  left_inv := M.ofWeierstrass_toWeierstrass
  right_inv := M.toWeierstrass_ofWeierstrass

variable {M}

theorem toWeierstrass_injective : Function.Injective M.toWeierstrass :=
  M.weierstrassEquiv.injective

theorem onCurve_neg {u v : F} (h : M.OnCurve u v) : M.OnCurve u (-v) := by
  unfold OnCurve at *
  rw [neg_sq, h]

theorem v_eq_or_eq_neg {u v w : F} (hv : M.OnCurve u v) (hw : M.OnCurve u w) : v = w ∨ v = -w := by
  have hSquare : M.B * (v ^ 2) = M.B * (w ^ 2) := hv.trans hw.symm
  exact sq_eq_sq_iff_eq_or_eq_neg.mp (mul_left_cancel₀ M.B_ne_zero hSquare)

theorem double_u {u v l : F} (h : M.OnCurve u v)
    (hl : l * (2 * M.B * v) = 3 * u ^ 2 + 2 * M.A * u + 1) :
    (M.B * l ^ 2 - M.A - u - u) * (4 * M.B * v ^ 2) = (u ^ 2 - 1) ^ 2 := by
  unfold OnCurve at h
  linear_combination (l * (2 * M.B * v) + 3 * u ^ 2 + 2 * M.A * u + 1) * hl -
    4 * (M.A + 2 * u) * h

variable [DecidableEq F]

noncomputable instance : AddCommGroup M.Point := M.weierstrassEquiv.addCommGroup

theorem toWeierstrass_neg (P : M.Point) : M.toWeierstrass (-P) = -M.toWeierstrass P :=
  M.toWeierstrass_ofWeierstrass _

theorem infinity_eq_zero : (Point.infinity : M.Point) = 0 := rfl

theorem affine_ne_zero {u v : F} (h : M.OnCurve u v) : Point.affine u v h ≠ 0 := by
  rw [← infinity_eq_zero]
  rintro ⟨⟩

theorem neg_affine {u v : F} (h : M.OnCurve u v) :
    -Point.affine u v h = .affine u (-v) (onCurve_neg h) := by
  apply toWeierstrass_injective
  rw [toWeierstrass_neg]
  simp only [toWeierstrass, WeierstrassCurve.Affine.Point.neg_some,
    WeierstrassCurve.Affine.Point.some.injEq, true_and]
  simp [weierstrass]

theorem affine_add_affine {u₁ v₁ u₂ v₂ l : F} (h₁ : M.OnCurve u₁ v₁) (h₂ : M.OnCurve u₂ v₂)
    (hne : ¬(u₁ = u₂ ∧ v₁ = -v₂))
    (hl : M.weierstrass.slope (M.B * u₁) (M.B * u₂) (M.B ^ 2 * v₁) (M.B ^ 2 * v₂) = M.B * l) :
    ∃ h, Point.affine u₁ v₁ h₁ + .affine u₂ v₂ h₂ =
      .affine (M.B * l ^ 2 - M.A - u₁ - u₂)
        (l * (u₁ - (M.B * l ^ 2 - M.A - u₁ - u₂)) - v₁) h := by
  have hB := M.B_ne_zero
  have hxy : ¬(M.B * u₁ = M.B * u₂ ∧
      M.B ^ 2 * v₁ = M.weierstrass.negY (M.B * u₂) (M.B ^ 2 * v₂)) := by
    rintro ⟨hu, hv⟩
    refine hne ⟨mul_left_cancel₀ hB hu, mul_left_cancel₀ (pow_ne_zero 2 hB) ?_⟩
    simpa [weierstrass] using hv
  have hSum : WeierstrassCurve.Affine.Point.some _ _ (M.nonsingular_scale h₁) +
      .some _ _ (M.nonsingular_scale h₂) = _ :=
    WeierstrassCurve.Affine.Point.add_some hxy
  have hBack : Point.affine u₁ v₁ h₁ + .affine u₂ v₂ h₂ = M.ofWeierstrass (.some _ _
      (WeierstrassCurve.Affine.nonsingular_add (M.nonsingular_scale h₁)
        (M.nonsingular_scale h₂) hxy)) := by
    rw [← hSum]
    rfl
  have hX : M.weierstrass.addX (M.B * u₁) (M.B * u₂) (M.B * l) / M.B =
      M.B * l ^ 2 - M.A - u₁ - u₂ := by
    simp only [WeierstrassCurve.Affine.addX, weierstrass]
    field_simp
    ring
  have hY : M.weierstrass.addY (M.B * u₁) (M.B * u₂) (M.B ^ 2 * v₁) (M.B * l) / M.B ^ 2 =
      l * (u₁ - (M.B * l ^ 2 - M.A - u₁ - u₂)) - v₁ := by
    simp only [WeierstrassCurve.Affine.addY, WeierstrassCurve.Affine.negY,
      WeierstrassCurve.Affine.negAddY, WeierstrassCurve.Affine.addX, weierstrass]
    field_simp
    ring
  rw [← hl] at hX hY
  rw [← hY, ← hX, hBack]
  exact ⟨_, rfl⟩

theorem add_of_u_ne {u₁ v₁ u₂ v₂ l : F} (h₁ : M.OnCurve u₁ v₁) (h₂ : M.OnCurve u₂ v₂)
    (hne : u₁ ≠ u₂) (hl : l * (u₁ - u₂) = v₁ - v₂) :
    ∃ h, Point.affine u₁ v₁ h₁ + .affine u₂ v₂ h₂ =
      .affine (M.B * l ^ 2 - M.A - u₁ - u₂)
        (l * (u₁ - (M.B * l ^ 2 - M.A - u₁ - u₂)) - v₁) h := by
  have hB := M.B_ne_zero
  have hDifference : u₁ - u₂ ≠ 0 := sub_ne_zero.mpr hne
  apply affine_add_affine h₁ h₂ (fun h => hne h.1)
  rw [WeierstrassCurve.Affine.slope_of_X_ne (fun h => hne (mul_left_cancel₀ hB h)),
    ← mul_sub, ← mul_sub, ← hl]
  field_simp

theorem add_self_of_v_ne {u v l : F} (h : M.OnCurve u v) (hv : v ≠ 0)
    (hl : l * (2 * M.B * v) = 3 * u ^ 2 + 2 * M.A * u + 1) :
    ∃ h', Point.affine u v h + .affine u v h =
      .affine (M.B * l ^ 2 - M.A - u - u) (l * (u - (M.B * l ^ 2 - M.A - u - u)) - v) h' := by
  have hB := M.B_ne_zero
  have hTwo := M.two_ne_zero
  have hvne : v ≠ -v := by
    intro hEq
    apply hv
    have hDouble : 2 * v = 0 := by linear_combination hEq
    exact (mul_eq_zero.mp hDouble).resolve_left hTwo
  apply affine_add_affine h h (fun h => hvne h.2)
  rw [WeierstrassCurve.Affine.slope_of_Y_ne rfl]
  · have hDenominator : M.B ^ 2 * v - M.weierstrass.negY (M.B * u) (M.B ^ 2 * v) =
        2 * M.B ^ 2 * v := by
      simp only [WeierstrassCurve.Affine.negY, weierstrass]
      ring
    rw [hDenominator, div_eq_iff (by simp [hB, hTwo, hv])]
    simp only [weierstrass]
    linear_combination -M.B ^ 2 * hl
  · simp only [WeierstrassCurve.Affine.negY, weierstrass]
    intro hEq
    exact hvne (mul_left_cancel₀ (pow_ne_zero 2 hB) (by linear_combination hEq))

theorem affine_add_neg {u v : F} (h : M.OnCurve u v) (h' : M.OnCurve u (-v)) :
    Point.affine u v h + .affine u (-v) h' = 0 := by
  rw [← neg_affine h, add_neg_cancel]

end MontgomeryCurve
