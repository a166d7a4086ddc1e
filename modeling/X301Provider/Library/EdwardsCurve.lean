import X301Provider.Library.MontgomeryCurve

/-!
# Complete twisted Edwards curves

On `a * x ^ 2 + y ^ 2 = 1 + d * x ^ 2 * y ^ 2` with `a` a square and `d` a
nonsquare, the denominators of the addition law never vanish. The group laws
are pulled back along the birational map to the Montgomery curve with
coefficient `2 * (a + d) / (a - d)`.
-/

/-- Parameters for which the addition law is complete. -/
structure EdwardsCurve (F : Type*) [Field F] where
  a : F
  d : F
  rootA : F
  rootA_sq : rootA ^ 2 = a
  a_ne_zero : a ≠ 0
  d_nonsquare : ¬IsSquare d
  two_ne_zero : (2 : F) ≠ 0

namespace EdwardsCurve

variable {F : Type*} [Field F]

def OnCurve (E : EdwardsCurve F) (x y : F) : Prop :=
  E.a * x ^ 2 + y ^ 2 = 1 + E.d * x ^ 2 * y ^ 2

/-- Affine points; there are no points at infinity. -/
@[ext] structure Point (E : EdwardsCurve F) where
  x : F
  y : F
  onCurve : E.OnCurve x y

variable {E : EdwardsCurve F}

instance [DecidableEq F] : DecidableEq E.Point := fun P Q =>
  decidable_of_iff (P.x = Q.x ∧ P.y = Q.y)
    ⟨fun h => Point.ext h.1 h.2, fun h => ⟨congrArg Point.x h, congrArg Point.y h⟩⟩

theorem a_ne_d (E : EdwardsCurve F) : E.a ≠ E.d := by
  intro hEq
  exact E.d_nonsquare ⟨E.rootA, by rw [← hEq, ← E.rootA_sq, sq]⟩

theorem d_ne_zero (E : EdwardsCurve F) : E.d ≠ 0 := by
  intro hZero
  exact E.d_nonsquare (hZero ▸ IsSquare.zero)

theorem a_sub_d_ne_zero (E : EdwardsCurve F) : E.a - E.d ≠ 0 :=
  sub_ne_zero.mpr E.a_ne_d

/-- Two quotients with the given square `d` exclude each other. -/
theorem isSquare_of_mul_sq {s t : F} (h : t ^ 2 = E.d * s ^ 2) (hs : s ≠ 0) : False := by
  apply E.d_nonsquare
  refine ⟨t / s, ?_⟩
  rw [← sq, div_pow, h, mul_div_cancel_right₀ _ (pow_ne_zero 2 hs)]

/-- Completeness: the product in the denominators is never `1` or `-1`. -/
theorem product_sq_ne_one {x₁ y₁ x₂ y₂ : F} (h₁ : E.OnCurve x₁ y₁) (h₂ : E.OnCurve x₂ y₂) :
    (E.d * x₁ * x₂ * y₁ * y₂) ^ 2 ≠ 1 := by
  intro hOne
  set e := E.d * x₁ * x₂ * y₁ * y₂ with he
  have hNonzero : e ≠ 0 := by
    intro hZero
    rw [hZero] at hOne
    simp at hOne
  have hFactors : x₁ ≠ 0 ∧ y₁ ≠ 0 ∧ y₂ ≠ 0 := by
    refine ⟨?_, ?_, ?_⟩ <;> rintro rfl <;> exact hNonzero (by simp [he])
  obtain ⟨hx₁, hy₁, hy₂⟩ := hFactors
  have hRoot := E.rootA_sq
  unfold OnCurve at h₁ h₂
  have hPlus : (E.rootA * x₁ + e * y₁) ^ 2 = E.d * (x₁ * y₁ * (E.rootA * x₂ + y₂)) ^ 2 := by
    linear_combination (x₁ ^ 2 - E.d * x₁ ^ 2 * y₁ ^ 2 * x₂ ^ 2) * hRoot + h₁ -
      E.d * x₁ ^ 2 * y₁ ^ 2 * h₂ + (y₁ ^ 2 - 1) * hOne +
      2 * E.rootA * x₁ * y₁ * he
  have hMinus : (E.rootA * x₁ - e * y₁) ^ 2 = E.d * (x₁ * y₁ * (E.rootA * x₂ - y₂)) ^ 2 := by
    linear_combination (x₁ ^ 2 - E.d * x₁ ^ 2 * y₁ ^ 2 * x₂ ^ 2) * hRoot + h₁ -
      E.d * x₁ ^ 2 * y₁ ^ 2 * h₂ + (y₁ ^ 2 - 1) * hOne -
      2 * E.rootA * x₁ * y₁ * he
  have hxy := mul_ne_zero hx₁ hy₁
  by_cases hSum : E.rootA * x₂ + y₂ = 0
  · by_cases hDifference : E.rootA * x₂ - y₂ = 0
    · have hTwice : 2 * y₂ = 0 := by linear_combination hSum - hDifference
      exact hy₂ ((mul_eq_zero.mp hTwice).resolve_left E.two_ne_zero)
    · exact isSquare_of_mul_sq hMinus (mul_ne_zero hxy hDifference)
  · exact isSquare_of_mul_sq hPlus (mul_ne_zero hxy hSum)

theorem one_add_product_ne_zero {x₁ y₁ x₂ y₂ : F} (h₁ : E.OnCurve x₁ y₁)
    (h₂ : E.OnCurve x₂ y₂) : 1 + E.d * x₁ * x₂ * y₁ * y₂ ≠ 0 := by
  intro hZero
  apply product_sq_ne_one h₁ h₂
  linear_combination (E.d * x₁ * x₂ * y₁ * y₂ - 1) * hZero

theorem one_sub_product_ne_zero {x₁ y₁ x₂ y₂ : F} (h₁ : E.OnCurve x₁ y₁)
    (h₂ : E.OnCurve x₂ y₂) : 1 - E.d * x₁ * x₂ * y₁ * y₂ ≠ 0 := by
  intro hZero
  apply product_sq_ne_one h₁ h₂
  linear_combination -(E.d * x₁ * x₂ * y₁ * y₂ + 1) * hZero

/-- The first coordinate of a sum. -/
def addX (E : EdwardsCurve F) (x₁ y₁ x₂ y₂ : F) : F :=
  (x₁ * y₂ + y₁ * x₂) / (1 + E.d * x₁ * x₂ * y₁ * y₂)

/-- The second coordinate of a sum. -/
def addY (E : EdwardsCurve F) (x₁ y₁ x₂ y₂ : F) : F :=
  (y₁ * y₂ - E.a * x₁ * x₂) / (1 - E.d * x₁ * x₂ * y₁ * y₂)

theorem addX_mul {x₁ y₁ x₂ y₂ : F} (h₁ : E.OnCurve x₁ y₁) (h₂ : E.OnCurve x₂ y₂) :
    E.addX x₁ y₁ x₂ y₂ * (1 + E.d * x₁ * x₂ * y₁ * y₂) = x₁ * y₂ + y₁ * x₂ :=
  div_mul_cancel₀ _ (one_add_product_ne_zero h₁ h₂)

theorem addY_mul {x₁ y₁ x₂ y₂ : F} (h₁ : E.OnCurve x₁ y₁) (h₂ : E.OnCurve x₂ y₂) :
    E.addY x₁ y₁ x₂ y₂ * (1 - E.d * x₁ * x₂ * y₁ * y₂) = y₁ * y₂ - E.a * x₁ * x₂ :=
  div_mul_cancel₀ _ (one_sub_product_ne_zero h₁ h₂)

theorem onCurve_add {x₁ y₁ x₂ y₂ : F} (h₁ : E.OnCurve x₁ y₁) (h₂ : E.OnCurve x₂ y₂) :
    E.OnCurve (E.addX x₁ y₁ x₂ y₂) (E.addY x₁ y₁ x₂ y₂) := by
  have hPlus := one_add_product_ne_zero h₁ h₂
  have hMinus := one_sub_product_ne_zero h₁ h₂
  have hx := addX_mul h₁ h₂
  have hy := addY_mul h₁ h₂
  set x := E.addX x₁ y₁ x₂ y₂
  set y := E.addY x₁ y₁ x₂ y₂
  set p := 1 + E.d * x₁ * x₂ * y₁ * y₂ with hp
  set m := 1 - E.d * x₁ * x₂ * y₁ * y₂ with hm
  have hScaled : E.a * (x₁ * y₂ + y₁ * x₂) ^ 2 * m ^ 2 + (y₁ * y₂ - E.a * x₁ * x₂) ^ 2 * p ^ 2 =
      p ^ 2 * m ^ 2 + E.d * (x₁ * y₂ + y₁ * x₂) ^ 2 * (y₁ * y₂ - E.a * x₁ * x₂) ^ 2 := by
    unfold OnCurve at h₁ h₂
    rw [hp, hm]
    linear_combination
      (E.a * E.d ^ 2 * x₁ ^ 2 * x₂ ^ 4 * y₁ ^ 2 * y₂ ^ 2 +
        E.d ^ 2 * x₁ ^ 2 * x₂ ^ 2 * y₁ ^ 2 * y₂ ^ 4 -
        E.d ^ 2 * x₁ ^ 2 * x₂ ^ 2 * y₁ ^ 2 * y₂ ^ 2 + E.d ^ 2 * x₂ ^ 4 * y₁ ^ 2 * y₂ ^ 2 -
        E.a * E.d * x₁ ^ 2 * x₂ ^ 2 * y₂ ^ 2 - E.a * E.d * x₂ ^ 4 * y₁ ^ 2 -
        2 * E.d * x₂ ^ 2 * y₁ ^ 2 * y₂ ^ 2 + E.d * x₂ ^ 2 * y₁ ^ 2 - E.d * x₂ ^ 2 * y₂ ^ 2 +
        E.a * x₂ ^ 2 + y₂ ^ 2) * h₁ +
      (E.d ^ 3 * x₁ ^ 4 * x₂ ^ 2 * y₁ ^ 4 * y₂ ^ 2 - E.d ^ 2 * x₁ ^ 2 * x₂ ^ 2 * y₁ ^ 4 -
        E.d * x₁ ^ 2 * y₁ ^ 2 * y₂ ^ 2 + E.d * x₂ ^ 2 * y₁ ^ 4 - E.d * x₂ ^ 2 * y₁ ^ 2 + 1) * h₂
  apply mul_right_cancel₀ (pow_ne_zero 2 (mul_ne_zero hPlus hMinus))
  rw [← hx, ← hy] at hScaled
  linear_combination hScaled

theorem onCurve_neg {x y : F} (h : E.OnCurve x y) : E.OnCurve (-x) y := by
  unfold OnCurve at *
  rw [neg_sq, h]

theorem onCurve_identity (E : EdwardsCurve F) : E.OnCurve 0 1 := by
  simp [OnCurve]

instance : Zero E.Point := ⟨⟨0, 1, E.onCurve_identity⟩⟩

instance : Add E.Point := ⟨fun P Q => ⟨_, _, onCurve_add P.onCurve Q.onCurve⟩⟩

instance : Neg E.Point := ⟨fun P => ⟨-P.x, P.y, onCurve_neg P.onCurve⟩⟩

@[simp] theorem zero_x : (0 : E.Point).x = 0 := rfl
@[simp] theorem zero_y : (0 : E.Point).y = 1 := rfl
@[simp] theorem neg_x (P : E.Point) : (-P).x = -P.x := rfl
@[simp] theorem neg_y (P : E.Point) : (-P).y = P.y := rfl
theorem add_x (P Q : E.Point) : (P + Q).x = E.addX P.x P.y Q.x Q.y := rfl
theorem add_y (P Q : E.Point) : (P + Q).y = E.addY P.x P.y Q.x Q.y := rfl

end EdwardsCurve
