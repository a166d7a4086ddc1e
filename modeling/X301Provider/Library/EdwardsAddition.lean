import X301Provider.Library.EdwardsMontgomery

/-!
# Tangents and chords under the birational map

The tangent and chord of two Montgomery points give the image of the complete
Edwards sum. Each lemma clears the denominators of one coordinate.
-/

namespace EdwardsCurve

variable {F : Type*} [Field F] {E : EdwardsCurve F}

/-- The slope of the tangent at a point, cleared of denominators. -/
theorem tangent_slope {x y u v l : F} (h : E.OnCurve x y) (hx : x ≠ 0)
    (hu : u * (1 - y) = 1 + y) (hv : v * x = u)
    (hl : l * (2 * E.montgomery.B * v) = 3 * u ^ 2 + 2 * E.montgomery.A * u + 1) :
    l * (2 * (1 - y ^ 2)) = x * (2 * E.a + (E.a - E.d) * y - 2 * E.d * y ^ 2) := by
  have hA := E.montgomery_A_mul
  have hB := E.montgomery_B_mul
  have hy := one_sub_y_ne_zero h hx
  have hScaled : l * (8 * v) = (E.a - E.d) * (3 * u ^ 2 + 1) + 4 * (E.a + E.d) * u := by
    linear_combination (E.a - E.d) * hl - 2 * l * v * hB + 2 * u * hA
  have hFour := mul_ne_zero E.two_ne_zero E.two_ne_zero
  norm_num at hFour
  apply mul_left_cancel₀ hFour
  calc 4 * (l * (2 * (1 - y ^ 2)))
      = l * (8 * (v * x)) * (1 - y) ^ 2 := by rw [hv]; linear_combination -8 * l * (1 - y) * hu
    _ = l * (8 * v) * x * (1 - y) ^ 2 := by ring
    _ = ((E.a - E.d) * (3 * (u * (1 - y)) ^ 2 + (1 - y) ^ 2) +
          4 * (E.a + E.d) * (u * (1 - y)) * (1 - y)) * x := by rw [hScaled]; ring
    _ = 4 * (x * (2 * E.a + (E.a - E.d) * y - 2 * E.d * y ^ 2)) := by rw [hu]; ring

theorem tangent_u {x y u v T : F} (h : E.OnCurve x y) (hx : x ≠ 0)
    (hu : u * (1 - y) = 1 + y) (hv : v * x = u)
    (hT : T * (4 * E.montgomery.B * v ^ 2) = (u ^ 2 - 1) ^ 2) :
    T * (1 - y ^ 2) = 1 - E.a * x ^ 2 := by
  have hB := E.montgomery_B_mul
  have hSixteen := pow_ne_zero 4 E.two_ne_zero
  norm_num at hSixteen
  have hy : 1 - y ^ 2 ≠ 0 := sub_ne_zero.mpr (sq_y_ne_one h hx).symm
  have hScaled : T * (16 * (v * x) ^ 2) = (E.a - E.d) * x ^ 2 * (u ^ 2 - 1) ^ 2 := by
    linear_combination (E.a - E.d) * x ^ 2 * hT - 4 * T * (v * x) ^ 2 * hB
  have hDifference : (u ^ 2 - 1) * (1 - y) ^ 2 = 4 * y := by
    linear_combination (u * (1 - y) + (1 + y)) * hu
  have hSquare : 16 * (T * (1 - y ^ 2) ^ 2) = 16 * ((E.a - E.d) * x ^ 2 * y ^ 2) :=
    calc 16 * (T * (1 - y ^ 2) ^ 2)
        = T * (16 * (u * (1 - y)) ^ 2) * (1 - y) ^ 2 := by rw [hu]; ring
      _ = T * (16 * (v * x) ^ 2) * (1 - y) ^ 4 := by rw [hv]; ring
      _ = (E.a - E.d) * x ^ 2 * ((u ^ 2 - 1) * (1 - y) ^ 2) ^ 2 := by rw [hScaled]; ring
      _ = 16 * ((E.a - E.d) * x ^ 2 * y ^ 2) := by rw [hDifference]; ring
  have hReduced := mul_left_cancel₀ hSixteen hSquare
  unfold OnCurve at h
  apply mul_right_cancel₀ hy
  linear_combination hReduced + h

theorem tangent_v {x y x₃ u v l T : F} (h : E.OnCurve x y) (hx : x ≠ 0)
    (hu : u * (1 - y) = 1 + y) (hv : v * x = u)
    (hl : l * (2 * (1 - y ^ 2)) = x * (2 * E.a + (E.a - E.d) * y - 2 * E.d * y ^ 2))
    (hT : T * (1 - y ^ 2) = 1 - E.a * x ^ 2)
    (hx₃ : x₃ * (1 + E.d * x ^ 2 * y ^ 2) = 2 * x * y) (hne : 1 + E.d * x ^ 2 * y ^ 2 ≠ 0) :
    (l * (u - T) - v) * x₃ = T := by
  have hy : 1 - y ^ 2 ≠ 0 := sub_ne_zero.mpr (sq_y_ne_one h hx).symm
  unfold OnCurve at h
  have huD : u * (1 - y ^ 2) = (1 + y) ^ 2 := by linear_combination (1 + y) * hu
  have hSlope : x ^ 2 * y * (2 * E.a + (E.a - E.d) * y - 2 * E.d * y ^ 2) =
      (1 - y ^ 2) * (2 * y + 1 - E.a * x ^ 2) := by
    linear_combination (2 * y + 1) * h
  apply mul_right_cancel₀ (mul_ne_zero hne (pow_ne_zero 2 hy))
  calc (l * (u - T) - v) * x₃ * ((1 + E.d * x ^ 2 * y ^ 2) * (1 - y ^ 2) ^ 2)
      = (l * (u - T) - v) * (x₃ * (1 + E.d * x ^ 2 * y ^ 2)) * (1 - y ^ 2) ^ 2 := by ring
    _ = x * y * (l * (2 * (1 - y ^ 2))) * (u * (1 - y ^ 2) - T * (1 - y ^ 2)) -
          2 * y * (v * x) * (1 - y ^ 2) ^ 2 := by rw [hx₃]; ring
    _ = x ^ 2 * y * (2 * E.a + (E.a - E.d) * y - 2 * E.d * y ^ 2) *
          ((1 + y) ^ 2 - (1 - E.a * x ^ 2)) - 2 * y * (u * (1 - y ^ 2)) * (1 - y ^ 2) := by
        rw [hl, huD, hT, hv]; linear_combination (-2 * y * (1 - y ^ 2)) * huD
    _ = (1 - y ^ 2) * (2 * y + 1 - E.a * x ^ 2) * ((1 + y) ^ 2 - (1 - E.a * x ^ 2)) -
          2 * y * (1 + y) ^ 2 * (1 - y ^ 2) := by rw [hSlope, huD]
    _ = T * (1 - y ^ 2) * ((1 + E.d * x ^ 2 * y ^ 2) * (1 - y ^ 2)) := by
        rw [hT]; linear_combination (1 - E.a * x ^ 2) * (1 - y ^ 2) * h
    _ = T * ((1 + E.d * x ^ 2 * y ^ 2) * (1 - y ^ 2) ^ 2) := by ring

section Chord

variable {x₁ y₁ x₂ y₂ u₁ v₁ u₂ v₂ l : F}

theorem chord_slope (hu₁ : u₁ * (1 - y₁) = 1 + y₁) (hv₁ : v₁ * x₁ = u₁)
    (hu₂ : u₂ * (1 - y₂) = 1 + y₂) (hv₂ : v₂ * x₂ = u₂) (hl : l * (u₁ - u₂) = v₁ - v₂) :
    l * (2 * (y₁ - y₂) * x₁ * x₂) =
      (1 + y₁) * (1 - y₂) * x₂ - (1 + y₂) * (1 - y₁) * x₁ := by
  calc l * (2 * (y₁ - y₂) * x₁ * x₂)
      = l * ((1 + y₁) * (1 - y₂) - (1 + y₂) * (1 - y₁)) * x₁ * x₂ := by ring
    _ = l * (u₁ - u₂) * ((1 - y₁) * (1 - y₂) * x₁ * x₂) := by rw [← hu₁, ← hu₂]; ring
    _ = (v₁ * x₁) * (1 - y₁) * (1 - y₂) * x₂ - (v₂ * x₂) * (1 - y₂) * (1 - y₁) * x₁ := by
        rw [hl]; ring
    _ = (1 + y₁) * (1 - y₂) * x₂ - (1 + y₂) * (1 - y₁) * x₁ := by rw [hv₁, hv₂, hu₁, hu₂]

theorem chord_u_scaled {T : F} (h₁ : E.OnCurve x₁ y₁) (h₂ : E.OnCurve x₂ y₂) (hx₁ : x₁ ≠ 0)
    (hx₂ : x₂ ≠ 0) (hu₁ : u₁ * (1 - y₁) = 1 + y₁) (hu₂ : u₂ * (1 - y₂) = 1 + y₂)
    (hl : l * (2 * (y₁ - y₂) * x₁ * x₂) =
      (1 + y₁) * (1 - y₂) * x₂ - (1 + y₂) * (1 - y₁) * x₁)
    (hT : T = E.montgomery.B * l ^ 2 - E.montgomery.A - u₁ - u₂) :
    T * ((E.a - E.d) * (y₁ - y₂) ^ 2) =
      (E.a - E.d * y₁ ^ 2) * (E.a - E.d * y₂ ^ 2) * (x₂ - x₁) ^ 2 := by
  have hA := E.montgomery_A_mul
  have hB := E.montgomery_B_mul
  have hy₁ := one_sub_y_ne_zero h₁ hx₁
  have hy₂ := one_sub_y_ne_zero h₂ hx₂
  unfold OnCurve at h₁ h₂
  set N := (1 + y₁) * (1 - y₂) * x₂ - (1 + y₂) * (1 - y₁) * x₁ with hN
  have hSquare : 4 * l ^ 2 * (y₁ - y₂) ^ 2 * x₁ ^ 2 * x₂ ^ 2 = N ^ 2 := by
    rw [← hl]
    ring
  have hLeft : T * ((E.a - E.d) * (y₁ - y₂) ^ 2) * (x₁ ^ 2 * x₂ ^ 2 * (1 - y₁) * (1 - y₂)) =
      N ^ 2 * (1 - y₁) * (1 - y₂) - (2 * (E.a + E.d) * (1 - y₁) * (1 - y₂) +
        (E.a - E.d) * ((1 + y₁) * (1 - y₂) + (1 + y₂) * (1 - y₁))) *
        (y₁ - y₂) ^ 2 * x₁ ^ 2 * x₂ ^ 2 := by
    rw [← hSquare, ← hA, ← hB, ← hu₁, ← hu₂, hT]
    ring
  have hFirst : (E.a - E.d * y₁ ^ 2) * x₁ ^ 2 = 1 - y₁ ^ 2 := by linear_combination h₁
  have hSecond : (E.a - E.d * y₂ ^ 2) * x₂ ^ 2 = 1 - y₂ ^ 2 := by linear_combination h₂
  apply mul_right_cancel₀ (mul_ne_zero (mul_ne_zero
    (mul_ne_zero (pow_ne_zero 2 hx₁) (pow_ne_zero 2 hx₂)) hy₁) hy₂)
  rw [hLeft]
  calc _ = (1 - y₁ ^ 2) * (1 - y₂ ^ 2) * (x₂ - x₁) ^ 2 * (1 - y₁) * (1 - y₂) := by
        rw [hN]
        linear_combination
          (4 * x₂ ^ 2 * y₁ * y₂ - 8 * x₂ ^ 2 * y₂ ^ 2 - 2 * x₂ ^ 2 * y₁ + 2 * x₂ ^ 2 * y₂ +
            (-2 * y₁ + 2 * y₂ + 4) * x₂ ^ 2 * y₂ ^ 2) * h₁ +
          (4 * x₁ ^ 2 * y₁ * y₂ + 2 * x₁ ^ 2 * y₁ - 2 * x₁ ^ 2 * y₂ -
            (-2 * y₁ + 2 * y₂ + 4) * x₁ ^ 2 * y₁ ^ 2) * h₂
    _ = _ := by
        rw [← hFirst, ← hSecond]
        ring

theorem chord_u {y₃ T : F} (h₁ : E.OnCurve x₁ y₁) (h₂ : E.OnCurve x₂ y₂) (hne : y₁ ≠ y₂)
    (hT : T * ((E.a - E.d) * (y₁ - y₂) ^ 2) =
      (E.a - E.d * y₁ ^ 2) * (E.a - E.d * y₂ ^ 2) * (x₂ - x₁) ^ 2)
    (hy₃ : y₃ * (1 - E.d * x₁ * x₂ * y₁ * y₂) = y₁ * y₂ - E.a * x₁ * x₂) :
    T * (1 - y₃) = 1 + y₃ := by
  have hMinus := one_sub_product_ne_zero h₁ h₂
  have hScale := mul_ne_zero E.a_sub_d_ne_zero (pow_ne_zero 2 (sub_ne_zero.mpr hne))
  unfold OnCurve at h₁ h₂
  set m := 1 - E.d * x₁ * x₂ * y₁ * y₂ with hm
  set Y := y₁ * y₂ - E.a * x₁ * x₂ with hY
  have hCleared : (E.a - E.d * y₁ ^ 2) * (E.a - E.d * y₂ ^ 2) * (x₂ - x₁) ^ 2 * (m - Y) =
      (E.a - E.d) * (y₁ - y₂) ^ 2 * (m + Y) := by
    rw [hm, hY]
    linear_combination
      (E.d ^ 2 * x₁ * x₂ * y₁ * y₂ ^ 3 - 2 * E.d ^ 2 * x₂ ^ 2 * y₁ * y₂ ^ 3 -
        E.a * E.d * x₁ * x₂ * y₁ * y₂ - E.a * E.d * x₁ * x₂ * y₂ ^ 2 +
        2 * E.a * E.d * x₂ ^ 2 * y₁ * y₂ + 2 * E.a * E.d * x₂ ^ 2 * y₂ ^ 2 +
        E.d * y₁ * y₂ ^ 3 + E.a ^ 2 * x₁ * x₂ - 2 * E.a ^ 2 * x₂ ^ 2 - E.a * y₁ * y₂ -
        E.d * y₂ ^ 2 + E.a) * h₁ +
      (E.d ^ 2 * x₁ * x₂ * y₁ ^ 3 * y₂ - E.a * E.d * x₁ * x₂ * y₁ * y₂ -
        E.a * E.d * x₁ * x₂ * y₁ ^ 2 - E.d * y₁ ^ 3 * y₂ + E.a ^ 2 * x₁ * x₂ -
        E.a * y₁ * y₂ + 2 * E.a * y₁ ^ 2 + 2 * E.d * y₁ * y₂ - E.d * y₁ ^ 2 - E.a) * h₂
  apply mul_right_cancel₀ (mul_ne_zero hScale hMinus)
  calc T * (1 - y₃) * ((E.a - E.d) * (y₁ - y₂) ^ 2 * m)
      = T * ((E.a - E.d) * (y₁ - y₂) ^ 2) * (m - y₃ * m) := by ring
    _ = (E.a - E.d) * (y₁ - y₂) ^ 2 * (m + Y) := by rw [hT, hy₃, hCleared]
    _ = (1 + y₃) * ((E.a - E.d) * (y₁ - y₂) ^ 2 * m) := by rw [← hy₃]; ring

theorem chord_v {x₃ y₃ T : F} (h₁ : E.OnCurve x₁ y₁) (h₂ : E.OnCurve x₂ y₂) (hx₁ : x₁ ≠ 0)
    (hx₂ : x₂ ≠ 0) (hu₁ : u₁ * (1 - y₁) = 1 + y₁) (hv₁ : v₁ * x₁ = u₁)
    (hu₂ : u₂ * (1 - y₂) = 1 + y₂) (hv₂ : v₂ * x₂ = u₂) (hl : l * (u₁ - u₂) = v₁ - v₂)
    (hu : u₁ ≠ u₂) (hT : T * (1 - y₃) = 1 + y₃)
    (hx₃ : x₃ * (1 + E.d * x₁ * x₂ * y₁ * y₂) = x₁ * y₂ + y₁ * x₂)
    (hy₃ : y₃ * (1 - E.d * x₁ * x₂ * y₁ * y₂) = y₁ * y₂ - E.a * x₁ * x₂) :
    (l * (u₁ - T) - v₁) * x₃ = T := by
  have hPlus := one_add_product_ne_zero h₁ h₂
  have hMinus := one_sub_product_ne_zero h₁ h₂
  have hy₁ := one_sub_y_ne_zero h₁ hx₁
  have hy₂ := one_sub_y_ne_zero h₂ hx₂
  have hy : 1 - y₃ ≠ 0 := by
    intro hZero
    apply E.two_ne_zero
    linear_combination (T + 1) * hZero - hT
  unfold OnCurve at h₁ h₂
  set p := 1 + E.d * x₁ * x₂ * y₁ * y₂ with hp
  set m := 1 - E.d * x₁ * x₂ * y₁ * y₂ with hm
  set X := x₁ * y₂ + y₁ * x₂ with hX
  set Y := y₁ * y₂ - E.a * x₁ * x₂ with hY
  -- The rows `(x, 1 + y, x * y)` of the two points and of the reflected sum are dependent.
  have hDeterminant : x₁ * (-(1 + y₂) * (X * Y) - x₂ * y₂ * (p * (m + Y))) -
      (1 + y₁) * (-x₂ * (X * Y) + x₂ * y₂ * (X * m)) +
      x₁ * y₁ * (x₂ * (p * (m + Y)) + (1 + y₂) * (X * m)) = 0 := by
    rw [hp, hm, hX, hY]
    linear_combination
      (E.d * x₁ * x₂ ^ 3 * y₁ * y₂ ^ 2 - E.d * x₁ * x₂ ^ 3 * y₂ ^ 3 + E.a * x₁ * x₂ ^ 3 * y₂ +
        x₁ * x₂ * y₂ ^ 3 + x₁ * x₂ * y₂ ^ 2 + x₂ ^ 2 * y₁ * y₂) * h₁ +
      (-E.a * x₁ ^ 3 * x₂ * y₂ - x₁ * x₂ * y₁ ^ 2 * y₂ - x₁ * x₂ * y₁ ^ 2 -
        x₁ ^ 2 * y₁ * y₂ - x₁ * x₂ * y₁ + x₁ * x₂ * y₂) * h₂
  have hLine : T * (u₁ - u₂) = x₃ * (v₁ * u₂ - u₁ * v₂ - (v₁ - v₂) * T) := by
    set w₁ := x₁ * (1 - y₁) with hw₁
    set w₂ := x₂ * (1 - y₂) with hw₂
    have hU₁ : u₁ * w₁ = x₁ * (1 + y₁) := by linear_combination x₁ * hu₁
    have hU₂ : u₂ * w₂ = x₂ * (1 + y₂) := by linear_combination x₂ * hu₂
    have hV₁ : v₁ * w₁ = 1 + y₁ := by linear_combination (1 - y₁) * hv₁ + hu₁
    have hV₂ : v₂ * w₂ = 1 + y₂ := by linear_combination (1 - y₂) * hv₂ + hu₂
    have hExpanded : (T * (u₁ - u₂) - x₃ * (v₁ * u₂ - u₁ * v₂ - (v₁ - v₂) * T)) *
        (w₁ * w₂ * (1 - y₃)) = (1 + y₃) * (x₁ * (1 + y₁) * w₂ - x₂ * (1 + y₂) * w₁) -
          x₃ * (1 - y₃) * ((1 + y₁) * (x₂ * (1 + y₂)) - x₁ * (1 + y₁) * (1 + y₂)) +
          x₃ * (1 + y₃) * ((1 + y₁) * w₂ - (1 + y₂) * w₁) := by
      rw [← hU₁, ← hU₂, ← hV₁, ← hV₂, ← hT]
      ring
    rw [← hx₃, ← hy₃] at hDeterminant
    have hZero : (T * (u₁ - u₂) - x₃ * (v₁ * u₂ - u₁ * v₂ - (v₁ - v₂) * T)) *
        (w₁ * w₂ * (1 - y₃)) * (p * m) = 0 := by
      rw [hExpanded, hw₁, hw₂]
      linear_combination 2 * hDeterminant
    have hScale := mul_ne_zero (mul_ne_zero (mul_ne_zero (mul_ne_zero hx₁ hy₁)
      (mul_ne_zero hx₂ hy₂)) hy) (mul_ne_zero hPlus hMinus)
    rw [mul_assoc] at hZero
    exact sub_eq_zero.mp ((mul_eq_zero.mp hZero).resolve_right hScale)
  have hDifference : u₁ - u₂ ≠ 0 := sub_ne_zero.mpr hu
  apply mul_right_cancel₀ hDifference
  rw [hLine]
  linear_combination x₃ * (u₁ - T) * hl

end Chord

end EdwardsCurve
