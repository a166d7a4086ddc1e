import X301Provider.Library.EdwardsGroup
import X301Provider.Library.MontgomeryLadder

/-!
# Extended coordinates

A point `(x, y)` is written `(X : Y : Z : T)` with `x = X / Z`, `y = Y / Z` and
`x * y = T / Z`. The formulas below never divide and never branch; every one of
them computes the group operation for all representable inputs.
-/

namespace EdwardsCurve

/-- Extended coordinates. -/
@[ext] structure Extended (F : Type*) where
  X : F
  Y : F
  Z : F
  T : F

/-- An affine point cached for mixed addition. -/
@[ext] structure Niels (F : Type*) where
  x : F
  y : F
  xy : F
  dt : F

variable {F : Type*} [Field F]

namespace Extended

def identity : Extended F := ⟨0, 1, 1, 0⟩

def ofAffine (x y : F) : Extended F := ⟨x, y, 1, x * y⟩

def neg (p : Extended F) : Extended F := ⟨-p.X, p.Y, p.Z, -p.T⟩

/-- The four factors of a sum and the coordinates they form. -/
def combine (cross difference sum twisted : F) : Extended F :=
  ⟨cross * difference, sum * twisted, difference * sum, cross * twisted⟩

/-- Addition of two extended points. -/
def add (a d : F) (p q : Extended F) : Extended F :=
  combine ((p.X + p.Y) * (q.X + q.Y) - (p.X * q.X + p.Y * q.Y))
    (p.Z * q.Z - d * p.T * q.T) (p.Z * q.Z + d * p.T * q.T) (p.Y * q.Y - a * (p.X * q.X))

/-- Addition of a cached affine point. -/
def addNiels (a : F) (p : Extended F) (q : Niels F) : Extended F :=
  combine ((p.X + p.Y) * q.xy - (p.X * q.x + p.Y * q.y))
    (p.Z - p.T * q.dt) (p.Z + p.T * q.dt) (p.Y * q.y - a * (p.X * q.x))

-- The numeral in the doubling refers to this instance.
local instance atLeastTwo_two : Nat.AtLeastTwo 2 := ⟨le_rfl⟩

/-- The dedicated doubling. -/
def double (a : F) (p : Extended F) : Extended F :=
  combine ((p.X + p.Y) ^ 2 - (p.X ^ 2 + p.Y ^ 2))
    (a * p.X ^ 2 + p.Y ^ 2 - 2 * p.Z ^ 2) (a * p.X ^ 2 + p.Y ^ 2) (a * p.X ^ 2 - p.Y ^ 2)

/-- The coordinates stand for the point. -/
structure Represents (E : EdwardsCurve F) (p : Extended F) (A : E.Point) : Prop where
  Z_ne_zero : p.Z ≠ 0
  X_eq : p.X = A.x * p.Z
  Y_eq : p.Y = A.y * p.Z
  T_eq : p.T = A.x * A.y * p.Z

end Extended

/-- The cached point belonging to an affine point. -/
def niels (E : EdwardsCurve F) (A : E.Point) : Niels F :=
  ⟨A.x, A.y, A.x + A.y, E.d * (A.x * A.y)⟩

theorem niels_neg (E : EdwardsCurve F) (A : E.Point) :
    niels E (-A) = ⟨-(niels E A).x, (niels E A).y, -(niels E A).x + (niels E A).y,
      -(niels E A).dt⟩ := by
  simp [niels]

theorem niels_zero (E : EdwardsCurve F) : niels E 0 = ⟨0, 1, 1, 0⟩ := by
  simp [niels]

variable {E : EdwardsCurve F} {p q : Extended F} {A B : E.Point}

namespace Extended.Represents

theorem unique (hA : p.Represents E A) (hB : p.Represents E B) : A = B := by
  ext
  · exact mul_right_cancel₀ hA.Z_ne_zero (hA.X_eq.symm.trans hB.X_eq)
  · exact mul_right_cancel₀ hA.Z_ne_zero (hA.Y_eq.symm.trans hB.Y_eq)

theorem identity : (identity : Extended F).Represents E 0 := by
  constructor <;> simp [Extended.identity]

theorem ofAffine (A : E.Point) : (ofAffine A.x A.y).Represents E A := by
  constructor <;> simp [Extended.ofAffine]

theorem neg (h : p.Represents E A) : p.neg.Represents E (-A) := by
  constructor
  · exact h.Z_ne_zero
  · simp [Extended.neg, h.X_eq]
  · simp [Extended.neg, h.Y_eq]
  · simp [Extended.neg, h.T_eq]

/-- The four factors of a sum: `cross` and `sum` share one nonzero scale, and
`difference` and `twisted` another. -/
theorem combine {cross difference sum twisted s r : F} (hs : s ≠ 0) (hr : r ≠ 0)
    (hCross : cross = s * (A.x * B.y + A.y * B.x))
    (hDifference : difference = r * (1 - E.d * A.x * B.x * A.y * B.y))
    (hSum : sum = s * (1 + E.d * A.x * B.x * A.y * B.y))
    (hTwisted : twisted = r * (A.y * B.y - E.a * A.x * B.x)) :
    (combine cross difference sum twisted).Represents E (A + B) := by
  have hPlus := one_add_product_ne_zero A.onCurve B.onCurve
  have hMinus := one_sub_product_ne_zero A.onCurve B.onCurve
  have hX := addX_mul A.onCurve B.onCurve
  have hY := addY_mul A.onCurve B.onCurve
  rw [← add_x] at hX
  rw [← add_y] at hY
  subst hCross hDifference hSum hTwisted
  constructor
  · exact mul_ne_zero (mul_ne_zero hr hMinus) (mul_ne_zero hs hPlus)
  · simp only [Extended.combine]
    rw [← hX]
    ring
  · simp only [Extended.combine]
    rw [← hY]
    ring
  · simp only [Extended.combine]
    rw [← hX, ← hY]
    ring

theorem add (hp : p.Represents E A) (hq : q.Represents E B) :
    (add E.a E.d p q).Represents E (A + B) := by
  have hZ := mul_ne_zero hp.Z_ne_zero hq.Z_ne_zero
  apply combine hZ hZ
  · rw [hp.X_eq, hp.Y_eq, hq.X_eq, hq.Y_eq]
    ring
  · rw [hp.T_eq, hq.T_eq]
    ring
  · rw [hp.T_eq, hq.T_eq]
    ring
  · rw [hp.X_eq, hp.Y_eq, hq.X_eq, hq.Y_eq]
    ring

theorem addNiels (hp : p.Represents E A) (B : E.Point) :
    (addNiels E.a p (niels E B)).Represents E (A + B) := by
  apply combine hp.Z_ne_zero hp.Z_ne_zero
  · simp only [niels]
    rw [hp.X_eq, hp.Y_eq]
    ring
  · simp only [niels]
    rw [hp.T_eq]
    ring
  · simp only [niels]
    rw [hp.T_eq]
    ring
  · simp only [niels]
    rw [hp.X_eq, hp.Y_eq]
    ring

theorem double (hp : p.Represents E A) : (double E.a p).Represents E (A + A) := by
  have hCurve := A.onCurve
  unfold OnCurve at hCurve
  have hZ := pow_ne_zero 2 hp.Z_ne_zero
  apply combine hZ (neg_ne_zero.mpr hZ)
  · rw [hp.X_eq, hp.Y_eq]
    ring
  · rw [hp.X_eq, hp.Y_eq]
    linear_combination p.Z ^ 2 * hCurve
  · rw [hp.X_eq, hp.Y_eq]
    linear_combination p.Z ^ 2 * hCurve
  · rw [hp.X_eq, hp.Y_eq]
    ring

theorem isIdentity_iff (hp : p.Represents E A) : p.X = 0 ∧ p.Y = p.Z ↔ A = 0 := by
  rw [hp.X_eq, hp.Y_eq]
  constructor
  · rintro ⟨hX, hY⟩
    ext
    · exact (mul_eq_zero.mp hX).resolve_right hp.Z_ne_zero
    · exact mul_right_cancel₀ hp.Z_ne_zero (by rw [hY, zero_y, one_mul])
  · rintro rfl
    simp

theorem crossEq_iff (hp : p.Represents E A) (hq : q.Represents E B) :
    p.X * q.Z = q.X * p.Z ∧ p.Y * q.Z = q.Y * p.Z ↔ A = B := by
  have hZ := mul_ne_zero hp.Z_ne_zero hq.Z_ne_zero
  rw [hp.X_eq, hp.Y_eq, hq.X_eq, hq.Y_eq]
  constructor
  · rintro ⟨hX, hY⟩
    ext
    · exact mul_right_cancel₀ hZ (by linear_combination hX)
    · exact mul_right_cancel₀ hZ (by linear_combination hY)
  · rintro rfl
    constructor <;> ring

/-- `(Z + Y : Z - Y)` is the projective `u`-coordinate on the Montgomery curve. -/
theorem montgomery [DecidableEq F] (hp : p.Represents E A) :
    E.montgomery.Represents (p.Z + p.Y) (p.Z - p.Y) (toMontgomery A) := by
  by_cases hA : A = 0
  · rw [hA, toMontgomery_zero, MontgomeryCurve.Represents.infinity_iff, hp.Y_eq, hA, zero_y,
      one_mul]
    refine ⟨?_, sub_self _⟩
    rw [← two_mul]
    exact mul_ne_zero E.two_ne_zero hp.Z_ne_zero
  · obtain ⟨u, v, h, hEq, hu, hv⟩ := toMontgomery_of_ne_zero hA
    rw [hEq, MontgomeryCurve.represents_affine, hp.Y_eq]
    have hy : 1 - A.y ≠ 0 := by
      intro hZero
      apply E.two_ne_zero
      linear_combination (u + 1) * hZero - hu
    constructor
    · rw [← one_sub_mul]
      exact mul_ne_zero hy hp.Z_ne_zero
    · linear_combination -p.Z * hu

end Extended.Represents

/-- The full curve check on extended coordinates. -/
theorem exists_represents_iff : (∃ A : E.Point, p.Represents E A) ↔
    p.Z ≠ 0 ∧ p.X * p.Y = p.Z * p.T ∧
      E.a * p.X ^ 2 * p.Z ^ 2 + p.Y ^ 2 * p.Z ^ 2 =
        (p.Z ^ 2) ^ 2 + E.d * p.X ^ 2 * p.Y ^ 2 := by
  constructor
  · rintro ⟨A, h⟩
    have hCurve := A.onCurve
    unfold OnCurve at hCurve
    refine ⟨h.Z_ne_zero, ?_, ?_⟩
    · rw [h.X_eq, h.Y_eq, h.T_eq]
      ring
    · rw [h.X_eq, h.Y_eq]
      linear_combination p.Z ^ 4 * hCurve
  · rintro ⟨hZ, hT, hCurve⟩
    have hX := div_mul_cancel₀ p.X hZ
    have hY := div_mul_cancel₀ p.Y hZ
    have hOn : E.OnCurve (p.X / p.Z) (p.Y / p.Z) := by
      unfold OnCurve
      apply mul_right_cancel₀ (pow_ne_zero 4 hZ)
      rw [← hX, ← hY] at hCurve
      linear_combination hCurve
    refine ⟨⟨_, _, hOn⟩, hZ, hX.symm, hY.symm, ?_⟩
    apply mul_left_cancel₀ hZ
    rw [← hT]
    field_simp

end EdwardsCurve
