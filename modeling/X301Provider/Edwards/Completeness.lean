import X301Provider.Edwards.PointSpec

/-!
# The addition formulas are complete

A limb point with canonical coordinates that passes the validity check has an
affine image on the curve. The three addition formulas keep both properties and
compute the complete twisted Edwards sum of the affine images, whatever the
scaling and whatever the two points.
-/

namespace X301Provider

open EdwardsCurve (Extended one_add_product_ne_zero one_sub_product_ne_zero)

namespace EdwardsPoint

structure Canonical (p : EdwardsPoint) : Prop where
  x : p.x.Canonical
  y : p.y.Canonical
  z : p.z.Canonical
  t : p.t.Canonical

/-- Canonical coordinates that pass the check of the code. -/
structure Valid (p : EdwardsPoint) : Prop where
  canonical : p.Canonical
  isValid : p.isValid = true

def affineX (p : EdwardsPoint) : Fp := p.x.toFp / p.z.toFp

def affineY (p : EdwardsPoint) : Fp := p.y.toFp / p.z.toFp

def extended (p : EdwardsPoint) : Extended Fp := ⟨p.x.toFp, p.y.toFp, p.z.toFp, p.t.toFp⟩

/-- `s` is a valid point whose affine image is the complete sum of those of `p` and `q`. -/
structure IsSum (s p q : EdwardsPoint) : Prop where
  valid : s.Valid
  z_ne_zero : s.z.toFp ≠ 0
  extended : s.x.toFp * s.y.toFp = s.z.toFp * s.t.toFp
  plus_ne_zero : 1 + E.d * p.affineX * q.affineX * p.affineY * q.affineY ≠ 0
  minus_ne_zero : 1 - E.d * p.affineX * q.affineX * p.affineY * q.affineY ≠ 0
  affineX_eq : s.affineX = E.addX p.affineX p.affineY q.affineX q.affineY
  affineY_eq : s.affineY = E.addY p.affineX p.affineY q.affineX q.affineY

variable {p q s : EdwardsPoint} {A C : E.Point}

theorem Canonical.repr (h : p.Canonical) : p.Repr p.extended :=
  ⟨h.x.repr, h.y.repr, h.z.repr, h.t.repr⟩

theorem Valid.denotes (h : p.Valid) : ∃ A, p.Denotes A := h.canonical.repr.isValid_iff.mp h.isValid

theorem Denotes.represents (h : p.Denotes A) : p.extended.Represents E A := by
  obtain ⟨e, hpe, he⟩ := h
  have hEq : p.extended = e := by
    ext
    · exact hpe.x.cast
    · exact hpe.y.cast
    · exact hpe.z.cast
    · exact hpe.t.cast
  rwa [hEq]

theorem Denotes.valid (h : p.Denotes A) : p.Valid := by
  refine ⟨?_, h.isValid⟩
  obtain ⟨e, hpe, -⟩ := h
  exact ⟨hpe.x.lt, hpe.y.lt, hpe.z.lt, hpe.t.lt⟩

theorem Denotes.affineX_eq (h : p.Denotes A) : p.affineX = A.x :=
  (eq_div_of_mul_eq h.represents.Z_ne_zero h.represents.X_eq.symm).symm

theorem Denotes.affineY_eq (h : p.Denotes A) : p.affineY = A.y :=
  (eq_div_of_mul_eq h.represents.Z_ne_zero h.represents.Y_eq.symm).symm

theorem Denotes.isSum (hs : s.Denotes (A + C)) (hp : p.Denotes A) (hq : q.Denotes C) :
    s.IsSum p q := by
  have hSum := hs.represents
  refine ⟨hs.valid, hSum.Z_ne_zero, ?_, ?_, ?_, ?_, ?_⟩
  · have hX : s.x.toFp = _ := hSum.X_eq
    have hY : s.y.toFp = _ := hSum.Y_eq
    have hT : s.t.toFp = _ := hSum.T_eq
    rw [hX, hY, hT]
    change _ * s.z.toFp * (_ * s.z.toFp) = s.z.toFp * (_ * s.z.toFp)
    ring
  · rw [hp.affineX_eq, hp.affineY_eq, hq.affineX_eq, hq.affineY_eq]
    exact one_add_product_ne_zero A.onCurve C.onCurve
  · rw [hp.affineX_eq, hp.affineY_eq, hq.affineX_eq, hq.affineY_eq]
    exact one_sub_product_ne_zero A.onCurve C.onCurve
  · rw [hs.affineX_eq, hp.affineX_eq, hp.affineY_eq, hq.affineX_eq, hq.affineY_eq]
    rfl
  · rw [hs.affineY_eq, hp.affineX_eq, hp.affineY_eq, hq.affineX_eq, hq.affineY_eq]
    rfl

/-- Addition, doubling and mixed addition are complete on valid points, and they agree. -/
theorem formulas_complete (hp : p.Valid) (hq : q.Valid) :
    (p.add q).IsSum p q ∧ p.double.IsSum p p ∧ p.double.ctEq (p.add p) = true ∧
      ∀ inverseZ : Fe301, inverseZ.Canonical → inverseZ.toFp = q.z.toFp⁻¹ →
        (p.addAffine (.fromProjective q inverseZ)).IsSum p q ∧
          (p.addAffine (.fromProjective q inverseZ)).ctEq (p.add q) = true := by
  obtain ⟨A, hA⟩ := hp.denotes
  obtain ⟨C, hC⟩ := hq.denotes
  have hDouble := hA.double
  rw [two_nsmul] at hDouble
  refine ⟨(hA.add hC).isSum hA hC, hDouble.isSum hA hA, ?_, ?_⟩
  · rw [hDouble.ctEq (hA.add hA)]
    exact decide_eq_true rfl
  · intro inverseZ hCanonical hInverse
    have hRepr := hCanonical.repr
    rw [hInverse] at hRepr
    have hCached := AffineNielsPoint.denotes_fromProjective hq.canonical.repr hC.represents hRepr
    have hMixed := hA.addAffine hCached
    refine ⟨hMixed.isSum hA hC, ?_⟩
    rw [hMixed.ctEq (hA.add hC)]
    exact decide_eq_true rfl

theorem formulas_complete_basepoint : basepoint.double.IsSum basepoint basepoint :=
  (formulas_complete denotes_basepoint.valid denotes_basepoint.valid).2.1

end EdwardsPoint

end X301Provider
