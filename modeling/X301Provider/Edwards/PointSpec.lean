import X301Provider.Curve
import X301Provider.Edwards.Point
import X301Provider.Field.Power

/-!
# Limb points denote curve points

`Repr` relates the four limb coordinates to extended coordinates over `Fp`, and
`Denotes` to a point of the curve. Every formula of the module keeps the
coordinates canonical and computes the group operation.
-/

namespace X301Provider

open EdwardsCurve (Extended Niels niels)

theorem edwardsAWord_cast : (edwardsAWord.toNat : Fp) = E.a := rfl

theorem edwardsDWord_cast : (edwardsDWord.toNat : Fp) = E.d := rfl

/-- The limb coordinates are the canonical representatives of extended coordinates. -/
structure EdwardsPoint.Repr (p : EdwardsPoint) (e : Extended Fp) : Prop where
  x : p.x.Repr e.X
  y : p.y.Repr e.Y
  z : p.z.Repr e.Z
  t : p.t.Repr e.T

structure AffineNielsPoint.Repr (p : AffineNielsPoint) (e : Niels Fp) : Prop where
  x : p.x.Repr e.x
  y : p.y.Repr e.y
  xy : p.xy.Repr e.xy
  dt : p.dt.Repr e.dt

def EdwardsPoint.Denotes (p : EdwardsPoint) (A : E.Point) : Prop :=
  ∃ e, p.Repr e ∧ e.Represents E A

def AffineNielsPoint.Denotes (p : AffineNielsPoint) (A : E.Point) : Prop :=
  p.Repr (niels E A)

namespace EdwardsPoint

open Fe301Lazy (fromFe301 repr_fromFe301)

variable {p q : EdwardsPoint} {e f : Extended Fp} {A C : E.Point}

theorem Repr.add (hp : p.Repr e) (hq : q.Repr f) : (p.add q).Repr (Extended.add E.a E.d e f) := by
  have hx := repr_fromFe301 hp.x
  have hy := repr_fromFe301 hp.y
  have hrx := repr_fromFe301 hq.x
  have hry := repr_fromFe301 hq.y
  have hxx := hx.mul hrx
  have hyy := hy.mul hry
  have hzz := (repr_fromFe301 hp.z).mul (repr_fromFe301 hq.z)
  have hdt := ((repr_fromFe301 hp.t).mulSmall edwardsDWord).mul (repr_fromFe301 hq.t)
  rw [edwardsDWord_cast, mul_comm e.T] at hdt
  have hCross := ((hx.addLoose hy).mul (hrx.addLoose hry)).subLoose (hxx.addLoose hyy).tighten
  have hDifference := hzz.subLoose hdt
  have hSum := hzz.addLoose hdt
  have hScaled := hxx.mulSmall edwardsAWord
  rw [edwardsAWord_cast, mul_comm] at hScaled
  have hTwisted := hyy.subLoose hScaled
  exact ⟨(hCross.mul hDifference).canonical, (hSum.mul hTwisted).canonical,
    (hDifference.mul hSum).canonical, (hCross.mul hTwisted).canonical⟩

theorem Repr.addAffine {c : AffineNielsPoint} {n : Niels Fp} (hp : p.Repr e) (hc : c.Repr n) :
    (p.addAffine c).Repr (Extended.addNiels E.a e n) := by
  have hx := repr_fromFe301 hp.x
  have hy := repr_fromFe301 hp.y
  have hz := repr_fromFe301 hp.z
  have hxx := hx.mul (repr_fromFe301 hc.x)
  have hyy := hy.mul (repr_fromFe301 hc.y)
  have hdt := (repr_fromFe301 hp.t).mul (repr_fromFe301 hc.dt)
  have hCross := ((hx.addLoose hy).mulTight (repr_fromFe301 hc.xy)).subLoose
    (hxx.addLoose hyy).tighten
  have hDifference := hz.subLoose hdt
  have hSum := hz.addLoose hdt
  have hScaled := hxx.mulSmall edwardsAWord
  rw [edwardsAWord_cast, mul_comm] at hScaled
  have hTwisted := hyy.subLoose hScaled
  exact ⟨(hCross.mul hDifference).canonical, (hSum.mul hTwisted).canonical,
    (hDifference.mul hSum).canonical, (hCross.mul hTwisted).canonical⟩

theorem Repr.double (hp : p.Repr e) : p.double.Repr (Extended.double E.a e) := by
  have hx := repr_fromFe301 hp.x
  have hy := repr_fromFe301 hp.y
  have hxx := hx.square
  have hyy := hy.square
  have hzz := (repr_fromFe301 hp.z).square
  have hTwo := (hzz.addLoose hzz).tighten
  rw [← two_mul] at hTwo
  have hScaled := hxx.mulSmall edwardsAWord
  rw [edwardsAWord_cast, mul_comm] at hScaled
  have hCross := (hx.addLoose hy).square.subLoose (hxx.addLoose hyy).tighten
  have hSum := hScaled.addLoose hyy
  have hDifference := hSum.tighten.subLoose hTwo
  have hTwisted := hScaled.subLoose hyy
  exact ⟨(hCross.mul hDifference).canonical, (hSum.mul hTwisted).canonical,
    (hDifference.mul hSum).canonical, (hCross.mul hTwisted).canonical⟩

theorem Repr.addConst (hp : p.Repr e) (hq : q.Repr f) :
    (p.addConst q).Repr (Extended.add E.a E.d e f) := by
  have hxx := hp.x.mul hq.x
  have hyy := hp.y.mul hq.y
  have hzz := hp.z.mul hq.z
  have hdt := (hp.t.mulSmallConst edwardsDWord).mul hq.t
  rw [edwardsDWord_cast, mul_comm e.T] at hdt
  have hCross := (((hp.x.add hp.y).mul (hq.x.add hq.y)).sub hxx).sub hyy
  rw [sub_sub] at hCross
  have hDifference := hzz.sub hdt
  have hSum := hzz.add hdt
  have hScaled := hxx.mulSmallConst edwardsAWord
  rw [edwardsAWord_cast, mul_comm] at hScaled
  have hTwisted := hyy.sub hScaled
  simp only [EdwardsPoint.addConst, Fe301.mulConst_eq, Fe301.addConst_eq, Fe301.subConst_eq]
  exact ⟨hCross.mul hDifference, hSum.mul hTwisted, hDifference.mul hSum, hCross.mul hTwisted⟩

theorem Repr.doubleConst (hp : p.Repr e) : p.doubleConst.Repr (Extended.double E.a e) := by
  have hxx := hp.x.square
  have hyy := hp.y.square
  have hzz := hp.z.square
  have hTwo := hzz.add hzz
  rw [← two_mul] at hTwo
  have hScaled := hxx.mulSmallConst edwardsAWord
  rw [edwardsAWord_cast, mul_comm] at hScaled
  have hCross := ((hp.x.add hp.y).square.sub hxx).sub hyy
  rw [sub_sub] at hCross
  have hSum := hScaled.add hyy
  have hDifference := hSum.sub hTwo
  have hTwisted := hScaled.sub hyy
  simp only [EdwardsPoint.doubleConst, Fe301.mulConst_eq, Fe301.squareConst_eq,
    Fe301.addConst_eq, Fe301.subConst_eq]
  exact ⟨hCross.mul hDifference, hSum.mul hTwisted, hDifference.mul hSum, hCross.mul hTwisted⟩

theorem Denotes.unique (hA : p.Denotes A) (hC : p.Denotes C) : A = C := by
  obtain ⟨e, hp, he⟩ := hA
  obtain ⟨f, hq, hf⟩ := hC
  have hEq : e = f :=
    Extended.ext (hp.x.unique hq.x) (hp.y.unique hq.y) (hp.z.unique hq.z) (hp.t.unique hq.t)
  subst hEq
  exact he.unique hf

theorem Denotes.add (hp : p.Denotes A) (hq : q.Denotes C) : (p.add q).Denotes (A + C) := by
  obtain ⟨e, hpe, he⟩ := hp
  obtain ⟨f, hqf, hf⟩ := hq
  exact ⟨_, hpe.add hqf, he.add hf⟩

theorem Denotes.addConst (hp : p.Denotes A) (hq : q.Denotes C) :
    (p.addConst q).Denotes (A + C) := by
  obtain ⟨e, hpe, he⟩ := hp
  obtain ⟨f, hqf, hf⟩ := hq
  exact ⟨_, hpe.addConst hqf, he.add hf⟩

theorem Denotes.addAffine {c : AffineNielsPoint} (hp : p.Denotes A) (hc : c.Denotes C) :
    (p.addAffine c).Denotes (A + C) := by
  obtain ⟨e, hpe, he⟩ := hp
  exact ⟨_, hpe.addAffine hc, he.addNiels C⟩

theorem Denotes.double (hp : p.Denotes A) : p.double.Denotes (2 • A) := by
  obtain ⟨e, hpe, he⟩ := hp
  rw [two_nsmul]
  exact ⟨_, hpe.double, he.double⟩

theorem Denotes.doubleConst (hp : p.Denotes A) : p.doubleConst.Denotes (2 • A) := by
  obtain ⟨e, hpe, he⟩ := hp
  rw [two_nsmul]
  exact ⟨_, hpe.doubleConst, he.double⟩

theorem Denotes.negate (hp : p.Denotes A) : p.negate.Denotes (-A) := by
  obtain ⟨e, hpe, he⟩ := hp
  exact ⟨e.neg, ⟨hpe.x.neg, hpe.y, hpe.z, hpe.t.neg⟩, he.neg⟩

theorem Denotes.multiplyByCofactor (hp : p.Denotes A) : p.multiplyByCofactor.Denotes (4 • A) := by
  have hFour : 4 • A = 2 • 2 • A := by
    rw [smul_smul]
    rfl
  rw [hFour]
  exact hp.double.double

theorem denotes_identity : identity.Denotes 0 :=
  ⟨Extended.identity, ⟨Fe301.repr_zero, Fe301.repr_one, Fe301.repr_one, Fe301.repr_zero⟩,
    Extended.Represents.identity⟩

theorem denotes_fromAffine {x y : Fe301} (hx : x.Repr A.x) (hy : y.Repr A.y) :
    (fromAffine x y).Denotes A :=
  ⟨Extended.ofAffine A.x A.y, ⟨hx, hy, Fe301.repr_one, hx.mul hy⟩, Extended.Represents.ofAffine A⟩

theorem repr_fromCanonicalWords {words : Words 5} {n : ℕ} (hValue : Limbs.value words.1 = n)
    (hLt : n < P) : (Fe301.fromCanonicalWords words).Repr (n : Fp) :=
  Fe301.repr_of_cast (by rw [Fe301.fromCanonicalWords, hValue]; exact hLt)
    (by rw [Fe301.fromCanonicalWords, hValue])

theorem denotes_basepoint : basepoint.Denotes B := by
  have hWords : ((Limbs.value basepoint.x.limbs.1 = basepointX ∧ basepointX < P) ∧
      Limbs.value basepoint.y.limbs.1 = basepointY ∧ basepointY < P) ∧
      basepoint = fromAffine basepoint.x basepoint.y := by decide +kernel
  obtain ⟨⟨⟨hX, hXLt⟩, hY, hYLt⟩, hEq⟩ := hWords
  have hx : basepoint.x.Repr B.x := repr_fromCanonicalWords hX hXLt
  have hy : basepoint.y.Repr B.y := repr_fromCanonicalWords hY hYLt
  rw [hEq]
  exact denotes_fromAffine hx hy

theorem Denotes.isIdentity (hp : p.Denotes A) : p.isIdentity = decide (A = 0) := by
  obtain ⟨e, hpe, he⟩ := hp
  rw [EdwardsPoint.isIdentity, hpe.x.isZero, hpe.y.ctEq hpe.z, Bool.eq_iff_iff, Bool.and_eq_true,
    decide_eq_true_eq, decide_eq_true_eq, decide_eq_true_eq, he.isIdentity_iff]

theorem Denotes.ctEq (hp : p.Denotes A) (hq : q.Denotes C) : p.ctEq q = decide (A = C) := by
  obtain ⟨e, hpe, he⟩ := hp
  obtain ⟨f, hqf, hf⟩ := hq
  rw [EdwardsPoint.ctEq, (hpe.x.mul hqf.z).ctEq (hqf.x.mul hpe.z),
    (hpe.y.mul hqf.z).ctEq (hqf.y.mul hpe.z), Bool.eq_iff_iff, Bool.and_eq_true,
    decide_eq_true_eq, decide_eq_true_eq, decide_eq_true_eq, he.crossEq_iff hf]

/-- The invariant check accepts exactly the extended coordinates of curve points. -/
theorem Repr.isValid_iff (hp : p.Repr e) : p.isValid = true ↔ ∃ A, p.Denotes A := by
  have hxx := hp.x.square
  have hyy := hp.y.square
  have hzz := hp.z.square
  have hLeft := ((hxx.mulSmall edwardsAWord).mul hzz).add (hyy.mul hzz)
  have hRight := hzz.square.add ((hxx.mulSmall edwardsDWord).mul hyy)
  have hIsValid : p.isValid = (!decide (e.Z = 0) && decide (e.X * e.Y = e.Z * e.T) &&
      decide (e.X ^ 2 * E.a * e.Z ^ 2 + e.Y ^ 2 * e.Z ^ 2 =
        (e.Z ^ 2) ^ 2 + e.X ^ 2 * E.d * e.Y ^ 2)) := by
    rw [← hp.z.isZero, ← (hp.x.mul hp.y).ctEq (hp.z.mul hp.t), ← edwardsAWord_cast,
      ← edwardsDWord_cast, ← hLeft.ctEq hRight]
    rfl
  have hDenotes : (∃ A, p.Denotes A) ↔ ∃ A, e.Represents E A := by
    constructor
    · rintro ⟨A, f, hpf, hf⟩
      have hEq : e = f :=
        Extended.ext (hp.x.unique hpf.x) (hp.y.unique hpf.y) (hp.z.unique hpf.z)
          (hp.t.unique hpf.t)
      exact ⟨A, hEq ▸ hf⟩
    · rintro ⟨A, he⟩
      exact ⟨A, e, hp, he⟩
  rw [hDenotes, EdwardsCurve.exists_represents_iff, hIsValid]
  simp only [Bool.and_eq_true, Bool.not_eq_true', decide_eq_true_eq, decide_eq_false_iff_not,
    and_assoc, mul_comm (e.X ^ 2)]

theorem Denotes.isValid (hp : p.Denotes A) : p.isValid = true := by
  obtain ⟨e, hpe, he⟩ := hp
  exact hpe.isValid_iff.mpr ⟨A, e, hpe, he⟩

theorem Denotes.conditionalSelect (hp : p.Denotes A) (hq : q.Denotes C) (choice : Bool) :
    (EdwardsPoint.conditionalSelect p q choice).Denotes (if choice then C else A) := by
  cases choice with
  | false => exact hp
  | true => exact hq

end EdwardsPoint

namespace AffineNielsPoint

open EdwardsPoint

variable {c c' : AffineNielsPoint} {A C : E.Point}

theorem denotes_identity : identity.Denotes 0 := by
  have hIdentity : (⟨0, 1, 1, 0⟩ : Niels Fp) = niels E 0 := (EdwardsCurve.niels_zero E).symm
  rw [Denotes, ← hIdentity]
  exact ⟨Fe301.repr_zero, Fe301.repr_one, Fe301.repr_one, Fe301.repr_zero⟩

theorem Denotes.negate (h : c.Denotes A) : c.negate.Denotes (-A) := by
  rw [Denotes, EdwardsCurve.niels_neg]
  exact ⟨h.x.neg, h.y, h.x.neg.add h.y, h.dt.neg⟩

theorem Denotes.conditionalSelect (hc : c.Denotes A) (hc' : c'.Denotes C) (choice : Bool) :
    (AffineNielsPoint.conditionalSelect c c' choice).Denotes (if choice then C else A) := by
  cases choice with
  | false => exact hc
  | true => exact hc'

theorem denotes_fromProjective {p : EdwardsPoint} {e : Extended Fp} {z : Fe301} (hp : p.Repr e)
    (he : e.Represents E A) (hz : z.Repr e.Z⁻¹) : (fromProjective p z).Denotes A := by
  have hx := hp.x.mul hz
  have hy := hp.y.mul hz
  rw [he.X_eq, mul_assoc, mul_inv_cancel₀ he.Z_ne_zero, mul_one] at hx
  rw [he.Y_eq, mul_assoc, mul_inv_cancel₀ he.Z_ne_zero, mul_one] at hy
  have hdt := (hx.mul hy).mulSmall edwardsDWord
  rw [edwardsDWord_cast, mul_comm] at hdt
  exact ⟨hx, hy, hx.add hy, hdt⟩

theorem fromProjectiveConst_eq {p : EdwardsPoint} {e : Extended Fp} {z : Fe301} {c : Fp}
    (hp : p.Repr e) (hz : z.Repr c) : fromProjectiveConst p z = fromProjective p z := by
  have hxy := (hp.x.mul hz).mul (hp.y.mul hz)
  simp only [fromProjectiveConst, fromProjective, Fe301.mulConst_eq, Fe301.addConst_eq,
    Fe301.mulSmallConst_eq hxy]

theorem denotes_fromProjectiveConst {p : EdwardsPoint} {e : Extended Fp} {z : Fe301}
    (hp : p.Repr e) (he : e.Represents E A) (hz : z.Repr e.Z⁻¹) :
    (fromProjectiveConst p z).Denotes A := by
  rw [fromProjectiveConst_eq hp hz]
  exact denotes_fromProjective hp he hz

end AffineNielsPoint

end X301Provider
