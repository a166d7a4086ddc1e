import X301Provider.Edwards.Completeness
import X301Provider.Field.Exactness

/-!
# The compile-time formulas and the runtime formulas

The two arithmetics are compared on all canonical coordinates, on the curve or off
it: both compute the same extended coordinates over the field, and canonical limbs
are determined by the element they stand for.
-/

namespace X301Provider

namespace EdwardsPoint

variable {p q : EdwardsPoint} {e : EdwardsCurve.Extended Fp}

theorem Repr.canonical (h : p.Repr e) : p.Canonical :=
  ⟨h.x.lt, h.y.lt, h.z.lt, h.t.lt⟩

theorem Repr.ext (hp : p.Repr e) (hq : q.Repr e) : p = q := by
  obtain ⟨px, py, pz, pt⟩ := p
  obtain ⟨qx, qy, qz, qt⟩ := q
  rw [mk.injEq]
  exact ⟨hp.x.ext hq.x, hp.y.ext hq.y, hp.z.ext hq.z, hp.t.ext hq.t⟩

theorem Canonical.add (hp : p.Canonical) (hq : q.Canonical) : (p.add q).Canonical :=
  (hp.repr.add hq.repr).canonical

theorem Canonical.double (hp : p.Canonical) : p.double.Canonical :=
  hp.repr.double.canonical

theorem Canonical.addConst_eq (hp : p.Canonical) (hq : q.Canonical) : p.addConst q = p.add q :=
  (hp.repr.addConst hq.repr).ext (hp.repr.add hq.repr)

theorem Canonical.doubleConst_eq (hp : p.Canonical) : p.doubleConst = p.double :=
  hp.repr.doubleConst.ext hp.repr.double

/-- The compile-time and the runtime arithmetic, on points, on elements and on limbs. -/
theorem constArithmetic_eq_runtime :
    (∀ p q : EdwardsPoint, p.Canonical → q.Canonical →
      p.add q = p.addConst q ∧ (p.add q).Canonical ∧
        p.double = p.doubleConst ∧ p.double.Canonical) ∧
    (∀ (x y : Fe301) (value : UInt32), x.Canonical → y.Canonical →
      x.add y = x.addConst y ∧ x.sub y = x.subConst y ∧ x.mul y = x.mulConst y ∧
        x.square = x.squareConst ∧ x.mulSmall value = x.mulSmallConst value) ∧
    ∀ left right : Words 5, subtractLimbs left right = subtractLimbsRuntime left right := by
  refine ⟨?_, ?_, ?_⟩
  · intro p q hp hq
    exact ⟨(hp.addConst_eq hq).symm, hp.add hq, hp.doubleConst_eq.symm, hp.double⟩
  · intro x y value hx _
    exact ⟨(x.addConst_eq y).symm, (x.subConst_eq y).symm, (x.mulConst_eq y).symm,
      x.squareConst_eq.symm, (Fe301.mulSmallConst_eq hx.repr value).symm⟩
  · intro left right
    exact subtractLimbs_eq_runtime left right

/-- Off the curve, with every coordinate at the largest canonical value. -/
theorem constArithmetic_eq_runtime_minusOne :
    (⟨Fe301.minusOne, Fe301.minusOne, Fe301.minusOne, Fe301.minusOne⟩ : EdwardsPoint).double =
        (⟨Fe301.minusOne, Fe301.minusOne, Fe301.minusOne, Fe301.minusOne⟩ :
          EdwardsPoint).doubleConst ∧
      Fe301.minusOne.mulSmall 0xffffffff = Fe301.minusOne.mulSmallConst 0xffffffff := by
  have hLimbs := Fe301.canonical_minusOne
  have hPoint : (⟨Fe301.minusOne, Fe301.minusOne, Fe301.minusOne, Fe301.minusOne⟩ :
      EdwardsPoint).Canonical := ⟨hLimbs, hLimbs, hLimbs, hLimbs⟩
  obtain ⟨hPoints, hElements, -⟩ := constArithmetic_eq_runtime
  obtain ⟨-, -, hDouble, -⟩ := hPoints _ _ hPoint hPoint
  obtain ⟨-, -, -, -, hSmall⟩ := hElements _ Fe301.minusOne 0xffffffff hLimbs hLimbs
  exact ⟨hDouble, hSmall⟩

end EdwardsPoint

end X301Provider
