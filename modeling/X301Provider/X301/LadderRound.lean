import X301Provider.Edwards.Completeness
import X301Provider.X301.LadderSpec

/-!
# A ladder round simulates the Edwards group

The map `(X : Y : Z) ↦ (Z + Y : Z - Y)` carries doubling and addition on the
Edwards curve to the two halves of a ladder round, in every projective scaling
and through the identity and the torsion points.
-/

namespace X301Provider.X301

open Limbs MontgomeryCurve
open EdwardsCurve (toMontgomery toMontgomery_add toMontgomery_neg)

/-- The pair is a nonzero scaling of the Montgomery image of the point. -/
def IsScaling (x z : Fe301Lazy) (p : EdwardsPoint) : Prop :=
  ∃ scale : Fp, scale ≠ 0 ∧ x.Repr (scale * (p.z.toFp + p.y.toFp)) ∧
    z.Repr (scale * (p.z.toFp - p.y.toFp))

/-- A scaling that is not `(0 : 0)`. -/
structure Simulates (x z : Fe301Lazy) (p : EdwardsPoint) : Prop where
  isScaling : IsScaling x z p
  not_both_zero : ¬((value x.limbs.1 : Fp) = 0 ∧ (value z.limbs.1 : Fp) = 0)

variable {p q : EdwardsPoint} {A C : E.Point} {x z : Fe301Lazy} {X Z : Fp}

theorem IsScaling.represents (h : IsScaling x z p) (hp : p.Denotes A) :
    ∃ X Z, x.Repr X ∧ z.Repr Z ∧ E.montgomery.Represents X Z (toMontgomery A) := by
  obtain ⟨scale, hScale, hx, hz⟩ := h
  exact ⟨_, _, hx, hz, hp.represents.montgomery.scale hScale⟩

theorem simulates_of_represents (hx : x.Repr X) (hz : z.Repr Z)
    (h : E.montgomery.Represents X Z (toMontgomery A)) (hp : p.Denotes A) : Simulates x z p := by
  obtain ⟨scale, hScale, hX, hZ⟩ := h.proportional hp.represents.montgomery
  refine ⟨⟨scale, hScale, ?_, ?_⟩, ?_⟩
  · rwa [hX] at hx
  · rwa [hZ] at hz
  · rw [hx.2, hz.2]
    exact h.not_both_zero

theorem doubleScaled_simulates (hp : p.Valid) (h : IsScaling x z p) :
    Simulates (doubleScaled x z).1 (doubleScaled x z).2 p.double := by
  obtain ⟨A, hA⟩ := hp.denotes
  obtain ⟨X, Z, hx, hz, hPoint⟩ := h.represents hA
  obtain ⟨hNextX, hNextZ⟩ := doubleScaled_repr hx hz
  have hDouble := hPoint.double ladderScale_ne_zero (ladderConstant_eq rfl)
  rw [← toMontgomery_add, ← two_nsmul] at hDouble
  exact simulates_of_represents hNextX hNextZ hDouble hA.double

theorem exists_affine_difference {u : Fp} (hp : p.Denotes A)
    (hIdentity : ¬(p.affineX = 0 ∧ p.affineY = 1))
    (hOrderTwo : ¬(p.affineX = 0 ∧ p.affineY = -1))
    (hu : u = (p.z.toFp + p.y.toFp) / (p.z.toFp - p.y.toFp)) :
    u ≠ 0 ∧ ∃ v h, toMontgomery A = .affine u v h := by
  have hCoordinate := hp.represents.montgomery
  have hxNonzero : A.x ≠ 0 := by
    intro hx
    have hCurve := A.onCurve
    rw [hx] at hCurve
    rw [hp.affineX_eq, hp.affineY_eq] at hIdentity hOrderTwo
    cases EdwardsCurve.y_eq_of_x_eq_zero hCurve with
    | inl hy =>
      exact hIdentity ⟨hx, hy⟩
    | inr hy =>
      exact hOrderTwo ⟨hx, hy⟩
  have hNonzero : A ≠ 0 := by
    rintro rfl
    exact hxNonzero rfl
  have hUOrZero := hCoordinate.div_eq
  change (p.z.toFp + p.y.toFp) / (p.z.toFp - p.y.toFp) = _ at hUOrZero
  rw [← hu] at hUOrZero
  obtain ⟨u', v', h', hEq, hu', hv'⟩ := EdwardsCurve.toMontgomery_of_ne_zero hNonzero
  rw [hEq] at hUOrZero
  obtain rfl : u = u' := hUOrZero
  refine ⟨?_, v', h', hEq⟩
  rintro rfl
  have hy : A.y = -1 := by linear_combination -hu'
  have hCurve := A.onCurve
  have hxZero : A.x ^ 2 * (E.a - E.d) = 0 := by
    rw [EdwardsCurve.OnCurve, hy] at hCurve
    linear_combination hCurve
  cases mul_eq_zero.mp hxZero with
  | inl hSq =>
    exact hxNonzero ((pow_eq_zero_iff two_ne_zero).mp hSq)
  | inr hDiff =>
    exact E.a_sub_d_ne_zero hDiff

theorem round_simulates {state : LadderState} (hp : p.Valid) (hq : q.Valid)
    (hIdentity : ¬((p.add q.negate).affineX = 0 ∧ (p.add q.negate).affineY = 1))
    (hOrderTwo : ¬((p.add q.negate).affineX = 0 ∧ (p.add q.negate).affineY = -1))
    (hBase : state.x1.Repr (((p.add q.negate).z.toFp + (p.add q.negate).y.toFp) /
      ((p.add q.negate).z.toFp - (p.add q.negate).y.toFp)))
    (hFirst : IsScaling state.x2 state.z2 p) (hSecond : IsScaling state.x3 state.z3 q) :
    Simulates (ladderRound state).x2 (ladderRound state).z2 p.double ∧
      Simulates (ladderRound state).x3 (ladderRound state).z3 (p.add q) := by
  obtain ⟨A, hA⟩ := hp.denotes
  obtain ⟨C, hC⟩ := hq.denotes
  have hDifference := hA.add hC.negate
  obtain ⟨hu, v, hCurve, hPoint⟩ :=
    exists_affine_difference hDifference hIdentity hOrderTwo rfl
  obtain ⟨X₂, Z₂, hx2, hz2, hRepA⟩ := hFirst.represents hA
  obtain ⟨X₃, Z₃, hx3, hz3, hRepC⟩ := hSecond.represents hC
  have hState : state.Repr _ ⟨X₂, Z₂, X₃, Z₃⟩ := ⟨hBase, hx2, hz2, hx3, hz3⟩
  have hRound := hState.round
  have hDiffer : DifferBy (.affine _ v hCurve) (toMontgomery A) (toMontgomery C) := by
    refine Or.inl ?_
    rw [← hPoint, toMontgomery_add, toMontgomery_neg, sub_eq_add_neg]
  have hSum := hRepA.differentialAdd hCurve hu hDiffer hRepC
  rw [← toMontgomery_add] at hSum
  exact ⟨doubleScaled_simulates hp hFirst,
    simulates_of_represents hRound.x3 hRound.z3 hSum (hA.add hC)⟩

/-- A round on the images of two points whose difference has the base coordinate, and a doubling
on the image of any point. -/
theorem ladderRound_simulates :
    (∀ (p q : EdwardsPoint) (state : LadderState), p.Valid → q.Valid →
      ¬((p.add q.negate).affineX = 0 ∧ (p.add q.negate).affineY = 1) →
      ¬((p.add q.negate).affineX = 0 ∧ (p.add q.negate).affineY = -1) →
      state.x1.Repr (((p.add q.negate).z.toFp + (p.add q.negate).y.toFp) /
        ((p.add q.negate).z.toFp - (p.add q.negate).y.toFp)) →
      IsScaling state.x2 state.z2 p → IsScaling state.x3 state.z3 q →
      Simulates (ladderRound state).x2 (ladderRound state).z2 p.double ∧
        Simulates (ladderRound state).x3 (ladderRound state).z3 (p.add q)) ∧
    ∀ (p : EdwardsPoint) (x z : Fe301Lazy), p.Valid → IsScaling x z p →
      Simulates (doubleScaled x z).1 (doubleScaled x z).2 p.double := by
  constructor
  · intro p q state hp hq hIdentity hOrderTwo hBase hFirst hSecond
    exact round_simulates hp hq hIdentity hOrderTwo hBase hFirst hSecond
  · intro p x z hp h
    exact doubleScaled_simulates hp h

theorem exists_lazy_repr (v : Fp) : ∃ x : Fe301Lazy, x.Repr v :=
  ⟨_, Fe301Lazy.repr_fromFe301 (Fe301.fromCanonicalBytes_oracleBytes v)⟩

theorem ladderRound_simulates_basepoint : ∃ state : LadderState,
    Simulates (ladderRound state).x2 (ladderRound state).z2 EdwardsPoint.basepoint.double ∧
      Simulates (ladderRound state).x3 (ladderRound state).z3
        (EdwardsPoint.basepoint.add .identity) := by
  have hp := EdwardsPoint.denotes_basepoint
  have hq := EdwardsPoint.denotes_identity
  have hDifference := hp.add hq.negate
  rw [neg_zero, add_zero] at hDifference
  have hx : (EdwardsPoint.basepoint.add EdwardsPoint.identity.negate).affineX ≠ 0 := by
    rw [hDifference.affineX_eq]
    exact basepointX_ne_zero
  obtain ⟨x1, hx1⟩ := exists_lazy_repr _
  obtain ⟨x2, hx2⟩ := exists_lazy_repr _
  obtain ⟨z2, hz2⟩ := exists_lazy_repr _
  obtain ⟨x3, hx3⟩ := exists_lazy_repr _
  obtain ⟨z3, hz3⟩ := exists_lazy_repr _
  exact ⟨_, ladderRound_simulates.1 _ _ ⟨x1, x2, z2, x3, z3⟩ hp.valid hq.valid
    (fun h => hx h.1) (fun h => hx h.1) hx1 ⟨1, one_ne_zero, hx2, hz2⟩
    ⟨1, one_ne_zero, hx3, hz3⟩⟩

end X301Provider.X301
