import X301Provider.BigInt.FieldBackend
import X301Provider.BigInt.SafeGcdInversion
import X301Provider.Field.Exactness

/-!
# Inverses of residues

The inversion of Montgomery forms and of field elements. Whenever it returns a value that is the
inverse, and it returns one for a unit once the fixed number of division steps ends them.
-/

namespace X301Provider.BigInt

open Limbs DivisionSteps

variable {n : ℕ}

namespace MontyForm

variable {params : MontyParams n} (x : MontyForm params)

/-- The inverter of a form: both ends in Montgomery form. -/
def inverter (params : MontyParams n) : SafeGcdInverter n :=
  ⟨params.modulus, params.modInv, params.r2⟩

/-- What the division steps leave for a form. -/
def finalState : State :=
  (SafeGcd.start params.modulus.1 x.montgomeryForm).run (SafeGcd.iterations (64 * n))

theorem inverter_exact :
    let result := (inverter params).invert x.montgomeryForm
    (result.isSome = true ↔ value x.montgomeryForm.1 ≠ 0 ∧ x.finalState.f.natAbs = 1) ∧
      (result.isSome = true →
        value result.value.1 * value x.montgomeryForm.1 ≡ value params.r2.1 [MOD params.m]) ∧
      value result.value.1 < params.m ∧
      (value x.montgomeryForm.1 = 0 → value result.value.1 = 0) :=
  SafeGcd.invertOddModPrecomp_exact params.modInv_eq (r2_lt params).le

theorem inverter_vartime :
    (inverter params).invertVartime x.montgomeryForm = (inverter params).invert x.montgomeryForm :=
  SafeGcd.invertOddModPrecomp_vartime params.modInv_eq (r2_lt params).le

def invert : CtOption (MontyForm params) :=
  let maybeInverse := (inverter params).invert x.montgomeryForm
  ⟨⟨maybeInverse.value, x.inverter_exact.2.2.1⟩, maybeInverse.isSome⟩

def invertVartime : CtOption (MontyForm params) :=
  let maybeInverse := (inverter params).invertVartime x.montgomeryForm
  ⟨⟨maybeInverse.value, (congrArg (fun r => value r.value.1) x.inverter_vartime).trans_lt
    x.inverter_exact.2.2.1⟩, maybeInverse.isSome⟩

theorem invertVartime_eq : x.invertVartime = x.invert := by
  simp only [invertVartime, invert, x.inverter_vartime]

/-- The form as a residue. -/
theorem form_eq : (value x.montgomeryForm.1 : ZMod params.m) = x.toZMod * (wordBase ^ n : ℕ) := by
  rw [toZMod, ← Nat.cast_mul]
  exact (ZMod.natCast_eq_natCast_iff _ _ _).mpr x.represents

theorem isUnit_radix : IsUnit ((wordBase ^ n : ℕ) : ZMod params.m) :=
  (ZMod.isUnit_iff_coprime _ _).mpr params.coprime.symm

theorem toZMod_eq_zero : x.toZMod = 0 ↔ value x.montgomeryForm.1 = 0 := by
  have hForm := x.form_eq
  constructor
  · intro h
    rw [h, zero_mul, ZMod.natCast_eq_zero_iff] at hForm
    exact Nat.eq_zero_of_dvd_of_lt hForm x.reduced
  · intro h
    rw [h, Nat.cast_zero] at hForm
    exact (isUnit_radix.mul_left_eq_zero).mp hForm.symm

theorem toZMod_invert (hSome : x.invert.isSome = true) : x.invert.value.toZMod * x.toZMod = 1 := by
  have hProduct := (ZMod.natCast_eq_natCast_iff _ _ _).mpr (x.inverter_exact.2.1 hSome)
  have hInverse : (value ((inverter params).invert x.montgomeryForm).value.1 : ZMod params.m) =
      x.invert.value.toZMod * (wordBase ^ n : ℕ) := x.invert.value.form_eq
  rw [Nat.cast_mul, hInverse, x.form_eq, params.r2_eq] at hProduct
  change _ = ((_ % params.m : ℕ) : ZMod params.m) at hProduct
  rw [ZMod.natCast_mod, Nat.cast_mul] at hProduct
  apply (isUnit_radix.mul isUnit_radix).mul_right_cancel
  linear_combination hProduct

theorem odd_start : (SafeGcd.start params.modulus.1 x.montgomeryForm).f % 2 = 1 := by
  have hOdd := params.modulus.2
  change (value params.modulus.1.1 : ℤ) % 2 = 1
  omega

/-- The division steps have ended: a unit leaves a divisor of one. -/
theorem natAbs_finalState (hEnded : x.finalState.g = 0) (hUnit : IsUnit x.toZMod) :
    x.finalState.f.natAbs = 1 := by
  have hForm := x.form_eq
  have hCoprime := (ZMod.isUnit_iff_coprime _ _).mp (hForm ▸ hUnit.mul isUnit_radix)
  rw [finalState, State.natAbs_run_of_zero x.odd_start hEnded]
  change Int.gcd (params.m : ℤ) (value x.montgomeryForm.1) = 1
  rw [Int.gcd_natCast_natCast]
  exact hCoprime.symm

/-- The inversion in Montgomery form, for any odd modulus of any number of limbs. -/
theorem invert_exact :
    (x.invert.isSome = true ↔ x.toZMod ≠ 0 ∧ x.finalState.f.natAbs = 1) ∧
      (x.invert.isSome = true → x.invert.value.toZMod * x.toZMod = 1) ∧
      (x.toZMod = 0 → x.invert.value.toZMod = 0) ∧
      (x.finalState.g = 0 → (x.invert.isSome = true ↔ x.toZMod ≠ 0 ∧ IsUnit x.toZMod)) ∧
      x.invertVartime = x.invert := by
  have hSome : x.invert.isSome = true ↔ x.toZMod ≠ 0 ∧ x.finalState.f.natAbs = 1 := by
    rw [ne_eq, toZMod_eq_zero]
    exact x.inverter_exact.1
  refine ⟨hSome, x.toZMod_invert, ?_, ?_, x.invertVartime_eq⟩
  · intro hZero
    exact x.invert.value.toZMod_eq_zero.mpr (x.inverter_exact.2.2.2 (x.toZMod_eq_zero.mp hZero))
  · intro hEnded
    constructor
    · intro h
      exact ⟨(hSome.mp h).1, IsUnit.of_mul_eq_one_right _ (x.toZMod_invert h)⟩
    · rintro ⟨hZero, hUnit⟩
      exact hSome.mpr ⟨hZero, x.natAbs_finalState hEnded hUnit⟩

end MontyForm

end X301Provider.BigInt

namespace X301Provider

open BigInt

namespace FieldElement

def invert (x : FieldElement) : CtOption FieldElement :=
  let inverse := MontyForm.invert x.inner
  ⟨⟨inverse.value⟩, inverse.isSome⟩

/-- What the division steps leave for an element. -/
def finalState (x : FieldElement) : DivisionSteps.State := MontyForm.finalState x.inner

variable {x : FieldElement}

theorem toFp_eq_zero : x.toFp = 0 ↔ MontyForm.toZMod x.inner = 0 := by
  rw [toFp_eq, map_eq_zero_iff _ (ZMod.ringEquivCongr fieldParams_m).injective]

theorem toFp_invert (hSome : x.invert.isSome = true) : x.invert.value.toFp * x.toFp = 1 := by
  rw [toFp_eq, toFp_eq, ← map_mul, ← map_one (ZMod.ringEquivCongr fieldParams_m)]
  exact congrArg _ (MontyForm.toZMod_invert x.inner hSome)

theorem toFp_invert_of_zero (hZero : x.toFp = 0) : x.invert.value.toFp = 0 :=
  toFp_eq_zero.mpr ((MontyForm.invert x.inner).value.toZMod_eq_zero.mpr
    ((MontyForm.inverter_exact x.inner).2.2.2
      ((MontyForm.toZMod_eq_zero x.inner).mp (toFp_eq_zero.mp hZero))))

theorem ne_zero_of_invert (hSome : x.invert.isSome = true) : x.toFp ≠ 0 := by
  intro hZero
  have hOne := toFp_invert hSome
  rw [hZero, mul_zero] at hOne
  exact zero_ne_one hOne

theorem invert_isSome (hEnded : x.finalState.g = 0) (hNonzero : x.toFp ≠ 0) :
    x.invert.isSome = true := by
  have hUnit : IsUnit (MontyForm.toZMod x.inner) := by
    have hMapped := hNonzero.isUnit.map (ZMod.ringEquivCongr fieldParams_m).symm
    rwa [toFp_eq, RingEquiv.symm_apply_apply] at hMapped
  exact (MontyForm.inverter_exact x.inner).1.mpr
    ⟨fun h => hNonzero (toFp_eq_zero.mpr ((MontyForm.toZMod_eq_zero x.inner).mpr h)),
      MontyForm.natAbs_finalState x.inner hEnded hUnit⟩

end FieldElement

namespace Fe301

/-- The runtime inversion: by the canonical bytes into Montgomery form and back. -/
def invertSafegcd (x : Fe301) : CtOption Fe301 :=
  let inverse := x.montgomery.invert
  ⟨(fromCanonicalBytes inverse.value.toCanonicalBytes).value, inverse.isSome⟩

variable {x : Fe301} {v : Fp}

theorem invertSafegcd_value (x : Fe301) :
    x.invertSafegcd.value.Repr x.montgomery.invert.value.toFp := by
  rw [invertSafegcd, FieldElement.toCanonicalBytes_eq]
  exact fromCanonicalBytes_oracleBytes _

theorem Repr.invertSafegcd (hx : x.Repr v) (hSome : x.invertSafegcd.isSome = true) :
    v ≠ 0 ∧ x.invertSafegcd.value.Repr v⁻¹ := by
  have hNonzero := FieldElement.ne_zero_of_invert hSome
  have hInverse := eq_inv_of_mul_eq_one_left (FieldElement.toFp_invert hSome)
  rw [hx.toFp_montgomery] at hNonzero hInverse
  exact ⟨hNonzero, hInverse ▸ x.invertSafegcd_value⟩

theorem Repr.invertSafegcd_of_zero (hx : x.Repr 0) : x.invertSafegcd = ⟨zero, false⟩ := by
  have hValue := FieldElement.toFp_invert_of_zero hx.toFp_montgomery ▸ x.invertSafegcd_value
  have hNone : x.invertSafegcd.isSome = false := by
    rw [Bool.eq_false_iff]
    intro hSome
    exact (hx.invertSafegcd hSome).1 rfl
  calc
    x.invertSafegcd = ⟨x.invertSafegcd.value, x.invertSafegcd.isSome⟩ := rfl
    _ = ⟨zero, false⟩ := by rw [hValue.ext repr_zero, hNone]

/-- The runtime inversion by division steps. A returned value is the inverse, which the
compile-time power and every lawful backend return as well, and the fixed number of steps
suffices for an element exactly when it returns one. -/
theorem invertSafegcd_exact (x : Fe301) (hx : x.Canonical) :
    (x.invertSafegcd.isSome = true → x.toFp ≠ 0 ∧ x.invertSafegcd.value.Repr x.toFp⁻¹ ∧
        x.invertSafegcd.value = x.invertConstNonzero ∧
        ∀ backend : ModularInverse, x.invertSafegcd = @Fe301.invert backend x) ∧
      (x.toFp = 0 → x.invertSafegcd = ⟨zero, false⟩) ∧
      (x.montgomery.finalState.g = 0 → (x.invertSafegcd.isSome = true ↔ x.toFp ≠ 0)) := by
  refine ⟨?present, ?zero, ?ended⟩
  case present =>
    intro hSome
    obtain ⟨hNonzero, hRepr⟩ := hx.repr.invertSafegcd hSome
    refine ⟨hNonzero, hRepr, hRepr.ext (hx.repr.invertConstNonzero hNonzero), ?_⟩
    intro backend
    have hPresent : (x.invert).isSome = true := by
      rw [hx.repr.invert_isSome]
      exact decide_eq_true hNonzero
    calc
      x.invertSafegcd = ⟨x.invertSafegcd.value, x.invertSafegcd.isSome⟩ := rfl
      _ = ⟨x.invert.value, x.invert.isSome⟩ := by
        rw [hRepr.ext (hx.repr.invert hNonzero), hSome, hPresent]
  case zero =>
    intro hZero
    exact Repr.invertSafegcd_of_zero (hZero ▸ hx.repr)
  case ended =>
    intro hEnded
    constructor
    · intro hSome
      exact (hx.repr.invertSafegcd hSome).1
    · intro hNonzero
      exact FieldElement.invert_isSome hEnded (hx.repr.toFp_montgomery ▸ hNonzero)

theorem finalState_minusOne : minusOne.montgomery.finalState.g = 0 := by decide +kernel

/-- The largest element. -/
theorem invertSafegcd_exact_minusOne : minusOne.invertSafegcd.isSome = true ∧
    minusOne.invertSafegcd.value.Repr minusOne.toFp⁻¹ := by
  obtain ⟨hPresent, -, hEnded⟩ := invertSafegcd_exact minusOne canonical_minusOne
  have hSome := (hEnded finalState_minusOne).mpr toFp_minusOne_ne_zero
  exact ⟨hSome, (hPresent hSome).2.1⟩

end Fe301

end X301Provider
