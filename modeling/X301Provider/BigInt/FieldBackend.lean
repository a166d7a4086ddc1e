import X301Provider.BigInt.MontyForm
import X301Provider.Field.FieldElement

/-!
# The Montgomery backend of the field

The forms of the field modulus have the laws that the generic backend is used by. Both field
implementations, the sparse limbs and the Montgomery forms, give the same bytes.
-/

namespace X301Provider.BigInt

open Limbs

def fieldModulus : OddUint 5 := ⟨modulus, by
  rw [value_modulus]
  exact P_odd⟩

/-- The parameters of `FieldModulus`. -/
def fieldParams : MontyParams 5 := .newVartime fieldModulus

abbrev MontgomeryFieldElement := MontyForm fieldParams

theorem fieldParams_m : fieldParams.m = P := value_modulus

/-- The big-integer library at the field modulus. An exponent has the limbs that its bit bound
needs, five at the bounds in use. -/
scoped instance backend : MontgomeryForm where
  Element := MontgomeryFieldElement
  zero := .zero fieldParams
  new n := .new fieldParams (.ofNat 5 n)
  retrieve a := value a.retrieve.1
  mul := MontyForm.mul
  square := MontyForm.square
  powBoundedExp a exponent bits := a.powBoundedExp (.ofNat (bits / 64 + 1) exponent) bits
  ctEq := MontyForm.ctEq
  retrieve_lt _ := MontyForm.retrieve_lt.trans_eq fieldParams_m
  retrieve_zero := MontyForm.retrieve_zero
  retrieve_new n h := by
    have hFits : n < wordBase ^ 5 := by
      have hBound := P_bounds.2.2.1
      omega
    rw [MontyForm.retrieve_new, value_ofNat, fieldParams_m, Nat.mod_eq_of_lt hFits,
      Nat.mod_eq_of_lt h]
  retrieve_mul a b := by rw [MontyForm.retrieve_mul, fieldParams_m]
  retrieve_square a := by rw [MontyForm.retrieve_square, fieldParams_m]
  retrieve_powBoundedExp a exponent bits := by
    have hBits : bits ≤ 64 * (bits / 64 + 1) := by omega
    have hDvd : 2 ^ bits ∣ wordBase ^ (bits / 64 + 1) := by
      rw [wordBase, ← pow_mul]
      exact pow_dvd_pow 2 hBits
    rw [MontyForm.retrieve_powBoundedExp, value_ofNat, fieldParams_m, Nat.mod_mod_of_dvd _ hDvd]
  ctEq_iff _ _ := MontyForm.ctEq_iff.trans MontyForm.retrieve_inj.symm

end X301Provider.BigInt

namespace X301Provider.FieldElement

open BigInt

def add (x y : FieldElement) : FieldElement := ⟨MontyForm.add x.inner y.inner⟩

def sub (x y : FieldElement) : FieldElement := ⟨MontyForm.sub x.inner y.inner⟩

def neg (x : FieldElement) : FieldElement := ⟨MontyForm.neg x.inner⟩

/-- `(p + 1) / 4`. -/
def sqrtExponent : ℕ :=
  0x000007fffffffffffffffffffffffffffffffffffffffffffffffffe0000000000000000000000ed

def sqrt (x : FieldElement) : CtOption FieldElement :=
  let candidate : FieldElement :=
    ⟨MontgomeryForm.powBoundedExp x.inner sqrtExponent sqrtExponentBits⟩
  ⟨candidate, candidate.square.ctEq x⟩

def isOdd (x : FieldElement) : Bool := x.toCanonicalBytes.1.getD 0 0 &&& 1 == 1

variable (x y : FieldElement)

theorem toFp_eq : x.toFp = ZMod.ringEquivCongr fieldParams_m (MontyForm.toZMod x.inner) := by
  rw [MontyForm.toZMod, map_natCast]
  rfl

theorem toFp_add : (x.add y).toFp = x.toFp + y.toFp := by
  rw [toFp_eq, toFp_eq, toFp_eq, ← map_add, ← MontyForm.toZMod_add]
  rfl

theorem toFp_sub : (x.sub y).toFp = x.toFp - y.toFp := by
  rw [toFp_eq, toFp_eq, toFp_eq, ← map_sub, ← MontyForm.toZMod_sub]
  rfl

theorem toFp_neg : x.neg.toFp = -x.toFp := by
  rw [toFp_eq, toFp_eq, ← map_neg, ← MontyForm.toZMod_neg]
  rfl

theorem sqrtExponent_eq : sqrtExponent % 2 ^ sqrtExponentBits = (P + 1) / 4 ∧
    (P + 1) / 4 * 2 * 2 = P + 1 := by
  decide +kernel

theorem toFp_sqrt : x.sqrt.value.toFp = x.toFp ^ ((P + 1) / 4) := by
  rw [toFp, sqrt, MontgomeryForm.retrieve_powBoundedExp, sqrtExponent_eq.1, ZMod.natCast_mod,
    Nat.cast_pow]
  rfl

theorem sqrt_isSome : x.sqrt.isSome = true ↔ IsSquare x.toFp := by
  have hCheck : x.sqrt.isSome = x.sqrt.value.square.ctEq x := rfl
  rw [hCheck, ctEq_eq, decide_eq_true_eq, toFp_square, toFp_sqrt]
  constructor
  · intro h
    exact ⟨x.toFp ^ ((P + 1) / 4), by rw [← sq, h]⟩
  · rintro ⟨r, hr⟩
    rw [hr, ← sq, ← pow_mul, ← pow_mul, mul_comm 2, sqrtExponent_eq.2, pow_succ, ZMod.pow_card, sq]

/-- The lowest bit of the lowest byte. -/
theorem isOdd_eq : x.isOdd = decide (x.toFp.val % 2 = 1) := by
  have hByte := Limbs.byteAt_eq x.toCanonicalBytes.1 0
  rw [toCanonicalBytes_eq, Fe301.oracleBytes_value, mul_zero, pow_zero, Nat.div_one] at hByte
  have hOne : (1 : UInt8).toNat = 1 := rfl
  rw [isOdd, toCanonicalBytes_eq, Bool.eq_iff_iff, beq_iff_eq, decide_eq_true_eq, ← UInt8.toNat_inj,
    UInt8.toNat_and, hOne, Nat.and_one_is_mod, ← hByte, Nat.mod_mod_of_dvd _ (by decide)]

end X301Provider.FieldElement

namespace X301Provider.Fe301

open BigInt

/-- A result of both implementations that stands for one field element. -/
theorem Repr.bytes_agree {x : Fe301} {y : FieldElement} {v : Fp} (hx : x.Repr v) (hy : y.toFp = v) :
    y.toCanonicalBytes = x.toCanonicalBytes := by
  rw [hx.toCanonicalBytes, FieldElement.toCanonicalBytes_eq, hy]

/-- The sparse limbs and the library's Montgomery forms give the same bytes. -/
theorem backends_agree (x y : Fe301) (hx : x.Canonical) (hy : y.Canonical) :
    (x.montgomery.add y.montgomery).toCanonicalBytes = (x.add y).toCanonicalBytes ∧
      (x.montgomery.sub y.montgomery).toCanonicalBytes = (x.sub y).toCanonicalBytes ∧
      x.montgomery.neg.toCanonicalBytes = x.neg.toCanonicalBytes ∧
      (x.montgomery.mul y.montgomery).toCanonicalBytes = (x.mul y).toCanonicalBytes ∧
      x.montgomery.square.toCanonicalBytes = x.square.toCanonicalBytes ∧
      x.montgomery.isOdd = x.isOdd ∧
      x.montgomery.ctEq y.montgomery = x.ctEq y ∧
      (x.montgomery.sqrtRatio y.montgomery).isSome = (x.sqrtRatio y).isSome ∧
      (x.montgomery.sqrtRatio y.montgomery).value.toCanonicalBytes =
        (x.sqrtRatio y).value.toCanonicalBytes ∧
      (x.montgomery.sqrt.isSome = true ↔ IsSquare x.toFp) := by
  have hu := hx.repr.toFp_montgomery
  have hv := hy.repr.toFp_montgomery
  refine ⟨?add, ?sub, ?neg, ?mul, ?square, ?isOdd, ?ctEq, ?ratioPresent, ?ratio, ?sqrt⟩
  case add => exact (hx.repr.add hy.repr).bytes_agree (by rw [FieldElement.toFp_add, hu, hv])
  case sub => exact (hx.repr.sub hy.repr).bytes_agree (by rw [FieldElement.toFp_sub, hu, hv])
  case neg => exact hx.repr.neg.bytes_agree (by rw [FieldElement.toFp_neg, hu])
  case mul => exact (hx.repr.mul hy.repr).bytes_agree (by rw [FieldElement.toFp_mul, hu, hv])
  case square => exact hx.repr.square.bytes_agree (by rw [FieldElement.toFp_square, hu])
  case isOdd => rw [FieldElement.isOdd_eq, hu, hx.repr.isOdd]
  case ctEq => rw [FieldElement.ctEq_eq, hu, hv, hx.repr.ctEq hy.repr]
  case ratioPresent => rw [sqrtRatio_isSome hx.repr hy.repr, FieldElement.sqrtRatio_isSome, hu, hv]
  case ratio =>
    exact (sqrtRatio_repr hx.repr hy.repr).bytes_agree (by
      rw [FieldElement.toFp_sqrtRatio, hu, hv])
  case sqrt => rw [FieldElement.sqrt_isSome, hu]

theorem backends_agree_one : one.montgomery.neg.toCanonicalBytes = one.neg.toCanonicalBytes :=
  (backends_agree one one repr_one.lt repr_one.lt).2.2.1

end X301Provider.Fe301
