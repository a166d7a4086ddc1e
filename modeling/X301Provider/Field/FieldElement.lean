import X301Provider.Field.Power

/-!
# The generic Montgomery backend

The constant-time baseline that the limb arithmetic is checked against. Its
integers and its Montgomery forms belong to an external big-integer library, of
which only the residues are used.
-/

namespace X301Provider

open Limbs

/-- The Montgomery forms of the external library for the field modulus. An exponent is read up
to a bit bound. -/
class MontgomeryForm where
  Element : Type
  zero : Element
  new : ℕ → Element
  retrieve : Element → ℕ
  mul : Element → Element → Element
  square : Element → Element
  powBoundedExp : Element → ℕ → ℕ → Element
  ctEq : Element → Element → Bool
  retrieve_lt : ∀ a, retrieve a < P
  retrieve_zero : retrieve zero = 0
  retrieve_new : ∀ n, n < P → retrieve (new n) = n
  retrieve_mul : ∀ a b, retrieve (mul a b) = retrieve a * retrieve b % P
  retrieve_square : ∀ a, retrieve (square a) = retrieve a ^ 2 % P
  retrieve_powBoundedExp : ∀ a exponent bits,
    retrieve (powBoundedExp a exponent bits) = retrieve a ^ (exponent % 2 ^ bits) % P
  ctEq_iff : ∀ a b, ctEq a b = true ↔ retrieve a = retrieve b

theorem val_pow_residue (a : Fp) (n : ℕ) : (a ^ n).val = a.val ^ n % P := by
  rw [← ZMod.val_natCast, Nat.cast_pow, ZMod.natCast_zmod_val]

/-- The backend whose forms are the residues themselves. -/
@[reducible] def MontgomeryForm.residues : MontgomeryForm where
  Element := Fp
  zero := 0
  new n := n
  retrieve a := a.val
  mul a b := a * b
  square a := a ^ 2
  powBoundedExp a exponent bits := a ^ (exponent % 2 ^ bits)
  ctEq a b := decide (a = b)
  retrieve_lt a := a.val_lt
  retrieve_zero := ZMod.val_zero
  retrieve_new _ h := ZMod.val_cast_of_lt h
  retrieve_mul a b := ZMod.val_mul a b
  retrieve_square a := val_pow_residue a 2
  retrieve_powBoundedExp a _ _ := val_pow_residue a _
  ctEq_iff a b := by rw [decide_eq_true_eq, (ZMod.val_injective P).eq_iff]

structure FieldElement [MontgomeryForm] where
  inner : MontgomeryForm.Element

namespace FieldElement

def sqrtExponentBits : ℕ := 301

/-- `(p - 3) / 4`. -/
def sqrtRatioExponent : ℕ :=
  0x000007fffffffffffffffffffffffffffffffffffffffffffffffffe0000000000000000000000ec

variable [MontgomeryForm]

def zero : FieldElement := ⟨MontgomeryForm.zero⟩

def fromCanonicalBytes (bytes : Bytes 38) : CtOption FieldElement :=
  let integer := bytesValue bytes.1
  ⟨⟨MontgomeryForm.new integer⟩, decide (integer < P)⟩

def toCanonicalBytes (x : FieldElement) : Bytes 38 :=
  ⟨leBytes 38 (MontgomeryForm.retrieve x.inner), leBytes_length 38 _⟩

def mul (x y : FieldElement) : FieldElement := ⟨MontgomeryForm.mul x.inner y.inner⟩

def square (x : FieldElement) : FieldElement := ⟨MontgomeryForm.square x.inner⟩

def ctEq (x y : FieldElement) : Bool := MontgomeryForm.ctEq x.inner y.inner

def isZero (x : FieldElement) : Bool := x.ctEq zero

def sqrtRatio (numerator denominator : FieldElement) : CtOption FieldElement :=
  let product := numerator.mul denominator
  let factor : FieldElement :=
    ⟨MontgomeryForm.powBoundedExp product.inner sqrtRatioExponent sqrtExponentBits⟩
  let candidate := numerator.mul factor
  let isRoot := (candidate.square.mul denominator).ctEq numerator && !denominator.isZero
  ⟨candidate, isRoot⟩

def toFp (x : FieldElement) : Fp := (MontgomeryForm.retrieve x.inner : Fp)

variable (x y : FieldElement)

theorem val_toFp : x.toFp.val = MontgomeryForm.retrieve x.inner :=
  ZMod.val_cast_of_lt (MontgomeryForm.retrieve_lt x.inner)

theorem toFp_mul : (x.mul y).toFp = x.toFp * y.toFp := by
  rw [toFp, mul, MontgomeryForm.retrieve_mul, ZMod.natCast_mod, Nat.cast_mul]
  rfl

theorem toFp_square : x.square.toFp = x.toFp ^ 2 := by
  rw [toFp, square, MontgomeryForm.retrieve_square, ZMod.natCast_mod, Nat.cast_pow]
  rfl

theorem ctEq_eq : x.ctEq y = decide (x.toFp = y.toFp) := by
  rw [Bool.eq_iff_iff, decide_eq_true_eq, ← (ZMod.val_injective P).eq_iff, val_toFp, val_toFp]
  exact MontgomeryForm.ctEq_iff _ _

theorem isZero_eq : x.isZero = decide (x.toFp = 0) := by
  have hZero : zero.toFp = 0 := by
    rw [toFp, zero, MontgomeryForm.retrieve_zero, Nat.cast_zero]
  rw [isZero, ctEq_eq, hZero]

theorem toCanonicalBytes_eq : x.toCanonicalBytes = Fe301.oracleBytes x.toFp := by
  apply Subtype.ext
  simp only [toCanonicalBytes, Fe301.oracleBytes, val_toFp]

theorem toFp_fromCanonicalBytes (v : Fp) :
    (fromCanonicalBytes (Fe301.oracleBytes v)).value.toFp = v := by
  have hRetrieve := MontgomeryForm.retrieve_new (bytesValue (Fe301.oracleBytes v).1) (by
    rw [Fe301.oracleBytes_value]
    exact v.val_lt)
  rw [toFp, fromCanonicalBytes, hRetrieve, Fe301.oracleBytes_value, ZMod.natCast_zmod_val]

omit [MontgomeryForm] in
theorem sqrtRatioExponent_eq : sqrtRatioExponent % 2 ^ sqrtExponentBits = (P - 3) / 4 := by
  decide +kernel

theorem toFp_sqrtRatio : (sqrtRatio x y).value.toFp = Fe301.ratioCandidate x.toFp y.toFp := by
  have hPower : toFp ⟨MontgomeryForm.powBoundedExp (x.mul y).inner sqrtRatioExponent
      sqrtExponentBits⟩ = (x.toFp * y.toFp) ^ ((P - 3) / 4) := by
    rw [toFp, MontgomeryForm.retrieve_powBoundedExp, sqrtRatioExponent_eq, ZMod.natCast_mod,
      Nat.cast_pow, ← toFp_mul]
    rfl
  rw [Fe301.ratioCandidate, ← hPower, ← toFp_mul]
  rfl

theorem sqrtRatio_isSome : (sqrtRatio x y).isSome =
    (decide (Fe301.ratioCandidate x.toFp y.toFp ^ 2 * y.toFp = x.toFp) &&
      !decide (y.toFp = 0)) := by
  rw [← toFp_sqrtRatio, ← toFp_square, ← toFp_mul, ← ctEq_eq, ← isZero_eq]
  rfl

end FieldElement

namespace Fe301

section Agreement

variable [MontgomeryForm]

def montgomery (x : Fe301) : FieldElement :=
  (FieldElement.fromCanonicalBytes x.toCanonicalBytes).value

theorem Repr.toFp_montgomery {x : Fe301} {v : Fp} (h : x.Repr v) : x.montgomery.toFp = v := by
  rw [montgomery, h.toCanonicalBytes, FieldElement.toFp_fromCanonicalBytes]

/-- The limb square root of a ratio: when it is present, what it returns, and that the Montgomery
backend decides and returns the same. -/
theorem sqrtRatio_exact (u v : Fe301) (hu : u.Canonical) (hv : v.Canonical) :
    ((sqrtRatio u v).isSome = true ↔ v ≠ zero ∧ ∃ r : Fp, r ^ 2 * v.toFp = u.toFp) ∧
      (sqrtRatio u v).value.Canonical ∧
      ((sqrtRatio u v).isSome = true →
        (sqrtRatio u v).value.toFp ^ 2 * v.toFp = u.toFp) ∧
      (sqrtRatio u v).isSome = (FieldElement.sqrtRatio u.montgomery v.montgomery).isSome ∧
      (sqrtRatio u v).value.toCanonicalBytes =
        (FieldElement.sqrtRatio u.montgomery v.montgomery).value.toCanonicalBytes := by
  obtain ⟨hIsSome, -⟩ := sqrtRatio_spec hu.repr hv.repr
  have hCheck := sqrtRatio_isSome hu.repr hv.repr
  have hRoot := sqrtRatio_repr hu.repr hv.repr
  refine ⟨?_, hRoot.lt, ?_, ?_, ?_⟩
  · have hZero : v = zero ↔ v.toFp = 0 := hv.repr.eq_iff repr_zero
    rw [hIsSome, decide_eq_true_eq, ne_eq, ne_eq, hZero]
  · intro hSome
    rw [hCheck, Bool.and_eq_true, decide_eq_true_eq] at hSome
    rw [hRoot.canonical_toFp.2]
    exact hSome.1
  · rw [hCheck, FieldElement.sqrtRatio_isSome, hu.repr.toFp_montgomery, hv.repr.toFp_montgomery]
  · rw [hRoot.toCanonicalBytes, FieldElement.toCanonicalBytes_eq, FieldElement.toFp_sqrtRatio,
      hu.repr.toFp_montgomery, hv.repr.toFp_montgomery]

end Agreement

theorem sqrtRatio_exact_one : (sqrtRatio one one).isSome = true :=
  ((@sqrtRatio_exact .residues one one repr_one.lt repr_one.lt).1).mpr
    ⟨by decide, 1, by rw [repr_one.canonical_toFp.2, one_pow, one_mul]⟩

end Fe301

end X301Provider
