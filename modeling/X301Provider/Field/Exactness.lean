import X301Provider.Field.LazySpec

/-!
# Exact integer results of the canonical operations

The value that the five limbs of a result spell is the least non-negative residue
of the integer expression over the values of the operands.
-/

namespace X301Provider

open Limbs

namespace Fe301

/-- The limbs are the least non-negative residue of the integer. -/
structure IsResidue (x : Fe301) (n : ℤ) : Prop where
  canonical : x.Canonical
  value_eq : (value x.limbs.1 : ℤ) = n % (P : ℤ)

variable {x y : Fe301}

theorem Repr.isResidue {n : ℤ} (h : x.Repr (n : Fp)) : x.IsResidue n := by
  constructor
  · exact h.lt
  · rw [h]
    exact ZMod.val_intCast n

theorem Canonical.repr_intCast (h : x.Canonical) : x.Repr ((value x.limbs.1 : ℤ) : Fp) := by
  rw [Int.cast_natCast]
  exact h.repr

/-- The canonical operations on any two canonical elements and any multiplier. -/
theorem arithmetic_isResidue (x y : Fe301) (hx : x.Canonical) (hy : y.Canonical) (c : UInt32) :
    (x.add y).IsResidue (value x.limbs.1 + value y.limbs.1) ∧
      (x.sub y).IsResidue (value x.limbs.1 - value y.limbs.1) ∧
      x.neg.IsResidue (-value x.limbs.1) ∧
      (x.mul y).IsResidue (value x.limbs.1 * value y.limbs.1) ∧
      x.square.IsResidue (value x.limbs.1 ^ 2) ∧
      (x.mulSmall c).IsResidue (c.toNat * value x.limbs.1) := by
  have hX := hx.repr_intCast
  have hY := hy.repr_intCast
  refine ⟨?_, ?_, ?_, ?_, ?_, ?_⟩
  · apply Repr.isResidue
    rw [Int.cast_add]
    exact hX.add hY
  · apply Repr.isResidue
    rw [Int.cast_sub]
    exact hX.sub hY
  · apply Repr.isResidue
    rw [Int.cast_neg]
    exact hX.neg
  · apply Repr.isResidue
    rw [Int.cast_mul]
    exact hX.mul hY
  · apply Repr.isResidue
    rw [Int.cast_pow]
    exact hX.square
  · apply Repr.isResidue
    rw [Int.cast_mul, Int.cast_natCast c.toNat, mul_comm]
    exact hX.mulSmall c

/-- `p - 1`. -/
def minusOne : Fe301 :=
  .fromCanonicalWords ⟨[0x00000000000003b2, 0xfffffff800000000, 0xffffffffffffffff,
    0xffffffffffffffff, 0x00001fffffffffff], rfl⟩

theorem value_minusOne : value minusOne.limbs.1 + 1 = P := by decide +kernel

theorem canonical_minusOne : minusOne.Canonical := by
  have hValue := value_minusOne
  rw [Canonical]
  omega

theorem toFp_minusOne_ne_zero : minusOne.toFp ≠ 0 := by
  have hValue := value_minusOne
  have hOne := prime_P.one_lt
  rw [toFp, Ne, ZMod.natCast_eq_zero_iff]
  intro hDvd
  have hLe := Nat.le_of_dvd (by omega) hDvd
  omega

theorem arithmetic_isResidue_minusOne : (minusOne.add minusOne).Canonical ∧
    (minusOne.mulSmall 0xffffffff).Canonical := by
  obtain ⟨hAdd, -, -, -, -, hSmall⟩ :=
    arithmetic_isResidue minusOne minusOne canonical_minusOne canonical_minusOne 0xffffffff
  exact ⟨hAdd.canonical, hSmall.canonical⟩

end Fe301

end X301Provider
